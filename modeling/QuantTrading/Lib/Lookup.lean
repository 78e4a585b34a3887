import Mathlib.Data.List.Nodup

/-!
# Association lists

Lists of names with values, as objects of JSON and attributes of an object are. When no name is
there twice, every entry is found by its name.
-/

namespace List

variable {κ β : Type} [DecidableEq κ] {entries : List (κ × β)}

/-- **An entry is found by its name**, when no name is there twice. -/
theorem lookup_of_mem (hnodup : (entries.map Prod.fst).Nodup) {a : κ × β} (ha : a ∈ entries) :
    entries.lookup a.1 = some a.2 := by
  induction entries with
  | nil => cases ha
  | cons x xs ih =>
    rw [map_cons, nodup_cons] at hnodup
    rcases mem_cons.mp ha with rfl | hxs
    · exact lookup_cons_self
    · have hne : (a.1 == x.1) = false := by
        rw [beq_eq_false_iff_ne]
        intro heq
        exact hnodup.1 (heq ▸ mem_map_of_mem hxs)
      rw [lookup_cons, hne]
      exact ih hnodup.2 hxs

theorem mem_of_lookup {k : κ} {b : β} (h : entries.lookup k = some b) : (k, b) ∈ entries := by
  obtain ⟨before, after, rfl, -⟩ := lookup_eq_some_iff.mp h
  exact mem_append_right before mem_cons_self

theorem lookup_map_snd {γ : Type} (f : β → γ) (entries : List (κ × β)) (k : κ) :
    (entries.map fun entry => (entry.1, f entry.2)).lookup k = (entries.lookup k).map f := by
  induction entries with
  | nil => rfl
  | cons x xs ih =>
    rw [map_cons, lookup_cons, lookup_cons, ih]
    cases k == x.1 <;> rfl

variable (entries)

/-- The value of a name is replaced, or the name is added at the end. -/
def put (k : κ) (b : β) : List (κ × β) :=
  if k ∈ entries.map Prod.fst then entries.map fun entry => if entry.1 = k then (k, b) else entry
  else entries ++ [(k, b)]

/-- **What is put is found**, and nothing else changes. -/
@[simp] theorem lookup_put (k k' : κ) (b : β) :
    (entries.put k b).lookup k' = if k' = k then some b else entries.lookup k' := by
  unfold put
  split
  · rename_i hmem
    induction entries with
    | nil => cases hmem
    | cons x xs ih =>
      rw [map_cons]
      by_cases hx : x.1 = k
      · rw [if_pos hx, lookup_cons, lookup_cons, hx]
        by_cases hk : k' = k
        · rw [if_pos hk, beq_iff_eq.mpr hk]
        · rw [if_neg hk, beq_eq_false_iff_ne.mpr hk]
          by_cases htail : k ∈ xs.map Prod.fst
          · exact (ih htail).trans (if_neg hk)
          · have hsame : (xs.map fun entry => if entry.1 = k then (k, b) else entry) = xs :=
              (map_congr_left fun entry hentry => if_neg fun heq : entry.1 = k =>
                htail (heq ▸ mem_map_of_mem hentry)).trans (map_id xs)
            exact congrArg (fun entries => entries.lookup k') hsame
      · have htail : k ∈ xs.map Prod.fst := (mem_cons.mp hmem).resolve_left fun h => hx h.symm
        rw [if_neg hx, lookup_cons, lookup_cons, ih htail]
        by_cases hk : k' = k
        · have hne : (k' == x.1) = false := beq_eq_false_iff_ne.mpr (hk ▸ fun h => hx h.symm)
          rw [hne, if_pos hk]
        · rw [if_neg hk, if_neg hk]
  · rename_i hmem
    rw [lookup_append, lookup_cons, lookup_nil]
    by_cases hk : k' = k
    · have hnone : entries.lookup k' = none := by
        rw [lookup_eq_none_iff]
        intro entry hentry
        refine bne_iff_ne.mpr fun heq : k' = entry.1 => hmem ?_
        rw [← hk, heq]
        exact mem_map_of_mem hentry
      rw [hnone, if_pos hk, beq_iff_eq.mpr hk]
      rfl
    · rw [if_neg hk, beq_eq_false_iff_ne.mpr hk]
      exact Option.or_none

/-- `dict.update`: each entry is put. -/
def update (entries changes : List (κ × β)) : List (κ × β) :=
  changes.foldl (fun entries change => entries.put change.1 change.2) entries

end List
