import Mathlib.Algebra.Order.BigOperators.Group.List
import Mathlib.Data.List.Nodup
import Mathlib.Tactic.Abel

/-!
# Tables with a primary key

A relational table is a list of rows, and its primary key is a function of
the row. That no two rows share a key is part of the structure, so every
operation here produces a table that has it and no later statement assumes
it.

A few operations are enough for transactional code: look a row up by its
key, insert a row unless its key is taken (`INSERT … ON CONFLICT DO
NOTHING`), change the row of one key (`UPDATE … WHERE key = …`) or every row
under a condition, and delete rows (`DELETE … WHERE …`). What a lookup and a
sum over all rows become after each of them is what a proof about such code
uses. Of a row that exists, an update is a `replace`.
-/

/-- **A table**: rows of type `ρ`, no two with the same `key`. -/
structure Table {κ ρ : Type} (key : ρ → κ) where
  /-- The rows, in order of insertion. -/
  rows : List ρ
  /-- The primary key is one. -/
  nodup : (rows.map key).Nodup

namespace Table

open List

variable {κ ρ M : Type} [DecidableEq κ] {key : ρ → κ}

/-- The table without rows. -/
def empty : Table key := ⟨[], nodup_nil⟩

variable (t : Table key)

/-- The row of a key. -/
def find? (k : κ) : Option ρ := t.rows.find? (fun r => key r = k)

/-- Insert a row unless its key is taken. -/
def insertOnce (r : ρ) : Table key :=
  if h : key r ∈ t.rows.map key then t
  else
    { rows := t.rows ++ [r]
      nodup := by
        rw [map_append, map_singleton]
        exact nodup_append.mpr ⟨t.nodup, nodup_singleton _, by
          intro a ha b hb hab
          rw [mem_singleton] at hb
          exact h (hb ▸ hab ▸ ha)⟩ }

omit [DecidableEq κ] in
/-- Mapping rows without touching their keys keeps the list of keys. -/
theorem map_key_map (rows : List ρ) (f : ρ → ρ) (hf : ∀ r, key (f r) = key r) :
    (rows.map f).map key = rows.map key := by
  rw [map_map]
  exact map_congr_left (fun r _ => hf r)

/-- Change the row of a key, if there is one, by a function that keeps keys. -/
def update (k : κ) (f : ρ → ρ) (hf : ∀ r, key (f r) = key r) : Table key where
  rows := t.rows.map (fun r => if key r = k then f r else r)
  nodup := by
    rw [map_key_map _ _ (fun r => by split_ifs <;> simp [hf])]
    exact t.nodup

/-- Answering with `s` on the key of `s` keeps keys. -/
theorem key_ite (s r : ρ) : key (if key r = key s then s else r) = key r := by
  split_ifs with h <;> simp [h]

/-- Put a row in the place of the one with its key, if there is one. -/
def replace (s : ρ) : Table key :=
  t.update (key s) (fun r => if key r = key s then s else r) (key_ite s)

variable (p : ρ → Prop)

/-- Change every row that satisfies a condition, by a function that keeps keys. -/
def updateWhere [DecidablePred p] (f : ρ → ρ) (hf : ∀ r, key (f r) = key r) : Table key where
  rows := t.rows.map (fun r => if p r then f r else r)
  nodup := by
    rw [map_key_map _ _ (fun r => by split_ifs <;> simp [hf])]
    exact t.nodup

/-- Delete the rows that satisfy a condition. -/
def deleteWhere [DecidablePred p] : Table key where
  rows := t.rows.filter (fun r => ¬ p r)
  nodup := t.nodup.sublist (filter_sublist.map key)

/-! ## Looking up -/

variable {k : κ} {r : ρ} {t}

/-- What a lookup returns has the key that was asked for. -/
theorem key_of_find? (h : t.find? k = some r) : key r = k := by
  simpa using find?_some h

theorem mem_of_find? (h : t.find? k = some r) : r ∈ t.rows :=
  mem_of_find?_eq_some h

/-- A row is found under its key, and there is no other. -/
theorem find?_of_mem (h : r ∈ t.rows) : t.find? (key r) = some r := by
  obtain ⟨rows, nodup⟩ := t
  unfold find?
  dsimp only at h ⊢
  induction rows with
  | nil => cases h
  | cons a rows ih =>
    rw [map_cons, nodup_cons] at nodup
    rcases mem_cons.mp h with rfl | hmem
    · simp
    · have hne : key a ≠ key r := fun he => nodup.1 (he ▸ mem_map_of_mem hmem)
      rw [find?_cons_of_neg (by simpa using hne)]
      exact ih nodup.2 hmem

theorem mem_rows_iff : r ∈ t.rows ↔ t.find? (key r) = some r :=
  ⟨find?_of_mem, mem_of_find?⟩

variable {s : ρ}

theorem length_filter_key_le (t : Table key) (k : κ) :
    (t.rows.filter fun r => key r = k).length ≤ 1 := by
  have hnodup : ((t.rows.filter fun r => key r = k).map key).Nodup :=
    t.nodup.sublist (filter_sublist.map key)
  have hkeys : (t.rows.filter fun r => key r = k).map key
      = List.replicate (t.rows.filter fun r => key r = k).length k := by
    refine eq_replicate_iff.mpr ⟨length_map _, fun k' hk' => ?_⟩
    obtain ⟨r, hr, rfl⟩ := mem_map.mp hk'
    exact of_decide_eq_true (mem_filter.mp hr).2
  rw [hkeys] at hnodup
  exact nodup_replicate.mp hnodup

theorem find?_eq_none_iff : t.find? k = none ↔ k ∉ t.rows.map key := by
  simp [find?, List.find?_eq_none]

@[simp] theorem find?_empty (k : κ) : (empty : Table key).find? k = none := rfl

theorem insertOnce_of_find? (h : t.find? (key r) = some s) : t.insertOnce r = t := by
  unfold insertOnce
  rw [dif_pos (key_of_find? h ▸ mem_map_of_mem (mem_of_find? h))]

theorem rows_insertOnce (h : t.find? (key r) = none) : (t.insertOnce r).rows = t.rows ++ [r] := by
  unfold insertOnce
  rw [dif_neg (find?_eq_none_iff.mp h)]

/-- **A lookup after an insertion.** -/
theorem find?_insertOnce (t : Table key) (r : ρ) (k : κ) : (t.insertOnce r).find? k
      = if t.find? (key r) = none ∧ key r = k then some r else t.find? k := by
  cases hr : t.find? (key r) with
  | some s => rw [insertOnce_of_find? hr, if_neg (by simp)]
  | none =>
    unfold find?
    rw [rows_insertOnce hr, find?_append]
    by_cases hk : key r = k
    · subst hk
      have hnone : t.rows.find? (fun x => key x = key r) = none := hr
      simp [hnone]
    · simp [hk]

theorem find?_insertOnce_of_find? (h : t.find? k = some s) : (t.insertOnce r).find? k = some s := by
  rw [find?_insertOnce, if_neg, h]
  rintro ⟨hnone, hkey⟩
  rw [hkey, h] at hnone
  cases hnone

theorem find?_insertOnce_self (h : t.find? (key r) = none) :
    (t.insertOnce r).find? (key r) = some r := by
  rw [find?_insertOnce, if_pos ⟨h, rfl⟩]

/-- **A lookup after an update.** -/
theorem find?_update (t : Table key) (k : κ) (f : ρ → ρ) (hf : ∀ r, key (f r) = key r) (k' : κ) :
    (t.update k f hf).find? k' = if k' = k then (t.find? k).map f else t.find? k' := by
  obtain ⟨rows, nodup⟩ := t
  unfold update find?
  dsimp only
  clear nodup
  induction rows with
  | nil => simp
  | cons a rows ih =>
    rw [map_cons]
    have hkey : key (if key a = k then f a else a) = key a := by split_ifs <;> simp [hf]
    by_cases ha : key a = k'
    · rw [find?_cons_of_pos (by simpa [hkey] using ha)]
      by_cases hk : k' = k
      · subst hk
        simp [ha]
      · rw [if_neg (ha ▸ hk), if_neg hk, find?_cons_of_pos (by simpa using ha)]
    · rw [find?_cons_of_neg (by simpa [hkey] using ha), ih]
      by_cases hk : k' = k
      · subst hk
        rw [if_pos rfl, if_pos rfl, find?_cons_of_neg (by simpa using ha)]
      · rw [if_neg hk, if_neg hk, find?_cons_of_neg (by simpa using ha)]

variable {f : ρ → ρ} {hf : ∀ r, key (f r) = key r}

theorem find?_update_self (h : t.find? k = some r) : (t.update k f hf).find? k = some (f r) := by
  rw [find?_update, if_pos rfl, h, Option.map_some]

/-- **A lookup after an update of many rows.** -/
theorem find?_updateWhere (t : Table key) (p : ρ → Prop) [DecidablePred p] (f : ρ → ρ)
    (hf : ∀ r, key (f r) = key r) (k : κ) :
    (t.updateWhere p f hf).find? k = (t.find? k).map (fun r => if p r then f r else r) := by
  unfold updateWhere find?
  rw [find?_map]
  congr 2
  funext r
  show decide (key (if p r then f r else r) = k) = decide (key r = k)
  split_ifs <;> simp [hf]

/-- A row after an update is an old row, changed if it has the key. -/
theorem mem_rows_update :
    r ∈ (t.update k f hf).rows ↔ ∃ s ∈ t.rows, (if key s = k then f s else s) = r :=
  mem_map

/-- A row after an insertion is an old row or the new one. -/
theorem mem_rows_insertOnce (h : t.find? (key r) = none) :
    s ∈ (t.insertOnce r).rows ↔ s ∈ t.rows ∨ s = r := by
  rw [rows_insertOnce h, mem_append, mem_singleton]

variable {p}

omit [DecidableEq κ] in
/-- A row after a deletion is an old row that the condition spares. -/
@[simp] theorem mem_rows_deleteWhere [DecidablePred p] :
    r ∈ (t.deleteWhere p).rows ↔ r ∈ t.rows ∧ ¬ p r := by
  show r ∈ t.rows.filter (fun r => ¬ p r) ↔ _
  simp

/-- A lookup after a deletion returns what it returned before, unless that is deleted. -/
theorem find?_deleteWhere_eq_some_iff [DecidablePred p] :
    (t.deleteWhere p).find? k = some r ↔ t.find? k = some r ∧ ¬ p r := by
  constructor
  · intro h
    obtain ⟨hmem, hp⟩ := mem_rows_deleteWhere.mp (mem_of_find? h)
    exact ⟨key_of_find? h ▸ find?_of_mem hmem, hp⟩
  · rintro ⟨h, hp⟩
    have hmem := mem_rows_deleteWhere.mpr ⟨mem_of_find? h, hp⟩
    exact key_of_find? h ▸ find?_of_mem hmem

/-! ## Updates as replacements

An `UPDATE` of an existing row puts a known row in the place of a known row,
and several updates of one row are the last. -/

/-- Without a row of the key an update changes nothing. -/
theorem update_of_find?_none (h : t.find? k = none) (f : ρ → ρ) (hf : ∀ r, key (f r) = key r) :
    t.update k f hf = t := by
  obtain ⟨rows, nodup⟩ := t
  unfold update
  congr 1
  conv_rhs => rw [← List.map_id rows]
  refine map_congr_left (fun s hs => if_neg (fun he => ?_))
  exact find?_eq_none_iff.mp h (he ▸ mem_map_of_mem hs)

/-- **An update of an existing row** is a replacement of it. -/
theorem update_eq_replace (h : t.find? k = some r) (f : ρ → ρ) (hf : ∀ r, key (f r) = key r) :
    t.update k f hf = t.replace (f r) := by
  have hk := key_of_find? h
  subst hk
  unfold replace update
  congr 1
  refine map_congr_left (fun s hs => ?_)
  rw [hf]
  by_cases hkey : key s = key r
  · -- the row of the key is the one that was found
    have hfound := find?_of_mem hs
    rw [hkey, h] at hfound
    simp [hkey, Option.some.inj hfound]
  · simp [hkey]

/-- **A lookup after a replacement.** -/
theorem find?_replace (h : t.find? (key s) = some r) (k : κ) :
    (t.replace s).find? k = if k = key s then some s else t.find? k := by
  refine (find?_update t (key s) _ (key_ite s) k).trans ?_
  rw [h, Option.map_some, if_pos (key_of_find? h)]

theorem find?_replace_self (h : t.find? (key s) = some r) :
    (t.replace s).find? (key s) = some s := by
  rw [find?_replace h, if_pos rfl]

variable (t)

/-- Set the row of a key, whether there is one or not. -/
def put (r : ρ) : Table key :=
  if (t.find? (key r)).isSome then t.replace r else t.insertOnce r

/-- **A lookup after a row is set.** -/
theorem find?_put (r : ρ) (k : κ) :
    (t.put r).find? k = if k = key r then some r else t.find? k := by
  unfold put
  cases hr : t.find? (key r) with
  | none =>
    rw [Option.isSome_none, if_neg Bool.false_ne_true, find?_insertOnce]
    by_cases hk : k = key r
    · rw [if_pos hk, hk, hr, if_pos ⟨rfl, rfl⟩]
    · simp [Ne.symm hk, hk]
  | some s => rw [Option.isSome_some, if_pos rfl, find?_replace hr]

variable {t}

theorem replace_self (h : t.find? (key r) = some r) : t.replace r = t := by
  obtain ⟨rows, nodup⟩ := t
  unfold replace update
  simp only [Table.mk.injEq]
  conv_rhs => rw [← List.map_id rows]
  refine map_congr_left (fun s hs => ?_)
  by_cases hkey : key s = key r
  · have hfound := find?_of_mem (t := ⟨rows, nodup⟩) hs
    rw [hkey, h] at hfound
    simp [hkey, Option.some.inj hfound]
  · simp [hkey]

theorem replace_replace (t : Table key) (h : key r = key s) :
    (t.replace r).replace s = t.replace s := by
  unfold replace update
  simp only [Table.mk.injEq, map_map]
  refine map_congr_left (fun a _ => ?_)
  by_cases ha : key a = key s
  · simp [ha, h]
  · simp [ha, h]

/-- An update after a replacement of the same row is a replacement. -/
theorem update_replace (h : t.find? k = some r) (hs : key s = k) (f : ρ → ρ)
    (hf : ∀ r, key (f r) = key r) : (t.replace s).update k f hf = t.replace (f s) := by
  subst hs
  rw [update_eq_replace (find?_replace_self h), replace_replace]
  exact (hf s).symm

/-- A row after a replacement is the new one or an old one of another key. -/
theorem mem_rows_replace (h : t.find? (key s) = some r) {a : ρ} :
    a ∈ (t.replace s).rows ↔ a = s ∨ (a ∈ t.rows ∧ key a ≠ key s) := by
  rw [mem_rows_iff, find?_replace h]
  by_cases ha : key a = key s
  · rw [if_pos ha, Option.some.injEq]
    exact ⟨fun he => .inl he.symm, fun he => he.elim Eq.symm (fun hn => absurd ha hn.2)⟩
  · rw [if_neg ha, ← mem_rows_iff]
    refine ⟨fun hm => .inr ⟨hm, ha⟩, fun he => he.elim (fun hs => ?_) And.left⟩
    exact absurd (congrArg key hs) ha

/-! ## Sums over a table -/

/-- The sum of a quantity over the rows that satisfy a condition. -/
def sumOf [AddCommMonoid M] (t : Table key) (p : ρ → Prop) [DecidablePred p] (g : ρ → M) : M :=
  ((t.rows.filter p).map g).sum

omit [DecidableEq κ] in
theorem sumOf_eq_zero [AddCommMonoid M] [DecidablePred p] (h : ∀ r ∈ t.rows, ¬ p r) (g : ρ → M) :
    t.sumOf p g = 0 := by
  unfold sumOf
  rw [filter_eq_nil_iff.mpr (fun r hr => by simpa using h r hr)]
  rfl

variable {g : ρ → M}

omit [DecidableEq κ] in
/-- A row that is counted weighs no more than the sum, where no row weighs
less than nothing. -/
theorem le_sumOf [AddCommMonoid M] [PartialOrder M] [IsOrderedAddMonoid M] [DecidablePred p]
    (h : ∀ r ∈ t.rows, p r → 0 ≤ g r) (hr : r ∈ t.rows) (hp : p r) : g r ≤ t.sumOf p g := by
  unfold sumOf
  refine single_le_sum ?_ _ (mem_map_of_mem (mem_filter.mpr ⟨hr, by simpa using hp⟩))
  intro x hx
  obtain ⟨s, hs, rfl⟩ := mem_map.mp hx
  obtain ⟨hs, hps⟩ := mem_filter.mp hs
  exact h s hs (by simpa using hps)

variable {q : ρ → Prop}

omit [DecidableEq κ] in
theorem sumOf_congr [AddCommMonoid M] [DecidablePred p] [DecidablePred q]
    (h : ∀ r ∈ t.rows, p r ↔ q r) (g : ρ → M) : t.sumOf p g = t.sumOf q g := by
  unfold sumOf
  rw [filter_congr (fun r hr => decide_eq_decide.mpr (h r hr))]

omit [DecidableEq κ] in
/-- Weights that agree on the rows that are counted sum up the same. -/
theorem sumOf_congr_right [AddCommMonoid M] [DecidablePred p] {g' : ρ → M}
    (h : ∀ r ∈ t.rows, p r → g r = g' r) : t.sumOf p g = t.sumOf p g' := by
  unfold sumOf
  congr 1
  refine map_congr_left (fun r hr => ?_)
  obtain ⟨hr, hp⟩ := mem_filter.mp hr
  exact h r hr (by simpa using hp)

variable (p)

theorem sum_filter_map_cons [AddCommMonoid M] [DecidablePred p] (g : ρ → M) (r : ρ) (rows : List ρ)
    : (((r :: rows).filter p).map g).sum
      = (if p r then g r else 0) + ((rows.filter p).map g).sum := by
  by_cases hp : p r <;> simp [hp]

variable [AddCommGroup M]

omit [DecidableEq κ] in
@[simp] theorem sumOf_empty [DecidablePred p] (g : ρ → M) : (empty : Table key).sumOf p g = 0 := rfl

/-- **A sum after an insertion** gains the new row, if the condition counts it. -/
theorem sumOf_insertOnce (h : t.find? (key r) = none) (p : ρ → Prop) [DecidablePred p] (g : ρ → M) :
    (t.insertOnce r).sumOf p g = t.sumOf p g + if p r then g r else 0 := by
  unfold sumOf
  rw [rows_insertOnce h, filter_append, map_append, sum_append]
  by_cases hp : p r <;> simp [hp]

omit [DecidableEq κ] in
/-- The contribution of the rows before and after a change, over any list of
rows with distinct keys. -/
theorem sum_filter_map_update [DecidableEq κ] (rows : List ρ) (nodup : (rows.map key).Nodup)
    (hmem : r ∈ rows) (f : ρ → ρ) (p : ρ → Prop) [DecidablePred p] (g : ρ → M) :
    (((rows.map (fun s => if key s = key r then f s else s)).filter p).map g).sum
      = ((rows.filter p).map g).sum - (if p r then g r else 0)
        + if p (f r) then g (f r) else 0 := by
  induction rows with
  | nil => cases hmem
  | cons a rows ih =>
    rw [map_cons, nodup_cons] at nodup
    rw [map_cons, sum_filter_map_cons, sum_filter_map_cons]
    rcases mem_cons.mp hmem with rfl | htail
    · -- the head is the row that changes, and no other row has its key
      have hrest : rows.map (fun s => if key s = key r then f s else s) = rows := by
        conv_rhs => rw [← List.map_id rows]
        refine map_congr_left (fun s hs => if_neg (fun he => ?_))
        exact nodup.1 (he ▸ mem_map_of_mem hs)
      rw [hrest, if_pos rfl]
      abel
    · have hne : key a ≠ key r := fun he => nodup.1 (he ▸ mem_map_of_mem htail)
      rw [if_neg hne, ih nodup.2 htail]
      abel

/-- **A sum after an update** trades the old row for the new one. -/
theorem sumOf_update (h : t.find? k = some r) (f : ρ → ρ) (hf : ∀ r, key (f r) = key r)
    (p : ρ → Prop) [DecidablePred p] (g : ρ → M) : (t.update k f hf).sumOf p g
      = t.sumOf p g - (if p r then g r else 0) + if p (f r) then g (f r) else 0 := by
  have hk := key_of_find? h
  subst hk
  exact sum_filter_map_update t.rows t.nodup (mem_of_find? h) f p g

/-- **A sum after a replacement** trades the old row for the new one. -/
theorem sumOf_replace (h : t.find? (key s) = some r) (p : ρ → Prop) [DecidablePred p] (g : ρ → M) :
    (t.replace s).sumOf p g = t.sumOf p g - (if p r then g r else 0) + if p s then g s else 0 := by
  refine (sumOf_update h _ (key_ite s) p g).trans ?_
  rw [if_pos (key_of_find? h)]

variable {p}

/-- **A sum under another condition**, that differs on the row of one key. -/
theorem sumOf_of_ne (h : t.find? k = some r) [DecidablePred p] [DecidablePred q]
    (hpq : ∀ s ∈ t.rows, key s ≠ k → (p s ↔ q s)) (g : ρ → M) :
    t.sumOf q g = t.sumOf p g - (if p r then g r else 0) + if q r then g r else 0 := by
  -- the rows of other keys, counted by either condition
  have hsplit : ∀ (u : ρ → Prop) [DecidablePred u], t.sumOf u g
      = t.sumOf (fun s => u s ∧ key s ≠ k) g + if u r then g r else 0 := by
    intro u _
    have hrows : ∀ (rows : List ρ), (rows.map key).Nodup → r ∈ rows → key r = k →
        ((rows.filter u).map g).sum
          = ((rows.filter (fun s => u s ∧ key s ≠ k)).map g).sum + if u r then g r else 0 := by
      intro rows nodup hmem hk
      induction rows with
      | nil => cases hmem
      | cons a rows ih =>
        rw [map_cons, nodup_cons] at nodup
        rcases mem_cons.mp hmem with rfl | htail
        · have hrest : rows.filter (fun s => u s ∧ key s ≠ k) = rows.filter u := by
            refine filter_congr (fun s hs => decide_eq_decide.mpr (and_iff_left (fun he => ?_)))
            exact nodup.1 (hk.trans he.symm ▸ mem_map_of_mem hs)
          have hhead : ¬ (u r ∧ key r ≠ k) := fun hu => hu.2 hk
          rw [sum_filter_map_cons, sum_filter_map_cons, hrest, if_neg hhead, zero_add, add_comm]
        · have hne : key a ≠ k := fun he => nodup.1 (he.trans hk.symm ▸ mem_map_of_mem htail)
          rw [sum_filter_map_cons, sum_filter_map_cons, ih nodup.2 htail,
            if_congr (and_iff_left hne) rfl rfl, add_assoc]
    exact hrows t.rows t.nodup (mem_of_find? h) (key_of_find? h)
  rw [hsplit p, hsplit q, add_sub_cancel_right]
  congr 1
  exact sumOf_congr (fun s hs => and_congr_left (fun hne => (hpq s hs hne).symm)) g

end Table
