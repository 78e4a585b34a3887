import Mathlib.Data.Finmap

/-!
# Maps that are followed through absolute updates

A map changes by writes, each of which sets a key to a value or removes it.
Whoever holds the map of one moment and a summary of the writes since – for
every key that was written, what it holds at the end – has the map of the end.
Because a write is absolute, the summary may also reach back before the moment
the map is of: what it says is then already there.
-/

namespace Deltas

open List

variable {κ ν : Type} [DecidableEq κ]

/-- One write: a value for the key, or its removal. -/
def write (m : Finmap fun _ : κ => ν) (w : κ × Option ν) : Finmap fun _ : κ => ν :=
  match w.2 with
  | some v => m.insert w.1 v
  | none => m.erase w.1

/-- Writes, one after the other. -/
def writeAll (m : Finmap fun _ : κ => ν) (ws : List (κ × Option ν)) : Finmap fun _ : κ => ν :=
  ws.foldl write m

@[simp] theorem writeAll_nil (m : Finmap fun _ : κ => ν) : writeAll m [] = m := rfl

@[simp] theorem writeAll_cons (m : Finmap fun _ : κ => ν) (w : κ × Option ν)
    (ws : List (κ × Option ν)) : writeAll m (w :: ws) = writeAll (write m w) ws := rfl

/-- **A write decides its own key** and no other. -/
theorem lookup_write (m : Finmap fun _ : κ => ν) (w : κ × Option ν) (k : κ) :
    (write m w).lookup k = if k = w.1 then w.2 else m.lookup k := by
  obtain ⟨k', v⟩ := w
  cases v with
  | some v =>
    show (m.insert k' v).lookup k = _
    split_ifs with h
    · rw [h, Finmap.lookup_insert]
    · exact Finmap.lookup_insert_of_ne m h
  | none =>
    show (m.erase k').lookup k = _
    split_ifs with h
    · rw [h, Finmap.lookup_erase]
    · exact Finmap.lookup_erase_ne h

variable {k : κ} {m : Finmap fun _ : κ => ν} {ws : List (κ × Option ν)}

theorem lookup_writeAll_of_notMem (h : k ∉ ws.map Prod.fst) :
    (writeAll m ws).lookup k = m.lookup k := by
  induction ws generalizing m with
  | nil => rfl
  | cons w ws ih =>
    simp only [map_cons, mem_cons, not_or] at h
    rw [writeAll_cons, ih h.2, lookup_write, if_neg h.1]

/-- A key that is written with one value only ends with that value. -/
theorem lookup_writeAll_of_mem {v : Option ν} (hv : ∀ w ∈ ws, w.1 = k → w.2 = v)
    (h : k ∈ ws.map Prod.fst) : (writeAll m ws).lookup k = v := by
  induction ws generalizing m with
  | nil => simp at h
  | cons w ws ih =>
    rw [writeAll_cons]
    by_cases hk : k ∈ ws.map Prod.fst
    · exact ih (fun w' hw' => hv w' (mem_cons_of_mem _ hw')) hk
    · have hw : w.1 = k := by simpa [hk, eq_comm] using h
      rw [lookup_writeAll_of_notMem hk, lookup_write, if_pos hw.symm]
      exact hv w mem_cons_self hw

/-- A value in the map after some writes was there before or was written. -/
theorem lookup_writeAll_eq_some {v : ν} (h : (writeAll m ws).lookup k = some v) :
    m.lookup k = some v ∨ (k, some v) ∈ ws := by
  induction ws generalizing m with
  | nil => exact .inl h
  | cons w ws ih =>
    refine (ih h).elim (fun h' => ?_) (fun h' => .inr (mem_cons_of_mem _ h'))
    rw [lookup_write] at h'
    split_ifs at h' with hk
    · exact .inr (mem_cons.mpr (.inl (by rw [hk, ← h'])))
    · exact .inl h'

/-! ## Histories -/

/-- **A map over time**: what it holds at first, and the writes of every later
moment. -/
structure History (κ ν : Type) where
  initial : Finmap fun _ : κ => ν
  change : ℕ → List (κ × Option ν)

/-- The map of a moment. -/
def History.at (h : History κ ν) : ℕ → Finmap fun _ : κ => ν
  | 0 => h.initial
  | n + 1 => writeAll (h.at n) (h.change (n + 1))

variable {h : History κ ν} {n : ℕ}

/-- A key that is not written over some moments holds the same at both ends. -/
theorem History.lookup_at_of_untouched {m : ℕ} (hnm : n ≤ m)
    (hk : ∀ j, n < j → j ≤ m → k ∉ (h.change j).map Prod.fst) :
    (h.at m).lookup k = (h.at n).lookup k := by
  induction m, hnm using Nat.le_induction with
  | base => rfl
  | succ m hnm ih =>
    calc (h.at (m + 1)).lookup k
        = (h.at m).lookup k := lookup_writeAll_of_notMem (hk (m + 1) (by omega) le_rfl)
      _ = (h.at n).lookup k := ih fun j hj hjm => hk j hj (by omega)

/-- **A summary of a range of moments**: every entry says what its key holds at
the end of the range, and every key that is written in the range has an
entry. -/
structure History.Summary (h : History κ ν) (first last : ℕ) (ws : List (κ × Option ν)) : Prop where
  value : ∀ w ∈ ws, (h.at last).lookup w.1 = w.2
  covers : ∀ j, first ≤ j → j ≤ last → ∀ w ∈ h.change j, w.1 ∈ ws.map Prod.fst

/-- **A summary takes the map of any moment it reaches back to** to the map of
its end. -/
theorem History.Summary.catch_up {first last : ℕ} (hs : h.Summary first last ws)
    (hfirst : first ≤ n + 1) (hlast : n ≤ last) : writeAll (h.at n) ws = h.at last := by
  refine Finmap.ext_lookup fun k => ?_
  by_cases hk : k ∈ ws.map Prod.fst
  · exact lookup_writeAll_of_mem (fun w hw hwk => by rw [← hs.value w hw, hwk]) hk
  · rw [lookup_writeAll_of_notMem hk]
    refine (History.lookup_at_of_untouched hlast fun j hnj hj hmem => hk ?_).symm
    obtain ⟨w, hw, rfl⟩ := mem_map.mp hmem
    exact hs.covers j (by omega) hj w hw

end Deltas
