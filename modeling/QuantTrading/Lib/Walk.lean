import Mathlib.Order.Lattice
import QuantTrading.Lib.Raise

/-!
# Walks

A loop that goes from a place to the next as long as a condition holds, collects what it finds at
each and ends with the first error: `walk`. It is written with fuel, of which more than enough
changes nothing (`walk_fuel`).

Where the next place is the next in an order, and the condition holds up to some place, a walk that
does not raise collects what is found at exactly the places of an interval, in order (`walk_of_ok`);
and one that does not raise has not raised at any of them (`ok_of_walk`).
-/

namespace Walk

open Except

variable {α α' β ε : Type}

/-- **The loop.** What is found at a place is collected before the next place is looked for. -/
def walk (next : α → Except ε α) (go : α → Bool) (body : α → Except ε (List β)) :
    ℕ → α → List β → Except ε (List β)
  | 0, _, acc => .ok acc
  | fuel + 1, x, acc =>
    if go x then do
      let found ← body x
      let y ← next x
      walk next go body fuel y (acc ++ found)
    else .ok acc

variable {body : α → Except ε (List β)} {go : α → Bool} {next : α → Except ε α}

/-- A walk over names of places is the walk over the places. -/
theorem walk_map {next' : α' → Except ε α'} {place : α' → α}
    (hnext : ∀ x, next (place x) = (next' x).map place) (fuel : ℕ) (x : α') (acc : List β) :
    walk next go body fuel (place x) acc
      = walk next' (go ∘ place) (body ∘ place) fuel x acc := by
  induction fuel generalizing x acc with
  | zero => rfl
  | succ fuel ih =>
    unfold walk
    rw [hnext]
    show (if go (place x) = true then _ else _) = if go (place x) = true then _ else _
    refine if_congr Iff.rfl ?_ rfl
    show (body (place x) >>= _) = body (place x) >>= _
    congr 1
    funext found
    cases next' x with
    | error e => rfl
    | ok y => exact ih y (acc ++ found)

/-- What a walk collects was found where the condition holds. -/
theorem exists_of_mem_walk {fuel : ℕ} {x : α} {acc out : List β}
    (h : walk next go body fuel x acc = .ok out) {b : β} (hb : b ∈ out) :
    b ∈ acc ∨ ∃ z found, go z = true ∧ body z = .ok found ∧ b ∈ found := by
  induction fuel generalizing x acc with
  | zero => exact .inl (ok.inj h ▸ hb)
  | succ fuel ih =>
    unfold walk at h
    split_ifs at h with hgo
    · obtain ⟨found, hfound, h⟩ := of_bind h
      obtain ⟨y, -, h⟩ := of_bind h
      rcases ih h with hacc | hlater
      · exact (List.mem_append.mp hacc).imp_right fun hb => ⟨x, found, hgo, hfound, hb⟩
      · exact .inr hlater
    · exact .inl (ok.inj h ▸ hb)

section Order

variable [LinearOrder α] {next : α → Except ε α} {go : α → Bool} {body : α → Except ε (List β)}
  {rank : α → ℕ} {bound : ℕ}

/-- The next place is the next in the order, which is counted by `rank`, and the condition holds up
to some place below a bound. -/
structure Ordered (next : α → Except ε α) (go : α → Bool) (rank : α → ℕ) (bound : ℕ) : Prop where
  lt_iff : ∀ {x y z}, next x = .ok y → (x < z ↔ y ≤ z)
  rank_lt : ∀ {x y}, x < y → rank x < rank y
  go_of_le : ∀ {x y}, x ≤ y → go y = true → go x = true
  rank_lt_bound : ∀ {x}, go x = true → rank x < bound

variable {x : α}

variable {y : α}

theorem Ordered.lt_next (h : Ordered next go rank bound) (hxy : next x = .ok y) :
    x < y := (h.lt_iff hxy).mpr le_rfl

variable {fuel : ℕ}

variable (h : Ordered next go rank bound)
include h

theorem Ordered.enough (hxy : next x = .ok y)
    (hfuel : bound ≤ fuel + 1 + rank x) : bound ≤ fuel + rank y := by
  have hlt := h.rank_lt (h.lt_next hxy)
  omega

/-- **More fuel than enough changes nothing.** -/
theorem Ordered.walk_fuel {fuel' : ℕ}
    (hfuel : bound ≤ fuel + rank x) (hfuel' : bound ≤ fuel' + rank x) (acc : List β) :
    walk next go body fuel x acc = walk next go body fuel' x acc := by
  induction fuel generalizing fuel' x acc with
  | zero =>
    have hgo : ¬ go x = true := fun hgo => by
      have hlt := h.rank_lt_bound hgo
      omega
    cases fuel' with
    | zero => rfl
    | succ fuel' => exact (if_neg hgo).symm
  | succ fuel ih =>
    cases fuel' with
    | zero =>
      have hgo : ¬ go x = true := fun hgo => by
        have hlt := h.rank_lt_bound hgo
        omega
      exact if_neg hgo
    | succ fuel' =>
      unfold walk
      refine if_congr Iff.rfl ?_ rfl
      congr 1
      funext found
      cases hxy : next x with
      | error e => rfl
      | ok y => exact ih (h.enough hxy hfuel) (h.enough hxy hfuel') (acc ++ found)

/-- **What a walk collects** when nothing is raised at the places of the interval. -/
theorem Ordered.walk_of_ok (f : α → List β)
    (hfuel : bound ≤ fuel + rank x) (hbody : ∀ z, x ≤ z → go z = true → body z = .ok (f z))
    (hnext : ∀ z, x ≤ z → go z = true → ∃ y, next z = .ok y) (acc : List β) :
    ∃ places : List α, places.Pairwise (· < ·) ∧ (∀ z, z ∈ places ↔ x ≤ z ∧ go z = true)
      ∧ walk next go body fuel x acc = .ok (acc ++ places.flatMap f) := by
  induction fuel generalizing x acc with
  | zero =>
    have hgo : ∀ z, x ≤ z → ¬ go z = true := fun z hz hgo => by
      have hlt := h.rank_lt_bound (h.go_of_le hz hgo)
      omega
    refine ⟨[], List.Pairwise.nil, fun z => ?_, ?_⟩
    · simpa using hgo z
    · show Except.ok acc = _
      simp
  | succ fuel ih =>
    by_cases hx : go x = true
    · obtain ⟨y, hy⟩ := hnext x le_rfl hx
      have hle : ∀ z, y ≤ z → x ≤ z := fun z hz => (h.lt_next hy).le.trans hz
      obtain ⟨places, hsorted, hmem, hwalk⟩ := ih (h.enough hy hfuel)
        (fun z hz => hbody z (hle z hz)) (fun z hz => hnext z (hle z hz)) (acc ++ f x)
      refine ⟨x :: places, List.pairwise_cons.mpr ⟨fun z hz => ?_, hsorted⟩, fun z => ?_, ?_⟩
      · exact (h.lt_next hy).trans_le ((hmem z).mp hz).1
      · rw [List.mem_cons, hmem, ← h.lt_iff hy, le_iff_eq_or_lt, eq_comm (a := z)]
        refine ⟨fun hz => ?_, fun hz => hz.1.imp_right fun hlt => ⟨hlt, hz.2⟩⟩
        rcases hz with rfl | hz
        · exact ⟨.inl rfl, hx⟩
        · exact ⟨.inr hz.1, hz.2⟩
      · unfold walk
        rw [if_pos hx, hbody x le_rfl hx, ok_bind, hy, ok_bind, hwalk, List.flatMap_cons,
          List.append_assoc]
    · refine ⟨[], List.Pairwise.nil, fun z => ?_, ?_⟩
      · simpa using fun hz hgo => hx (h.go_of_le hz hgo)
      · unfold walk
        rw [if_neg hx]
        simp

/-- **A walk that does not raise** has not raised at any place of the interval. -/
theorem Ordered.ok_of_walk {z : α} {acc out : List β}
    (hfuel : bound ≤ fuel + rank x) (hwalk : walk next go body fuel x acc = .ok out) (hz : x ≤ z)
    (hgo : go z = true) : (∃ found, body z = .ok found) ∧ ∃ y, next z = .ok y := by
  induction fuel generalizing x acc with
  | zero =>
    have hlt := h.rank_lt_bound (h.go_of_le hz hgo)
    omega
  | succ fuel ih =>
    unfold walk at hwalk
    rw [if_pos (h.go_of_le hz hgo)] at hwalk
    obtain ⟨found, hfound, hwalk⟩ := of_bind hwalk
    obtain ⟨y, hy, hwalk⟩ := of_bind hwalk
    rcases hz.eq_or_lt with rfl | hlt
    · exact ⟨⟨found, hfound⟩, y, hy⟩
    · exact ih (h.enough hy hfuel) hwalk ((h.lt_iff hy).mp hlt)

end Order

end Walk
