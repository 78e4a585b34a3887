import Mathlib.Order.Basic

/-!
# Orders at a venue

A venue as its client sees it: orders under the ids they were submitted with, each open
until the venue has filled, canceled or rejected it. The client can submit an order and
ask for its cancellation; everything else is up to the venue, which may go on filling an
order whose cancellation it was asked for.

An id is the place of the order in the book, so that ids are never used twice. `Later`
is what any number of operations relate: orders stay under their ids, an order that has
ended stays so, and a request to cancel is not taken back.
-/

namespace Venue

open List Option

inductive Status | submitted | accepted | filled | canceled | rejected
deriving DecidableEq, Repr

/-- The venue can still fill the order. -/
def Status.IsOpen (status : Status) : Prop := status = .submitted ∨ status = .accepted
deriving Decidable

/-- An order: what its client asked for, and what has become of it. -/
structure Order (ι τ : Type) where
  info : ι
  status : Status
  cancelRequested : Bool
  trades : List τ

/-- The orders of a venue, each at the place of its id. -/
structure Book (ι τ : Type) where
  orders : List (Order ι τ)

variable {ι τ : Type}

namespace Order

variable (o : Order ι τ)

/-- A request to cancel, which an order that has ended ignores. -/
def askCancel : Order ι τ :=
  if o.status.IsOpen then { o with cancelRequested := true } else o

/-- The venue accepts the order. -/
def accept : Order ι τ :=
  if o.status = .submitted then { o with status := .accepted } else o

/-- The venue executes a trade, the last one if it fills the order. -/
def trade (t : τ) (closes : Bool) (o : Order ι τ) : Order ι τ :=
  { o with trades := o.trades ++ [t], status := if closes then .filled else .accepted }

/-- The venue ends the order. -/
def finish (status : Status) (o : Order ι τ) : Order ι τ := { o with status := status }

/-- What can become of an order. -/
structure Later (o o' : Order ι τ) : Prop where
  info : o'.info = o.info
  isOpen : o'.status.IsOpen → o.status.IsOpen
  cancelRequested : o.cancelRequested = true → o'.cancelRequested = true

theorem Later.refl : Later o o := ⟨rfl, id, id⟩

theorem askCancel_later : Later o o.askCancel := by
  unfold askCancel
  split_ifs with h
  · exact ⟨rfl, fun _ => h, fun _ => rfl⟩
  · exact Later.refl o

theorem accept_later : Later o o.accept := by
  unfold accept
  split_ifs with h
  · exact ⟨rfl, fun _ => .inl h, id⟩
  · exact Later.refl o

variable {o}

theorem trade_later (t : τ) (closes : Bool) (h : o.status.IsOpen) :
    Later o (o.trade t closes) := ⟨rfl, fun _ => h, id⟩

theorem finish_later (status : Status) (h : o.status.IsOpen) :
    Later o (o.finish status) := ⟨rfl, fun _ => h, id⟩

variable (o)

@[simp] theorem info_askCancel : o.askCancel.info = o.info :=
  (askCancel_later o).info

@[simp] theorem status_askCancel : o.askCancel.status = o.status := by
  unfold askCancel
  split_ifs <;> rfl

@[simp] theorem trades_askCancel : o.askCancel.trades = o.trades := by
  unfold askCancel
  split_ifs <;> rfl

variable {o}

theorem cancelRequested_askCancel (h : o.status.IsOpen) : o.askCancel.cancelRequested = true := by
  unfold askCancel
  rw [if_pos h]

variable (o)

@[simp] theorem trades_accept : o.accept.trades = o.trades := by
  unfold accept
  split_ifs <;> rfl

end Order

namespace Book

variable (b : Book ι τ)

/-- The order under an id. -/
def order? (id : ℕ) : Option (Order ι τ) := b.orders[id]?

/-- The id that the next order gets. -/
def next : ℕ := b.orders.length

def empty : Book ι τ := ⟨[]⟩

def submit (info : ι) (b : Book ι τ) : Book ι τ := ⟨b.orders ++ [⟨info, .submitted, false, []⟩]⟩

/-- One order changes. -/
def amend (id : ℕ) (f : Order ι τ → Order ι τ) (b : Book ι τ) : Book ι τ := ⟨b.orders.modify id f⟩

variable (f : Order ι τ → Order ι τ)

/-- Every order changes. -/
def amendAll (b : Book ι τ) : Book ι τ := ⟨b.orders.map f⟩

/-- **A live order** of a kind. -/
def Live (P : ι → Prop) (b : Book ι τ) (id : ℕ) : Prop :=
  ∃ o, b.order? id = some o ∧ o.status.IsOpen ∧ P o.info

instance (P : ι → Prop) [DecidablePred P] (b : Book ι τ) (id : ℕ) : Decidable (b.Live P id) :=
  inferInstanceAs (Decidable (∃ o ∈ b.order? id, o.status.IsOpen ∧ P o.info))

@[simp] theorem order?_empty (id : ℕ) : (empty : Book ι τ).order? id = none := rfl

variable {b} {id : ℕ} {o : Order ι τ}

theorem lt_next_of_order? (h : b.order? id = some o) :
    id < b.next := (List.getElem?_eq_some_iff.mp h).1

theorem order?_next (b : Book ι τ) : b.order? b.next = none :=
  getElem?_eq_none (Nat.le_refl b.orders.length)

theorem order?_submit (info : ι) (b : Book ι τ) (id : ℕ) : (b.submit info).order? id =
      if id = b.next then some ⟨info, .submitted, false, []⟩ else b.order? id := by
  show (b.orders ++ [_])[id]? = _
  split_ifs with h
  · rw [h]
    exact getElem?_concat_length
  · rcases Nat.lt_or_gt_of_ne h with hlt | hgt
    · exact getElem?_append_left hlt
    · have hle : b.orders.length + 1 ≤ id := hgt
      rw [getElem?_eq_none (by rw [length_append]; exact hle)]
      exact (getElem?_eq_none (Nat.le_of_succ_le hle)).symm

variable {info : ι}

theorem order?_submit_of_some (h : b.order? id = some o) : (b.submit info).order? id = some o := by
  rw [order?_submit, if_neg (Nat.ne_of_lt (lt_next_of_order? h)), h]

theorem order?_amend (k : ℕ) (f : Order ι τ → Order ι τ) (b : Book ι τ) (id : ℕ) :
    (b.amend k f).order? id = if id = k then (b.order? id).map f else b.order? id := by
  show (b.orders.modify k f)[id]? = _
  rw [getElem?_modify]
  by_cases h : id = k
  · simp only [if_pos h, if_pos h.symm]
    rfl
  · simp only [if_neg h, if_neg (Ne.symm h)]
    exact Option.map_id'

variable {f} {k : ℕ}

theorem order?_amend_self (h : b.order? k = some o) : (b.amend k f).order? k = some (f o) := by
  rw [order?_amend, if_pos rfl, h]
  rfl

theorem order?_amend_of_ne (h : id ≠ k) :
    (b.amend k f).order? id = b.order? id := by rw [order?_amend, if_neg h]

variable (f) (b)

theorem order?_amendAll (id : ℕ) : (b.amendAll f).order? id = (b.order? id).map f := getElem?_map

/-! ## What becomes of the orders of a book -/

/-- **A later book**: every order is still there, as something that can have become of it. -/
def Later (b b' : Book ι τ) : Prop :=
  ∀ id o, b.order? id = some o → ∃ o', b'.order? id = some o' ∧ o.Later o'

theorem Later.refl : Later b b := fun _ o h => ⟨o, h, .refl o⟩

theorem submit_later (info : ι) (b : Book ι τ) : Later b (b.submit info) :=
  fun _ o h => ⟨o, order?_submit_of_some h, .refl o⟩

variable {f} {b}

theorem amend_later (hf : ∀ o, b.order? k = some o → o.Later (f o)) : Later b (b.amend k f) := by
  intro id o h
  by_cases hid : id = k
  · subst hid
    exact ⟨f o, order?_amend_self h, hf o h⟩
  · exact ⟨o, (order?_amend_of_ne hid).trans h, .refl o⟩

theorem amendAll_later (hf : ∀ o, Order.Later o (f o)) (b : Book ι τ) : Later b (b.amendAll f) :=
  fun id o h => ⟨f o, by rw [order?_amendAll, h]; rfl, hf o⟩

/-! ## Live orders -/

variable {P : ι → Prop}

theorem Live.lt_next (h : b.Live P id) : id < b.next := by
  obtain ⟨o, ho, -⟩ := h
  exact lt_next_of_order? ho

theorem not_live_next (b : Book ι τ) : ¬ b.Live P b.next := by
  rintro ⟨o, h, -⟩
  exact absurd (h.symm.trans b.order?_next) (by simp)

/-- A submission adds one live order, if it is of the kind. -/
theorem live_submit_iff : (b.submit info).Live P id ↔ id = b.next ∧ P info ∨ b.Live P id := by
  by_cases hid : id = b.next
  · constructor
    · rintro ⟨o, ho, -, hP⟩
      rw [order?_submit, if_pos hid] at ho
      exact .inl ⟨hid, by rw [← some.inj ho] at hP; exact hP⟩
    · rintro (⟨-, hP⟩ | hlive)
      · exact ⟨_, (order?_submit info b id).trans (if_pos hid), .inl rfl, hP⟩
      · exact absurd (hid ▸ hlive) b.not_live_next
  · unfold Live
    rw [order?_submit, if_neg hid]
    exact ⟨.inr, fun h => h.resolve_left fun h' => hid h'.1⟩

/-- **What was live before**: a book that has no orders but those of an earlier one has
no live order that was not live there. -/
theorem Live.of_amend (hf : ∀ o, b.order? k = some o → o.Later (f o))
    (h : (b.amend k f).Live P id) :
    b.Live P id := by
  obtain ⟨o', ho', hopen, hP⟩ := h
  by_cases hid : id = k
  · subst hid
    rw [order?_amend, if_pos rfl] at ho'
    obtain ⟨o, ho, rfl⟩ := map_eq_some_iff.mp ho'
    exact ⟨o, ho, (hf o ho).isOpen hopen, (hf o ho).info ▸ hP⟩
  · exact ⟨o', (order?_amend_of_ne hid).symm.trans ho', hopen, hP⟩

theorem Live.of_amendAll (hf : ∀ o, Order.Later o (f o)) (h : (b.amendAll f).Live P id) :
    b.Live P id := by
  obtain ⟨o', ho', hopen, hP⟩ := h
  rw [order?_amendAll] at ho'
  obtain ⟨o, ho, rfl⟩ := map_eq_some_iff.mp ho'
  exact ⟨o, ho, (hf o).isOpen hopen, (hf o).info ▸ hP⟩

theorem not_live_amend_self (hf : ∀ o, ¬ (f o).status.IsOpen) : ¬ (b.amend k f).Live P k := by
  rintro ⟨o', ho', hopen, -⟩
  rw [order?_amend, if_pos rfl] at ho'
  obtain ⟨o, -, rfl⟩ := map_eq_some_iff.mp ho'
  exact hf o hopen

end Book

end Venue
