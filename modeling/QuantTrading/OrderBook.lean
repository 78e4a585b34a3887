import Mathlib.Data.Finset.Sort
import QuantTrading.Contracts
import QuantTrading.Lib.Deltas
import QuantTrading.Lib.Machine
import QuantTrading.Lib.Raise

/-!
# The L2 order book

The reconstruction of `qt.marketdata.orderbook`: a snapshot of both sides of a
book, and deltas that are applied to it as long as their update ids bridge
without a gap. Whatever does not fit invalidates the book, and only another
snapshot brings it back.

A side is a finite map from prices to quantities. The hash by which an exact
duplicate of the last delta is known is a parameter, and nothing is assumed of
it.
-/

namespace Qt

open Except List Machine

/-! ## Messages -/

structure PriceLevel where
  price : PositiveDecimal
  quantity : NonNegativeDecimal
deriving DecidableEq

structure DepthSnapshot where
  lastUpdateId : ℕ
  bids : List PriceLevel
  asks : List PriceLevel
  exchangeTsNs : ℕ
  receivedTsNs : ℕ
deriving DecidableEq

/-- A range of updates, with what each touched price level holds after it. -/
structure DepthDelta where
  firstUpdateId : ℕ
  lastUpdateId : ℕ
  previousFinalUpdateId : Option ℕ
  bids : List PriceLevel
  asks : List PriceLevel
  exchangeTsNs : ℕ
  receivedTsNs : ℕ
  orderedRange : firstUpdateId ≤ lastUpdateId
deriving DecidableEq

structure BookView where
  lastUpdateId : ℕ
  bids : List (ℚ × ℚ)
  asks : List (ℚ × ℚ)
  exchangeTsNs : ℕ
  receivedTsNs : ℕ
deriving DecidableEq

/-! ## State -/

inductive BookStatus | invalid | syncing | valid
deriving DecidableEq, Repr

/-- One side of a book: the quantity at each price. -/
abbrev Levels := Finmap fun _ : ℚ => ℚ

/-- The book, with hashes of deltas in `H`. -/
structure OrderBook (H : Type) where
  maximumLevelsPerSide : ℕ+
  status : BookStatus
  invalidReason : Option String
  lastUpdateId : Option ℕ
  exchangeTsNs : ℕ
  receivedTsNs : ℕ
  bids : Levels
  asks : Levels
  lastDeltaHash : Option H
  lastDeltaReceivedNs : Option ℕ

/-- What `view` raises. -/
inductive ViewError
  | valueError (text : String)
  | bookInvalid (reason : String)
deriving DecidableEq, Repr

namespace OrderBook

variable {H : Type}

/-- `OrderBook.__init__`. -/
def new (maximumLevelsPerSide : ℕ+) : OrderBook H where
  maximumLevelsPerSide := maximumLevelsPerSide
  status := .invalid
  invalidReason := some "snapshot_required"
  lastUpdateId := none
  exchangeTsNs := 0
  receivedTsNs := 0
  bids := ∅
  asks := ∅
  lastDeltaHash := none
  lastDeltaReceivedNs := none

variable (b : OrderBook H)

def isValid : Bool := b.status = .valid

def invalidate (b : OrderBook H) (reason : String) : OrderBook H :=
  { b with status := .invalid, invalidReason := some reason }

variable (ls : List PriceLevel)

/-- Prices with their quantities. -/
def items : List (ℚ × ℚ) := ls.map fun l => (l.price.val, l.quantity.val)

/-- `_levels`: the items of the dictionary that the levels make. -/
def levels (snapshot : Bool) : Except String (List (ℚ × ℚ)) := do
  raiseIf (¬ (ls.map fun l => l.price.val).Nodup) "duplicate_price_level"
  raiseIf (snapshot ∧ ∃ l ∈ ls, l.quantity.val = 0) "zero_quantity_in_snapshot"
  return items ls

/-- The dictionary with the items. -/
def dict (items : List (ℚ × ℚ)) : Levels :=
  Deltas.writeAll ∅ (items.map fun i => (i.1, some i.2))

/-- A quantity of zero removes the level. -/
def change (i : ℚ × ℚ) : ℚ × Option ℚ := (i.1, if i.2 = 0 then none else some i.2)

/-- The changes of a delta, made to one side. -/
def applyChanges (target : Levels) (changes : List (ℚ × ℚ)) : Levels :=
  Deltas.writeAll target (changes.map change)

def checkSpread (bids asks : Levels) : Except String Unit :=
  if h : bids.keys.Nonempty ∧ asks.keys.Nonempty then
    raiseIf (asks.keys.min' h.2 ≤ bids.keys.max' h.1) "crossed_or_locked_book"
  else
    .error "empty_side"

/-- The capacity and the spread, which snapshots and deltas check alike. -/
def checkLevels (bids asks : Levels) : Except String Unit := do
  raiseIf (b.maximumLevelsPerSide < max bids.keys.card asks.keys.card)
    "depth_capacity_requires_resnapshot"
  checkSpread bids asks

/-- The sides a snapshot states. -/
def snapshotLevels (snapshot : DepthSnapshot) : Except String (Levels × Levels) := do
  let bids ← levels snapshot.bids true
  let asks ← levels snapshot.asks true
  b.checkLevels (dict bids) (dict asks)
  return (dict bids, dict asks)

def applySnapshot (b : OrderBook H) (snapshot : DepthSnapshot) : OrderBook H × Bool :=
  match b.snapshotLevels snapshot with
  | .error reason => (b.invalidate reason, false)
  | .ok (bids, asks) =>
    ({ b with
        bids := bids
        asks := asks
        lastUpdateId := some snapshot.lastUpdateId
        exchangeTsNs := snapshot.exchangeTsNs
        receivedTsNs := snapshot.receivedTsNs
        lastDeltaHash := none
        lastDeltaReceivedNs := none
        status := .syncing
        invalidReason := some "bridging_delta_required" }, true)

/-- The sides after the changes of a delta. -/
def deltaLevels (delta : DepthDelta) : Except String (Levels × Levels) := do
  let bidChanges ← levels delta.bids false
  let askChanges ← levels delta.asks false
  let bids := applyChanges b.bids bidChanges
  let asks := applyChanges b.asks askChanges
  b.checkLevels bids asks
  return (bids, asks)

variable [DecidableEq H] (contentHash : DepthDelta → H)

/-- The hash of a delta without the time it was received. -/
def digest (delta : DepthDelta) : H := contentHash { delta with receivedTsNs := 0 }

/-- `apply_delta`: true if the delta was new and has been applied. -/
def applyDelta (b : OrderBook H) (delta : DepthDelta) : OrderBook H × Bool :=
  match b.lastUpdateId with
  | none => (b, false)
  | some lastUpdateId =>
    if b.status = .invalid then (b, false)
    -- a frame queued before the snapshot
    else if b.status = .syncing ∧ delta.lastUpdateId ≤ lastUpdateId then (b, false)
    -- an exact duplicate of the last delta
    else if delta.lastUpdateId = lastUpdateId
        ∧ b.lastDeltaHash = some (digest contentHash delta) then (b, false)
    else if delta.lastUpdateId ≤ lastUpdateId then
      (b.invalidate "out_of_order_or_conflicting_duplicate", false)
    else if ∃ t ∈ b.lastDeltaReceivedNs, delta.receivedTsNs < t then
      (b.invalidate "receipt_time_regression", false)
    else if ¬ (delta.firstUpdateId ≤ lastUpdateId + 1 ∧ lastUpdateId + 1 ≤ delta.lastUpdateId) then
      (b.invalidate "sequence_gap", false)
    else if b.status = .valid ∧ ∃ p ∈ delta.previousFinalUpdateId, p ≠ lastUpdateId then
      (b.invalidate "previous_sequence_mismatch", false)
    else
      match b.deltaLevels delta with
      | .error reason => (b.invalidate reason, false)
      | .ok (bids, asks) =>
        ({ b with
            bids := bids
            asks := asks
            lastUpdateId := some delta.lastUpdateId
            exchangeTsNs := delta.exchangeTsNs
            receivedTsNs := max b.receivedTsNs delta.receivedTsNs
            lastDeltaReceivedNs := some delta.receivedTsNs
            lastDeltaHash := some (digest contentHash delta)
            status := .valid
            invalidReason := none }, true)

/-- The items of a side for the prices, up to the depth asked for. -/
def top (side : Levels) (prices : List ℚ) (depth : ℤ) : List (ℚ × ℚ) :=
  (prices.map fun p => (p, (side.lookup p).getD 0)).take depth.toNat

/-- `view`: what is served of the book, or the exception; a clock that lies
before the book also invalidates it. -/
def view (b : OrderBook H) (nowNs maximumAgeNs depth : ℤ) :
    OrderBook H × Except ViewError BookView :=
  if depth ≤ 0 ∨ maximumAgeNs < 0 ∨ nowNs < 0 then
    (b, .error (.valueError "depth must be positive and age nonnegative"))
  else
    match b.isValid, b.lastUpdateId with
    | true, some lastUpdateId =>
      if nowNs < b.receivedTsNs then
        (b.invalidate "receipt_in_future", .error (.bookInvalid "receipt_in_future"))
      else if nowNs < b.exchangeTsNs then
        (b.invalidate "exchange_time_in_future", .error (.bookInvalid "exchange_time_in_future"))
      else if maximumAgeNs < nowNs - b.receivedTsNs then
        (b, .error (.bookInvalid "stale_book"))
      else if maximumAgeNs < nowNs - b.exchangeTsNs then
        (b, .error (.bookInvalid "stale_exchange_data"))
      else
        (b, .ok {
          lastUpdateId := lastUpdateId
          bids := top b.bids (b.bids.keys.sort (· ≥ ·)) depth
          asks := top b.asks (b.asks.keys.sort (· ≤ ·)) depth
          exchangeTsNs := b.exchangeTsNs
          receivedTsNs := b.receivedTsNs })
    | _, _ => (b, .error (.bookInvalid ((b.invalidReason.filter (· ≠ "")).getD "invalid_book")))

/-! ## Calls

A book is single-writer, so its runs are sequences of calls. The collector
also calls `invalidate`, when a connection is lost. -/

inductive Call
  | snapshot (snapshot : DepthSnapshot)
  | delta (delta : DepthDelta)
  | view (nowNs maximumAgeNs depth : ℤ)
  | invalidate (reason : String)
deriving DecidableEq

/-- The call gives the book a new start. -/
def Call.isSnapshot : Call → Bool
  | .snapshot _ => true
  | _ => false

def step (b : OrderBook H) : Call → OrderBook H
  | .snapshot s => (b.applySnapshot s).1
  | .delta d => (b.applyDelta contentHash d).1
  | .view now age depth => (b.view now age depth).1
  | .invalidate reason => b.invalidate reason

/-- **The book after some calls.** -/
def after (b : OrderBook H) (calls : List Call) : OrderBook H :=
  Machine.run (step contentHash) b calls

/-! ## What the two sides of a usable book are like -/

/-- The quantities of a side are positive. -/
def Positive (side : Levels) : Prop := ∀ p q, side.lookup p = some q → 0 < q

/-- **Two sides a decision may rest on**: both quoted, the best bid below the
best ask, no more levels than the capacity allows, and something at each of
them. -/
structure Orderly (capacity : ℕ+) (bids asks : Levels) : Prop where
  bid : bids.keys.Nonempty
  ask : asks.keys.Nonempty
  spread : bids.keys.max' bid < asks.keys.min' ask
  bidCapacity : bids.keys.card ≤ capacity
  askCapacity : asks.keys.card ≤ capacity
  bidPositive : Positive bids
  askPositive : Positive asks

variable {asks : Levels} {b} {bids : Levels}

omit [DecidableEq H] in
/-- The checks pass exactly for two sides that are quoted, uncrossed and
within the capacity. -/
theorem checkLevels_ok {u : Unit} : b.checkLevels bids asks = .ok u ↔
      bids.keys.card ≤ b.maximumLevelsPerSide ∧ asks.keys.card ≤ b.maximumLevelsPerSide ∧
        ∃ (hb : bids.keys.Nonempty) (ha : asks.keys.Nonempty),
          bids.keys.max' hb < asks.keys.min' ha := by
  unfold checkLevels checkSpread
  rw [raiseIf_bind_eq_ok, not_lt, max_le_iff, and_assoc]
  refine and_congr_right fun _ => and_congr_right fun _ => ?_
  split_ifs with h
  · rw [raiseIf_eq_ok, not_le]
    exact ⟨fun hlt => ⟨h.1, h.2, hlt⟩, fun ⟨_, _, hlt⟩ => hlt⟩
  · constructor
    · intro he
      cases he
    · rintro ⟨hb, ha, -⟩
      exact absurd ⟨hb, ha⟩ h

variable {ls}

/-- The levels are accepted exactly if their prices differ and, in a snapshot,
no quantity is zero. -/
theorem levels_ok {snapshot : Bool} {is : List (ℚ × ℚ)} :
    levels ls snapshot = .ok is ↔ (ls.map fun l => l.price.val).Nodup ∧
        (snapshot → ∀ l ∈ ls, l.quantity.val ≠ 0) ∧ is = items ls := by
  unfold levels
  rw [raiseIf_bind_eq_ok, raiseIf_bind_eq_ok, not_not]
  refine and_congr_right fun _ => and_congr ?_ ?_
  · simp only [not_and, not_exists, ne_eq]
  · exact ⟨fun h => (ok.inj h).symm, fun h => congrArg _ h.symm⟩

theorem positive_dict (h : ∀ l ∈ ls, l.quantity.val ≠ 0) : Positive (dict (items ls)) := by
  intro p q hq
  refine (Deltas.lookup_writeAll_eq_some hq).elim (fun he => ?_) (fun hmem => ?_)
  · rw [Finmap.lookup_empty] at he
    cases he
  · simp only [items, map_map, mem_map, Function.comp_apply, Prod.mk.injEq,
      Option.some.injEq] at hmem
    obtain ⟨l, hl, -, rfl⟩ := hmem
    exact lt_of_le_of_ne l.quantity.nonneg (h l hl).symm

/-- Changes keep a side positive: a quantity of zero is a removal. -/
theorem positive_applyChanges {side : Levels} (h : Positive side) (ls : List PriceLevel) :
    Positive (applyChanges side (items ls)) := by
  intro p q hq
  refine (Deltas.lookup_writeAll_eq_some hq).elim (h p q) (fun hmem => ?_)
  simp only [items, map_map, mem_map, Function.comp_apply, change, Prod.mk.injEq,
    Option.ite_none_left_eq_some, Option.some.injEq] at hmem
  obtain ⟨l, -, -, hne, rfl⟩ := hmem
  exact lt_of_le_of_ne l.quantity.nonneg (Ne.symm hne)

variable {s : DepthSnapshot}

omit [DecidableEq H] in
/-- **The sides an accepted snapshot states.** -/
theorem snapshotLevels_ok (h : b.snapshotLevels s = .ok (bids, asks)) :
    bids = dict (items s.bids) ∧ asks = dict (items s.asks) ∧
      Orderly b.maximumLevelsPerSide bids asks := by
  obtain ⟨_, hb, h⟩ := of_bind h
  obtain ⟨_, ha, h⟩ := of_bind h
  obtain ⟨_, hc, h⟩ := of_bind h
  obtain ⟨-, hbz, rfl⟩ := levels_ok.mp hb
  obtain ⟨-, haz, rfl⟩ := levels_ok.mp ha
  obtain ⟨hbc, hac, hbn, han, hlt⟩ := checkLevels_ok.mp hc
  cases h
  exact ⟨rfl, rfl, hbn, han, hlt, hbc, hac, positive_dict (hbz rfl), positive_dict (haz rfl)⟩

variable {d : DepthDelta}

omit [DecidableEq H] in
/-- **The sides after an accepted delta.** -/
theorem deltaLevels_ok (hb : Positive b.bids) (ha : Positive b.asks)
    (h : b.deltaLevels d = .ok (bids, asks)) :
    bids = applyChanges b.bids (items d.bids) ∧ asks = applyChanges b.asks (items d.asks) ∧
      Orderly b.maximumLevelsPerSide bids asks := by
  obtain ⟨_, hbl, h⟩ := of_bind h
  obtain ⟨_, hal, h⟩ := of_bind h
  obtain ⟨_, hc, h⟩ := of_bind h
  obtain ⟨-, -, rfl⟩ := levels_ok.mp hbl
  obtain ⟨-, -, rfl⟩ := levels_ok.mp hal
  obtain ⟨hbc, hac, hbn, han, hlt⟩ := checkLevels_ok.mp hc
  cases h
  exact ⟨rfl, rfl, hbn, han, hlt, hbc, hac, positive_applyChanges hb d.bids,
    positive_applyChanges ha d.asks⟩

/-! ## What a call does -/

/-- **An accepted delta**: it bridges, and the sides it leads to pass the
checks. -/
structure Applied (b : OrderBook H) (d : DepthDelta) (b' : OrderBook H) : Prop where
  usable : b.status ≠ .invalid
  bridges : ∃ n, b.lastUpdateId = some n ∧ d.firstUpdateId ≤ n + 1 ∧ n + 1 ≤ d.lastUpdateId
  bids : b'.bids = applyChanges b.bids (items d.bids)
  asks : b'.asks = applyChanges b.asks (items d.asks)
  orderly : Orderly b.maximumLevelsPerSide b'.bids b'.asks
  lastUpdateId : b'.lastUpdateId = some d.lastUpdateId
  capacity : b'.maximumLevelsPerSide = b.maximumLevelsPerSide
  status : b'.status = .valid

/-- A delta that does the book no harm: one queued before the snapshot, or an
exact duplicate of the last one. -/
def Harmless (b : OrderBook H) (d : DepthDelta) : Prop :=
  (b.status = .syncing ∧ ∃ n ∈ b.lastUpdateId, d.lastUpdateId ≤ n) ∨
    (b.lastUpdateId = some d.lastUpdateId ∧ b.lastDeltaHash = some (digest contentHash d))

/-- **What a delta can do**: nothing, invalidate the book, or be applied. -/
theorem applyDelta_cases (b : OrderBook H) (d : DepthDelta) (hb : Positive b.bids)
    (ha : Positive b.asks) : (b.applyDelta contentHash d = (b, false) ∧
      (b.status = .invalid ∨ b.lastUpdateId = none ∨ b.Harmless contentHash d)) ∨
    (∃ reason, b.applyDelta contentHash d = (b.invalidate reason, false)) ∨
    ((b.applyDelta contentHash d).2 = true ∧ b.Applied d (b.applyDelta contentHash d).1) := by
  cases hn : b.lastUpdateId with
  | none =>
    refine .inl ⟨?_, .inr (.inl rfl)⟩
    simp only [applyDelta, hn]
  | some n =>
    simp only [applyDelta, hn]
    split_ifs with hs hold hdup hlate hreceipt hgap hprev
    · exact .inl ⟨rfl, .inl hs⟩
    · exact .inl ⟨rfl, .inr (.inr (.inl ⟨hold.1, n, hn, hold.2⟩))⟩
    · exact .inl ⟨rfl, .inr (.inr (.inr ⟨hn.trans (congrArg some hdup.1.symm), hdup.2⟩))⟩
    · exact .inr (.inl ⟨_, rfl⟩)
    · exact .inr (.inl ⟨_, rfl⟩)
    · exact .inr (.inl ⟨_, rfl⟩)
    · cases hl : b.deltaLevels d with
      | error reason => exact .inr (.inl ⟨reason, rfl⟩)
      | ok sides =>
        obtain ⟨hbids, hasks, horderly⟩ := deltaLevels_ok hb ha hl
        exact .inr (.inr ⟨rfl, hs, ⟨n, hn, hgap⟩, hbids, hasks, horderly, rfl, rfl, rfl⟩)
    · exact .inr (.inl ⟨_, rfl⟩)

/-- **A delta that bridges from the update id of the book**, and meets the
checks of its place in the stream. -/
structure Bridging (b : OrderBook H) (d : DepthDelta) (n : ℕ) : Prop where
  usable : b.status ≠ .invalid
  lastUpdateId : b.lastUpdateId = some n
  receipt : ∀ t ∈ b.lastDeltaReceivedNs, t ≤ d.receivedTsNs
  first : d.firstUpdateId ≤ n + 1
  last : n < d.lastUpdateId
  previous : b.status = .valid → ∀ p ∈ d.previousFinalUpdateId, p = n

variable {n : ℕ}

/-- **A delta that meets every check is applied.** -/
theorem applyDelta_of_bridging (h : b.Bridging d n)
    (hbids : (d.bids.map fun l => l.price.val).Nodup)
    (hasks : (d.asks.map fun l => l.price.val).Nodup)
    (ho : Orderly b.maximumLevelsPerSide (applyChanges b.bids (items d.bids))
    (applyChanges b.asks (items d.asks))) :
    (b.applyDelta contentHash d).1.status = .valid ∧
      (b.applyDelta contentHash d).1.lastUpdateId = some d.lastUpdateId ∧
      (b.applyDelta contentHash d).1.lastDeltaReceivedNs = some d.receivedTsNs := by
  have hl : b.deltaLevels d
      = .ok (applyChanges b.bids (items d.bids), applyChanges b.asks (items d.asks)) := by
    refine bind_eq_ok.mpr ⟨_, levels_ok.mpr ⟨hbids, fun h => Bool.noConfusion h, rfl⟩,
      bind_eq_ok.mpr ⟨_, levels_ok.mpr ⟨hasks, fun h => Bool.noConfusion h, rfl⟩,
        bind_eq_ok.mpr ⟨(), checkLevels_ok.mpr ?_, rfl⟩⟩⟩
    exact ⟨ho.bidCapacity, ho.askCapacity, ho.bid, ho.ask, ho.spread⟩
  have hsome : ¬ ∃ t ∈ b.lastDeltaReceivedNs, d.receivedTsNs < t :=
    fun ⟨t, ht, hlt⟩ => absurd (h.receipt t ht) (not_le.mpr hlt)
  have hmatch : ¬ (b.status = .valid ∧ ∃ p ∈ d.previousFinalUpdateId, p ≠ n) :=
    fun ⟨hv, p, hp, hne⟩ => hne (h.previous hv p hp)
  have hlast := h.last
  have hbridge : ¬ ¬ (d.firstUpdateId ≤ n + 1 ∧ n + 1 ≤ d.lastUpdateId) :=
    not_not.mpr ⟨h.first, hlast⟩
  simp only [applyDelta, h.lastUpdateId, hl]
  rw [if_neg h.usable, if_neg (by omega), if_neg (by omega), if_neg (by omega), if_neg hsome,
    if_neg hbridge, if_neg hmatch]
  exact ⟨rfl, rfl, rfl⟩

omit [DecidableEq H] in
/-- **What a view does to the book**: nothing, or it invalidates it. -/
theorem view_cases (b : OrderBook H) (now age depth : ℤ) :
    (b.view now age depth).1 = b ∨ ∃ reason, (b.view now age depth).1 = b.invalidate reason := by
  unfold view
  split
  · exact .inl rfl
  · split
    · split_ifs
      · exact .inr ⟨_, rfl⟩
      · exact .inr ⟨_, rfl⟩
      · exact .inl rfl
      · exact .inl rfl
      · exact .inl rfl
    · exact .inl rfl

omit [DecidableEq H] in
/-- **Nothing is served of a book that is not valid.** -/
theorem view_of_not_valid (h : b.status ≠ .valid) (now age depth : ℤ) :
    ∃ e, (b.view now age depth).2 = .error e := by
  have hv : b.isValid = false := by
    simp [isValid, h]
  unfold view
  split
  · exact ⟨_, rfl⟩
  · simp only [hv]
    exact ⟨_, rfl⟩

/-! ## The invariant of a book -/

/-- **What holds of a book after any calls**: its sides are positive, and they
are fit for use unless it is invalid. -/
structure Sound (b : OrderBook H) : Prop where
  bids : Positive b.bids
  asks : Positive b.asks
  orderly : b.status ≠ .invalid → Orderly b.maximumLevelsPerSide b.bids b.asks

variable (capacity : ℕ+)

omit [DecidableEq H] in
theorem sound_new : (new capacity : OrderBook H).Sound where
  bids := fun p _ h => nomatch (Finmap.lookup_empty p).symm.trans h
  asks := fun p _ h => nomatch (Finmap.lookup_empty p).symm.trans h
  orderly := fun h => absurd rfl h

omit [DecidableEq H] in
theorem Sound.invalidate (h : b.Sound) (reason : String) : (b.invalidate reason).Sound :=
  ⟨h.bids, h.asks, fun hs => absurd rfl hs⟩

theorem Sound.step (h : b.Sound) (c : Call) : (step contentHash b c).Sound := by
  cases c with
  | snapshot s =>
    show (b.applySnapshot s).1.Sound
    unfold applySnapshot
    split
    next reason _ => exact h.invalidate reason
    next bids asks hl =>
      have ho := (snapshotLevels_ok hl).2.2
      exact ⟨ho.bidPositive, ho.askPositive, fun _ => ho⟩
  | delta d =>
    show (b.applyDelta contentHash d).1.Sound
    obtain ⟨he, -⟩ | ⟨reason, he⟩ | ⟨-, ha⟩ := applyDelta_cases contentHash b d h.bids h.asks
    · rw [he]
      exact h
    · rw [he]
      exact h.invalidate reason
    · have ho : Orderly (b.applyDelta contentHash d).1.maximumLevelsPerSide _ _ :=
        ha.capacity ▸ ha.orderly
      exact ⟨ho.bidPositive, ho.askPositive, fun _ => ho⟩
  | view now age depth =>
    show (b.view now age depth).1.Sound
    obtain he | ⟨reason, he⟩ := view_cases b now age depth
    · rw [he]
      exact h
    · rw [he]
      exact h.invalidate reason
  | invalidate reason => exact h.invalidate reason

theorem sound_after (h : b.Sound) (calls : List Call) : (after contentHash b calls).Sound :=
  inv_run Sound (fun _ c hb => hb.step contentHash c) h calls

theorem capacity_step (h : b.Sound) (c : Call) :
    (step contentHash b c).maximumLevelsPerSide = b.maximumLevelsPerSide := by
  cases c with
  | snapshot s =>
    show (b.applySnapshot s).1.maximumLevelsPerSide = _
    unfold applySnapshot
    split <;> rfl
  | delta d =>
    show (b.applyDelta contentHash d).1.maximumLevelsPerSide = _
    obtain ⟨he, -⟩ | ⟨reason, he⟩ | ⟨-, ha⟩ := applyDelta_cases contentHash b d h.bids h.asks
    · rw [he]
    · rw [he]
      rfl
    · exact ha.capacity
  | view now age depth =>
    show (b.view now age depth).1.maximumLevelsPerSide = _
    obtain he | ⟨reason, he⟩ := view_cases b now age depth
    · rw [he]
    · rw [he]
      rfl
  | invalidate reason => rfl

theorem capacity_after (calls : List Call) :
    (after contentHash (new capacity) calls).maximumLevelsPerSide = capacity :=
  (inv_run (fun b : OrderBook H => b.Sound ∧ b.maximumLevelsPerSide = capacity)
    (fun _ c h => ⟨h.1.step contentHash c, (capacity_step contentHash h.1 c).trans h.2⟩)
    ⟨sound_new capacity, rfl⟩ calls).2

variable {calls : List Call}

/-- **An invalid book stays invalid** until a snapshot. -/
theorem invalid_after (h : b.Sound) (hs : b.status = .invalid)
    (hc : ∀ c ∈ calls, c.isSnapshot = false) : (after contentHash b calls).status = .invalid := by
  induction calls generalizing b with
  | nil => exact hs
  | cons c calls ih =>
    refine ih (h.step contentHash c) ?_ (fun c' hc' => hc c' (mem_cons_of_mem _ hc'))
    cases c with
    | snapshot s => exact nomatch hc _ mem_cons_self
    | delta d =>
      show (b.applyDelta contentHash d).1.status = .invalid
      obtain ⟨he, -⟩ | ⟨reason, he⟩ | ⟨-, ha⟩ := applyDelta_cases contentHash b d h.bids h.asks
      · rw [he]
        exact hs
      · rw [he]
        rfl
      · exact absurd hs ha.usable
    | view now age depth =>
      show (b.view now age depth).1.status = .invalid
      obtain he | ⟨reason, he⟩ := view_cases b now age depth
      · rw [he]
        exact hs
      · rw [he]
        rfl
    | invalidate reason => rfl

/-! ## Replay -/

/-- The deltas cover every update id after `n`, each from where the last one
ended. -/
def Contiguous : ℕ → List DepthDelta → Prop
  | _, [] => True
  | n, d :: ds => d.firstUpdateId ≤ n + 1 ∧ n + 1 ≤ d.lastUpdateId ∧ Contiguous d.lastUpdateId ds

/-- The update id that deltas lead to from `n`. -/
def lastId (n : ℕ) (ds : List DepthDelta) : ℕ := ds.foldl (fun _ d => d.lastUpdateId) n

/-- **One side replayed**: what the snapshot states, with the changes of the
deltas made to it in turn. -/
def replay (start : List PriceLevel) (changes : List (List PriceLevel)) : Levels :=
  changes.foldl (fun side ls => applyChanges side (items ls)) (dict (items start))

variable {ds : List DepthDelta}

theorem contiguous_concat : Contiguous n (ds ++ [d]) ↔
      Contiguous n ds ∧ d.firstUpdateId ≤ lastId n ds + 1 ∧ lastId n ds + 1 ≤ d.lastUpdateId := by
  induction ds generalizing n with
  | nil =>
    show _ ∧ _ ∧ True ↔ True ∧ _
    simp [lastId]
  | cons d' ds ih =>
    show _ ∧ _ ∧ Contiguous _ (ds ++ [d]) ↔ (_ ∧ _ ∧ Contiguous _ ds) ∧ _
    rw [ih]
    exact ⟨fun ⟨hf, hl, hds, hd⟩ => ⟨⟨hf, hl, hds⟩, hd⟩, fun ⟨⟨hf, hl, hds⟩, hd⟩ => ⟨hf, hl, hds, hd⟩⟩

@[simp] theorem lastId_concat (n : ℕ) (ds : List DepthDelta) (d : DepthDelta) :
    lastId n (ds ++ [d]) = d.lastUpdateId := by
  simp [lastId]

@[simp] theorem replay_concat (start : List PriceLevel) (changes : List (List PriceLevel))
    (ls : List PriceLevel) :
    replay start (changes ++ [ls]) = applyChanges (replay start changes) (items ls) := by
  simp [replay]

/-- **No update id is missed** by contiguous deltas. -/
theorem Contiguous.covers (h : Contiguous n ds) {i : ℕ} (hi : n < i) (hle : i ≤ lastId n ds) :
    ∃ d ∈ ds, d.firstUpdateId ≤ i ∧ i ≤ d.lastUpdateId := by
  induction ds generalizing n with
  | nil => exact absurd hle (not_le.mpr hi)
  | cons d ds ih =>
    obtain ⟨hfirst, hlast, hrest⟩ := h
    by_cases hd : i ≤ d.lastUpdateId
    · exact ⟨d, mem_cons_self, by omega, hd⟩
    · obtain ⟨d', hd', hcov⟩ := ih hrest (not_le.mp hd) hle
      exact ⟨d', mem_cons_of_mem _ hd', hcov⟩

/-- **The book is the replay** of the last snapshot among the calls and of some
of the deltas after it, in their order, which leave no update id out. -/
structure Rebuilt (calls : List Call) (b : OrderBook H) (before later : List Call)
    (s : DepthSnapshot) (ds : List DepthDelta) : Prop where
  split : calls = before ++ .snapshot s :: later
  latest : ∀ c ∈ later, c.isSnapshot = false
  received : (ds.map Call.delta).Sublist later
  contiguous : Contiguous s.lastUpdateId ds
  bids : b.bids = replay s.bids (ds.map (·.bids))
  asks : b.asks = replay s.asks (ds.map (·.asks))
  lastUpdateId : b.lastUpdateId = some (lastId s.lastUpdateId ds)
  bridged : b.status = .valid → ds ≠ []

variable {before : List Call} {c : Call} {later : List Call}

omit [DecidableEq H] in
/-- A call that leaves the book alone leaves the replay alone. -/
theorem Rebuilt.idle (h : Rebuilt calls b before later s ds) (hc : c.isSnapshot = false) :
    Rebuilt (calls ++ [c]) b before (later ++ [c]) s ds where
  split := by rw [h.split, append_assoc, cons_append]
  latest := fun c' hc' => (mem_append.mp hc').elim (h.latest c')
    fun hmem => (mem_singleton.mp hmem) ▸ hc
  received := h.received.trans (sublist_append_left _ _)
  contiguous := h.contiguous
  bids := h.bids
  asks := h.asks
  lastUpdateId := h.lastUpdateId
  bridged := h.bridged

omit [DecidableEq H] in
theorem Rebuilt.applied {b' : OrderBook H} (h : Rebuilt calls b before later s ds)
    (hd : b.Applied d b') :
    Rebuilt (calls ++ [.delta d]) b' before (later ++ [.delta d]) s (ds ++ [d]) where
  split := by rw [h.split, append_assoc, cons_append]
  latest := fun c' hc' => (mem_append.mp hc').elim (h.latest c')
    fun hmem => (mem_singleton.mp hmem) ▸ rfl
  received := by
    rw [map_append]
    exact h.received.append (List.Sublist.refl _)
  contiguous := by
    obtain ⟨n, hn, hbridge⟩ := hd.bridges
    have hlast : n = lastId s.lastUpdateId ds := Option.some.inj (hn.symm.trans h.lastUpdateId)
    exact contiguous_concat.mpr ⟨h.contiguous, hlast ▸ hbridge⟩
  bids := by rw [hd.bids, h.bids, map_append, map_singleton, replay_concat]
  asks := by rw [hd.asks, h.asks, map_append, map_singleton, replay_concat]
  lastUpdateId := by rw [hd.lastUpdateId, lastId_concat]
  bridged := fun _ => by simp

/-- **Every book that is not invalid is a replay.** -/
theorem rebuilt_after (calls : List Call) :
    (after contentHash (new capacity) calls).status ≠ .invalid → ∃ before later s ds,
        Rebuilt calls (after contentHash (new capacity) calls) before later s ds := by
  induction calls using List.reverseRecOn with
  | nil => exact fun h => absurd rfl h
  | append_singleton calls c ih =>
    have hsound := sound_after contentHash (sound_new (H := H) capacity) calls
    rw [show after contentHash (new capacity) (calls ++ [c])
        = step contentHash (after contentHash (new capacity) calls) c from
      run_concat _ _ _ _]
    revert ih hsound
    generalize after contentHash (new capacity) calls = b
    intro ih hsound hs
    cases c with
    | snapshot s =>
      revert hs
      show (b.applySnapshot s).1.status ≠ _ → ∃ before later s' ds,
        Rebuilt _ (b.applySnapshot s).1 before later s' ds
      unfold applySnapshot
      split
      next reason _ => exact fun hs => absurd rfl hs
      next bids asks hl =>
        intro _
        obtain ⟨hb, ha, -⟩ := snapshotLevels_ok hl
        exact ⟨calls, [], s, [], rfl, (fun c hc => nomatch hc), nil_sublist _, trivial, hb, ha,
          rfl, fun h => nomatch h⟩
    | delta d =>
      revert hs
      show (b.applyDelta contentHash d).1.status ≠ _ → ∃ before later s ds,
        Rebuilt _ (b.applyDelta contentHash d).1 before later s ds
      obtain ⟨he, -⟩ | ⟨reason, he⟩ | ⟨-, hd⟩ :=
        applyDelta_cases contentHash b d hsound.bids hsound.asks
      · rw [he]
        intro hs
        obtain ⟨before, later, s, ds, h⟩ := ih hs
        exact ⟨before, _, s, ds, h.idle rfl⟩
      · rw [he]
        exact fun hs => absurd rfl hs
      · intro _
        obtain ⟨before, later, s, ds, h⟩ := ih hd.usable
        exact ⟨before, _, s, _, h.applied hd⟩
    | view now age depth =>
      revert hs
      show (b.view now age depth).1.status ≠ _ → ∃ before later s ds,
        Rebuilt _ (b.view now age depth).1 before later s ds
      obtain he | ⟨reason, he⟩ := view_cases b now age depth
      · rw [he]
        intro hs
        obtain ⟨before, later, s, ds, h⟩ := ih hs
        exact ⟨before, _, s, ds, h.idle rfl⟩
      · rw [he]
        exact fun hs => absurd rfl hs
    | invalidate reason => exact absurd rfl hs

/-! ## Books of one feed

The venue's own book changes with every update id. A true snapshot states it
as it is at the id it names, and a true delta summarises a range of ids. -/

/-- **The venue's book over its update ids.** -/
structure Feed where
  bids : Deltas.History ℚ ℚ
  asks : Deltas.History ℚ ℚ

variable (f : Feed)

/-- The snapshot is the venue's book at its update id. -/
def Feed.Snapshot (s : DepthSnapshot) : Prop :=
  dict (items s.bids) = f.bids.at s.lastUpdateId ∧ dict (items s.asks) = f.asks.at s.lastUpdateId

/-- The delta summarises its range of update ids. -/
def Feed.Delta (d : DepthDelta) : Prop :=
  f.bids.Summary d.firstUpdateId d.lastUpdateId ((items d.bids).map change) ∧
    f.asks.Summary d.firstUpdateId d.lastUpdateId ((items d.asks).map change)

def Feed.Brings : Call → Prop
  | .snapshot s => f.Snapshot s
  | .delta d => f.Delta d
  | .view _ _ _ | .invalidate _ => True

/-- **The book is the venue's**, at the update id it has come to. -/
def Feed.Agrees (b : OrderBook H) : Prop :=
  ∀ n, b.lastUpdateId = some n → b.bids = f.bids.at n ∧ b.asks = f.asks.at n

variable {f}

theorem Feed.Agrees.step (h : f.Agrees b) (hsound : b.Sound) (hc : f.Brings c) :
    f.Agrees (step contentHash b c) := by
  cases c with
  | snapshot s =>
    show f.Agrees (b.applySnapshot s).1
    unfold applySnapshot
    split
    next reason _ => exact h
    next bids asks hl =>
      obtain ⟨hbids, hasks, -⟩ := snapshotLevels_ok hl
      intro n hn
      obtain rfl : s.lastUpdateId = n := Option.some.inj hn
      exact ⟨hbids.trans hc.1, hasks.trans hc.2⟩
  | delta d =>
    show f.Agrees (b.applyDelta contentHash d).1
    obtain ⟨he, -⟩ | ⟨reason, he⟩ | ⟨-, hd⟩ :=
      applyDelta_cases contentHash b d hsound.bids hsound.asks
    · rw [he]
      exact h
    · rw [he]
      exact h
    · intro n hn
      obtain ⟨n₀, hn₀, hfirst, hlast⟩ := hd.bridges
      obtain ⟨hbids, hasks⟩ := h n₀ hn₀
      obtain rfl : d.lastUpdateId = n := Option.some.inj (hd.lastUpdateId.symm.trans hn)
      constructor
      · rw [hd.bids, hbids]
        exact hc.1.catch_up hfirst (by omega)
      · rw [hd.asks, hasks]
        exact hc.2.catch_up hfirst (by omega)
  | view now age depth =>
    show f.Agrees (b.view now age depth).1
    obtain he | ⟨reason, he⟩ := view_cases b now age depth
    · rw [he]
      exact h
    · rw [he]
      exact h
  | invalidate reason => exact h

/-- **A book that is fed true messages is the venue's** at every update id it
comes to. -/
theorem Feed.agrees_after (h : f.Agrees b) (hsound : b.Sound) (hc : ∀ c ∈ calls, f.Brings c) :
    f.Agrees (after contentHash b calls) := by
  induction calls generalizing b with
  | nil => exact h
  | cons c calls ih =>
    exact ih (h.step contentHash hsound (hc c mem_cons_self)) (hsound.step contentHash c)
      (fun c' hc' => hc c' (mem_cons_of_mem _ hc'))

omit [DecidableEq H] in
theorem Feed.agrees_new (f : Feed) (capacity : ℕ+) : f.Agrees (new capacity : OrderBook H) :=
  fun _ h => nomatch h

/-- **One contiguous stream of a feed**: each delta starts where the last one
ended and is not received before it, and the venue's book is fit for use after
each. -/
structure Feed.Stream (f : Feed) (capacity : ℕ+) (ds : List DepthDelta) : Prop where
  chain : ds.IsChain fun d d' =>
    d'.firstUpdateId = d.lastUpdateId + 1 ∧ d.receivedTsNs ≤ d'.receivedTsNs ∧
      ∀ p ∈ d'.previousFinalUpdateId, p = d.lastUpdateId
  brings : ∀ d ∈ ds, f.Delta d
  bids : ∀ d ∈ ds, (d.bids.map fun l => l.price.val).Nodup
  asks : ∀ d ∈ ds, (d.asks.map fun l => l.price.val).Nodup
  orderly : ∀ d ∈ ds, Orderly capacity (f.bids.at d.lastUpdateId) (f.asks.at d.lastUpdateId)

variable {capacity}

theorem Feed.Stream.prefix {ds' : List DepthDelta} (h : f.Stream capacity (ds ++ ds')) :
    f.Stream capacity ds where
  chain := h.chain.left_of_append
  brings := fun d hd => h.brings d (mem_append_left _ hd)
  bids := fun d hd => h.bids d (mem_append_left _ hd)
  asks := fun d hd => h.asks d (mem_append_left _ hd)
  orderly := fun d hd => h.orderly d (mem_append_left _ hd)

/-- Where a book stands in a stream that it follows from a snapshot at `n`. -/
structure Following (b : OrderBook H) (n : ℕ) (ds : List DepthDelta) : Prop where
  waiting : (∀ d ∈ ds.getLast?, d.lastUpdateId ≤ n) →
    b.status = .syncing ∧ b.lastUpdateId = some n ∧ b.lastDeltaReceivedNs = none
  current : ∀ d ∈ ds.getLast?, n < d.lastUpdateId →
    b.status = .valid ∧ b.lastUpdateId = some d.lastUpdateId ∧
      b.lastDeltaReceivedNs = some d.receivedTsNs

/-- The next delta of the stream continues from the last one; the first one
reaches back to the snapshot. -/
structure Continues (n : ℕ) (ds : List DepthDelta) (d : DepthDelta) : Prop where
  first : ds = [] → d.firstUpdateId ≤ n + 1
  next : ∀ d' ∈ ds.getLast?, d.firstUpdateId = d'.lastUpdateId + 1 ∧
    d'.receivedTsNs ≤ d.receivedTsNs ∧ ∀ p ∈ d.previousFinalUpdateId, p = d'.lastUpdateId

omit [DecidableEq H] in
/-- **A delta past the snapshot bridges** from the book that follows the
stream. -/
theorem Following.bridging (h : b.Following n ds) (hd : Continues n ds d)
    (hn : n < d.lastUpdateId) :
    ∃ m, b.Bridging d m := by
  have hwait : (∀ d' ∈ ds.getLast?, d'.lastUpdateId ≤ n) → d.firstUpdateId ≤ n + 1 →
      b.Bridging d n := by
    intro hle hfirst
    obtain ⟨hs, hl, ht⟩ := h.waiting hle
    refine ⟨by simp [hs], hl, ?_, hfirst, hn, by simp [hs]⟩
    simp [ht]
  cases hlast : ds.getLast? with
  | none =>
    rw [hlast] at hwait
    exact ⟨n, hwait (by simp) (hd.first (getLast?_eq_none_iff.mp hlast))⟩
  | some d' =>
    rw [hlast] at hwait
    obtain ⟨hfirst, hreceipt, hprev⟩ := hd.next d' hlast
    by_cases hd' : n < d'.lastUpdateId
    · obtain ⟨hs, hl, ht⟩ := h.current d' hlast hd'
      have hrange := d.orderedRange
      refine ⟨d'.lastUpdateId, by simp [hs], hl, ?_, hfirst.le, by omega, fun _ => hprev⟩
      simp [ht, hreceipt]
    · exact ⟨n, hwait (fun d'' hd'' => Option.some.inj hd'' ▸ not_lt.mp hd') (by omega)⟩

theorem Following.step (h : b.Following n ds) (hagrees : f.Agrees b) (hd : Continues n ds d)
    (hbrings : f.Delta d) (hbids : (d.bids.map fun l => l.price.val).Nodup)
    (hasks : (d.asks.map fun l => l.price.val).Nodup)
    (ho : Orderly b.maximumLevelsPerSide (f.bids.at d.lastUpdateId) (f.asks.at d.lastUpdateId)) :
    (b.applyDelta contentHash d).1.Following n (ds ++ [d]) := by
  have hlast : (ds ++ [d]).getLast? = some d := getLast?_concat
  constructor
  · intro hwait
    have hdn : d.lastUpdateId ≤ n := hwait d hlast
    obtain ⟨hs, hl, ht⟩ := h.waiting fun d' hd' => by
      have := (hd.next d' hd').1
      have := d.orderedRange
      omega
    have hold : b.applyDelta contentHash d = (b, false) := by
      simp only [applyDelta, hl, hs, hdn]
      simp
    rw [hold]
    exact ⟨hs, hl, ht⟩
  · intro d' hd' hn
    obtain rfl : d = d' := Option.some.inj (hlast.symm.trans hd')
    obtain ⟨m, hm⟩ := h.bridging hd hn
    refine applyDelta_of_bridging contentHash hm hbids hasks ?_
    obtain ⟨hb, ha⟩ := hagrees m hm.lastUpdateId
    rw [hb, ha]
    have hbid : applyChanges (f.bids.at m) (items d.bids) = f.bids.at d.lastUpdateId :=
      hbrings.1.catch_up hm.first hm.last.le
    have hask : applyChanges (f.asks.at m) (items d.asks) = f.asks.at d.lastUpdateId :=
      hbrings.2.catch_up hm.first hm.last.le
    rw [hbid, hask]
    exact ho

/-- **A book that took a true snapshot follows the stream**: it is valid, and
at the id of the stream's last delta, from the first delta that goes past the
snapshot. -/
theorem Feed.Stream.following (hs : f.Snapshot s)
    (haccept : ((new capacity : OrderBook H).applySnapshot s).2 = true) (h : f.Stream capacity ds)
    (hfirst : ∀ d ∈ ds.head?, d.firstUpdateId ≤ s.lastUpdateId + 1) :
    (after contentHash (new capacity) (.snapshot s :: ds.map Call.delta)).Following
      s.lastUpdateId ds := by
  induction ds using List.reverseRecOn with
  | nil =>
    show ((new capacity : OrderBook H).applySnapshot s).1.Following _ _
    revert haccept
    unfold applySnapshot
    split
    next => exact fun h => nomatch h
    next => exact fun _ => ⟨fun _ => ⟨rfl, rfl, rfl⟩, fun d hd => nomatch hd⟩
  | append_singleton ds d ih =>
    have hcalls : ∀ c ∈ Call.snapshot s :: ds.map Call.delta, f.Brings c := by
      intro c hc
      rcases mem_cons.mp hc with rfl | hc
      · exact hs
      · obtain ⟨d', hd', rfl⟩ := mem_map.mp hc
        exact h.prefix.brings d' hd'
    have hsound : ∀ calls, (after contentHash (new capacity) calls).Sound :=
      sound_after contentHash (sound_new capacity)
    have hcapacity : ∀ calls, (after contentHash (new capacity) calls).maximumLevelsPerSide
        = capacity := capacity_after contentHash capacity
    have hcontinues : Continues s.lastUpdateId ds d := by
      constructor
      · rintro rfl
        exact hfirst d rfl
      · intro d' hd'
        exact (isChain_append.mp h.chain).2.2 d' hd' d rfl
    rw [show after contentHash (new capacity) (.snapshot s :: (ds ++ [d]).map Call.delta)
        = step contentHash (after contentHash (new capacity) (.snapshot s :: ds.map Call.delta))
          (.delta d) from by
      rw [map_append, ← cons_append]
      exact run_concat _ _ _ _]
    have hhead : ∀ d' ∈ ds.head?, d' ∈ (ds ++ [d]).head? := by
      intro d' hd'
      rw [head?_append]
      exact Option.or_eq_some_iff.mpr (.inl hd')
    have hprefix := ih h.prefix fun d' hd' => hfirst d' (hhead d' hd')
    exact hprefix.step contentHash
      (Feed.agrees_after contentHash (f.agrees_new capacity) (sound_new capacity) hcalls)
      hcontinues (h.brings d (by simp)) (h.bids d (by simp)) (h.asks d (by simp))
      ((hcapacity _).symm ▸ h.orderly d (by simp))

/-! ## The reconstruction -/

/-- A delta that is not applied leaves the levels as they are. -/
theorem applyDelta_false (h : b.Sound) (hd : (b.applyDelta contentHash d).2 = false) :
    (b.applyDelta contentHash d).1.bids = b.bids ∧ (b.applyDelta contentHash d).1.asks = b.asks ∧
      (b.applyDelta contentHash d).1.lastUpdateId = b.lastUpdateId := by
  obtain ⟨he, -⟩ | ⟨reason, he⟩ | ⟨ht, -⟩ := applyDelta_cases contentHash b d h.bids h.asks
  · rw [he]
    exact ⟨rfl, rfl, rfl⟩
  · rw [he]
    exact ⟨rfl, rfl, rfl⟩
  · exact nomatch ht.symm.trans hd

/-- A delta that is not applied and does not invalidate the book is harmless. -/
theorem applyDelta_harmless (h : b.Sound) (hlast : b.status ≠ .invalid → b.lastUpdateId ≠ none)
    (hd : (b.applyDelta contentHash d).2 = false)
    (hs : (b.applyDelta contentHash d).1.status ≠ .invalid) :
    (b.applyDelta contentHash d).1 = b ∧ b.Harmless contentHash d := by
  obtain ⟨he, hcase⟩ | ⟨reason, he⟩ | ⟨ht, -⟩ := applyDelta_cases contentHash b d h.bids h.asks
  · rw [he] at hs ⊢
    refine ⟨rfl, hcase.resolve_left hs |>.resolve_left (hlast hs)⟩
  · exact absurd (congrArg (fun r => r.1.status) he) hs
  · exact nomatch ht.symm.trans hd

/-- **The book is reconstructed or not served.** After any calls, a valid book
is the replay of the last snapshot and of deltas that leave no update id out,
and it is fit for use. A delta that is not applied leaves the levels as they
are; unless it is harmless the book is then invalid, and nothing is served of
it before the next snapshot. Books that are fed true messages of one feed agree
whenever they are valid at the same update id, and two that follow one stream
from true snapshots are both valid, at the same id, as soon as the stream has
passed both. -/
theorem reconstructed (capacity : ℕ+) :
    (∀ calls, (after contentHash (new capacity) calls).status = .valid → (∃ before later s ds,
        Rebuilt calls (after contentHash (new capacity) calls) before later s ds ∧
          ∀ i, s.lastUpdateId < i → i ≤ lastId s.lastUpdateId ds →
            ∃ d ∈ ds, d.firstUpdateId ≤ i ∧ i ≤ d.lastUpdateId) ∧
        Orderly capacity (after contentHash (new capacity) calls).bids
          (after contentHash (new capacity) calls).asks) ∧
    (∀ calls d b b', after contentHash (new capacity) calls = b →
      b.applyDelta contentHash d = (b', false) →
      b'.bids = b.bids ∧ b'.asks = b.asks ∧ b'.lastUpdateId = b.lastUpdateId ∧
        (b'.status ≠ .invalid → b' = b ∧ b.Harmless contentHash d) ∧
        (b'.status = .invalid → ∀ later, (∀ c ∈ later, c.isSnapshot = false) →
          ∀ now age depth, ∃ e, ((after contentHash b' later).view now age depth).2 = .error e)) ∧
    (∀ (f : Feed) capacity' calls calls' b b', (∀ c ∈ calls, f.Brings c) →
      (∀ c ∈ calls', f.Brings c) → after contentHash (new capacity) calls = b →
      after contentHash (new capacity') calls' = b' → b.status = .valid → b'.status = .valid →
      b.lastUpdateId = b'.lastUpdateId → b.bids = b'.bids ∧ b.asks = b'.asks) ∧
    (∀ (f : Feed) s s' ds d b b', f.Snapshot s → f.Snapshot s' →
      ((new capacity : OrderBook H).applySnapshot s).2 = true →
      ((new capacity : OrderBook H).applySnapshot s').2 = true → f.Stream capacity (ds ++ [d]) →
      (∀ d₀ ∈ (ds ++ [d]).head?, d₀.firstUpdateId ≤ s.lastUpdateId + 1 ∧
        d₀.firstUpdateId ≤ s'.lastUpdateId + 1) →
      s.lastUpdateId < d.lastUpdateId → s'.lastUpdateId < d.lastUpdateId →
      after contentHash (new capacity) (.snapshot s :: (ds ++ [d]).map Call.delta) = b →
      after contentHash (new capacity) (.snapshot s' :: (ds ++ [d]).map Call.delta) = b' →
      b.status = .valid ∧ b'.status = .valid ∧ b.lastUpdateId = some d.lastUpdateId ∧
        b'.lastUpdateId = some d.lastUpdateId ∧ b.bids = b'.bids ∧ b.asks = b'.asks) := by
  have hsound : ∀ capacity calls, (after contentHash (new capacity) calls).Sound :=
    fun capacity => sound_after contentHash (sound_new capacity)
  have hagrees : ∀ (f : Feed) capacity calls, (∀ c ∈ calls, f.Brings c) →
      f.Agrees (after contentHash (new capacity) calls) :=
    fun f capacity _ => Feed.agrees_after contentHash (f.agrees_new capacity) (sound_new capacity)
  refine ⟨?_, ?_, ?_, ?_⟩
  · intro calls hv
    have hs : (after contentHash (new capacity) calls).status ≠ .invalid := by simp [hv]
    obtain ⟨before, later, s, ds, h⟩ := rebuilt_after contentHash capacity calls hs
    refine ⟨⟨before, later, s, ds, h, fun i => h.contiguous.covers⟩, ?_⟩
    have ho := (hsound capacity calls).orderly hs
    rw [capacity_after] at ho
    exact ho
  · rintro calls d _ b' rfl hd
    have hfalse := congrArg Prod.snd hd
    obtain rfl := congrArg Prod.fst hd
    have hb := hsound capacity calls
    have hlast : (after contentHash (new capacity) calls).status ≠ .invalid →
        (after contentHash (new capacity) calls).lastUpdateId ≠ none := by
      intro hs
      obtain ⟨before, later, s, ds, h⟩ := rebuilt_after contentHash capacity calls hs
      simp [h.lastUpdateId]
    obtain ⟨hbids, hasks, hid⟩ := applyDelta_false contentHash hb hfalse
    refine ⟨hbids, hasks, hid, applyDelta_harmless contentHash hb hlast hfalse, ?_⟩
    intro hinvalid later hlater now age depth
    have hstill := invalid_after contentHash (hb.step contentHash (.delta d)) hinvalid hlater
    exact view_of_not_valid (fun hv => nomatch hstill.symm.trans hv) now age depth
  · rintro f capacity' calls calls' _ _ hc hc' rfl rfl hv hv' hid
    have hs : (after contentHash (new capacity) calls).status ≠ .invalid := by simp [hv]
    obtain ⟨before, later, s, ds, h⟩ := rebuilt_after contentHash capacity calls hs
    obtain ⟨hb, ha⟩ := hagrees f capacity calls hc _ h.lastUpdateId
    obtain ⟨hb', ha'⟩ := hagrees f capacity' calls' hc' _ (hid.symm.trans h.lastUpdateId)
    exact ⟨hb.trans hb'.symm, ha.trans ha'.symm⟩
  · rintro f s s' ds d _ _ hs hs' haccept haccept' hstream hhead hlt hlt' rfl rfl
    have hlast : (ds ++ [d]).getLast? = some d := getLast?_concat
    have hbrings : ∀ s₀, f.Snapshot s₀ →
        ∀ c ∈ Call.snapshot s₀ :: (ds ++ [d]).map Call.delta, f.Brings c := by
      intro s₀ hs₀ c hc
      rcases mem_cons.mp hc with rfl | hc
      · exact hs₀
      · obtain ⟨d', hd', rfl⟩ := mem_map.mp hc
        exact hstream.brings d' hd'
    have hfollow := hstream.following contentHash hs haccept (fun d₀ hd₀ => (hhead d₀ hd₀).1)
    have hfollow' := hstream.following contentHash hs' haccept' (fun d₀ hd₀ => (hhead d₀ hd₀).2)
    obtain ⟨hv, hid, -⟩ := hfollow.current d hlast hlt
    obtain ⟨hv', hid', -⟩ := hfollow'.current d hlast hlt'
    obtain ⟨hb, ha⟩ := hagrees f capacity _ (hbrings s hs) _ hid
    obtain ⟨hb', ha'⟩ := hagrees f capacity _ (hbrings s' hs') _ hid'
    exact ⟨hv, hv', hid, hid', hb.trans hb'.symm, ha.trans ha'.symm⟩

/-- A price level as the tests write it. -/
def level (price quantity : ℚ) (hp : Fits price := by decide +kernel)
    (hp' : 0 < price := by decide +kernel) (hq : Fits quantity := by decide +kernel)
    (hq' : 0 ≤ quantity := by decide +kernel) : PriceLevel :=
  ⟨⟨price, hp, hp'⟩, ⟨quantity, hq, hq'⟩⟩

/-- The delta that reaches back before the snapshot bridges, and a gap ends the
reconstruction. -/
example :
    let snapshot : DepthSnapshot := ⟨5, [level 99 1, level 98 4], [level 101 2], 10, 10⟩
    let bridge : DepthDelta := ⟨4, 7, none, [level 98 0, level 97 3], [level 102 1], 11, 11, by decide⟩
    let gap : DepthDelta := ⟨9, 9, none, [], [], 12, 12, by decide⟩
    let b := after id (new 2) [.snapshot snapshot, .delta bridge]
    (b.status = .valid ∧ b.bids.keys = {99, 97} ∧ b.asks.keys = {101, 102}) ∧
      (b.applyDelta id gap).1.invalidReason = some "sequence_gap" := by
  decide +kernel

end OrderBook

end Qt
