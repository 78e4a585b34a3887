import QuantTrading.FreqtradeRouter

/-!
# Trades and fills

The trade of the router should be what the venue has filled: its quantity is what entries
have bought and exits and stops have sold, it is closed when nothing is left, and its
active stop only rises. `trade_in_step` says which steps keep it so. The ones that do not
are the fill of a stop, which `on_fill` raises for, and an acceptance of a stop that
comes after the trade was closed or its active stop was moved.

The last part holds of every run: whatever `on_fill` and `on_stop_accepted` return has an
active stop that is no lower than before (`step_firm`).
-/

namespace Qt.Nautilus.Freqtrade

open Venue Except List Function Machine Option

/-! ## What is asked -/

/-- What a trade of the venue adds to the position. -/
def signed (execution : Side × ℚ) : ℚ :=
  match execution.1 with
  | .buy => execution.2
  | .sell => -execution.2

/-- **What the venue has filled**: entries less exits and stops. Trades that are closed
add up to zero, so that this is the position of the current one. -/
def net (executed : List (Side × ℚ)) : ℚ := (executed.map signed).sum

/-- **The trade is in step with the venue**, and no handler has raised. -/
structure Host.InStep (h : Host) : Prop where
  raised : h.raised = []
  remaining : remainingOf h.router.trade = net h.executed
  closed : ∀ t, h.router.trade = some t → (t.IsClosed ↔ net h.executed = 0)

/-- The active stop of a trade is no lower than it was. -/
def Firm (h h' : Host) : Prop :=
  ∀ t, h.router.trade = some t → ∃ t', h'.router.trade = some t' ∧ t.activeStop ≤ t'.activeStop

variable (cfg : Setup)

/-- What the action of an order needs for a fill: an entry leaves room for its stop and is
not before the trade; an exit leaves nothing, or more than the tolerance, and what closes
the trade can be an equity point; a stop has no fills. -/
def ActionApplies (r : Router) (order : FreqtradeOrder) (event : FillEvent) (equityAfter : ℚ) :
    Prop :=
  match order.action with
  | .enterLong =>
    (∃ d, order.stopDistance = some d ∧ 0 < d ∧
      d * (remainingOf r.trade + event.lastQty) < stakeOf r.trade + event.lastPx * event.lastQty) ∧
    ∀ t ∈ r.trade, t.openedAt ≤ cfg.fromTimestamp event.tsEvent
  | .exitLong => ∃ t, r.trade = some t ∧ (tolerance < t.remainingQuantity - event.lastQty ∨
      t.remainingQuantity = event.lastQty ∧ 0 < equityAfter ∧
        ∀ p ∈ r.protectionState.equityPoints.getLast?, p.closedAt ≤ cfg.fromTimestamp event.tsEvent)
  | .replaceStop => False

/-- What a fill needs. -/
def FillApplies (r : Router) (order : FreqtradeOrder) (event : FillEvent) (equityAfter : ℚ) :
    Prop :=
  event.commission.Usable cfg.toSetup event.lastPx ∧ 0 < event.lastPx ∧ 0 < event.lastQty ∧
    order.orderId ≠ "" ∧
    priorFill order.orderId r.trade + event.lastQty ≤ order.quantity + tolerance ∧
    ActionApplies cfg r order event equityAfter

/-- **The condition on a step**: a trade of an order can be applied, and a stop is accepted
only for a trade that is open and whose active stop is no higher. -/
def Applies (h : Host) : Event → Prop
  | .filled id event _ equityAfter => ∀ o, h.book.order? id = some o → o.status.IsOpen →
    event.tradeId ∉ o.trades → ∀ s, h.router.submitted id = some s →
      FillApplies cfg h.router s.sourceOrder event equityAfter
  | .accepted id => ∀ o, h.book.order? id = some o → o.status = .submitted →
    h.router.activeStopId = some id → ∀ s, h.router.submitted id = some s →
    ∀ t, h.router.trade = some t →
      ¬ t.IsClosed ∧ ∀ price, s.sourceOrder.price = some price → t.activeStop ≤ price
  | _ => True

instance (cfg : Setup) (r : Router) (order : FreqtradeOrder) (event : FillEvent) (equityAfter : ℚ) :
    Decidable (ActionApplies cfg r order event equityAfter) :=
  match ha : order.action with
  | .enterLong => decidable_of_iff ((∃ d ∈ order.stopDistance, 0 < d ∧
      d * (remainingOf r.trade + event.lastQty) < stakeOf r.trade + event.lastPx * event.lastQty) ∧
      ∀ t ∈ r.trade, t.openedAt ≤ cfg.fromTimestamp event.tsEvent) (by simp [ActionApplies, ha])
  | .exitLong => decidable_of_iff (∃ t ∈ r.trade, tolerance < t.remainingQuantity - event.lastQty ∨
        t.remainingQuantity = event.lastQty ∧ 0 < equityAfter ∧
          ∀ p ∈ r.protectionState.equityPoints.getLast?,
            p.closedAt ≤ cfg.fromTimestamp event.tsEvent) (by simp [ActionApplies, ha])
  | .replaceStop => isFalse (by simp [ActionApplies, ha])

instance (cfg : Setup) (r : Router) (order : FreqtradeOrder) (event : FillEvent) (equityAfter : ℚ) :
    Decidable (FillApplies cfg r order event equityAfter) :=
  inferInstanceAs (Decidable (_ ∧ _ ∧ _ ∧ _ ∧ _ ∧ _))

instance (cfg : Setup) (h : Host) (event : Event) : Decidable (Applies cfg h event) :=
  match event with
  | .filled id event _ equityAfter => inferInstanceAs (Decidable (∀ o ∈ h.book.order? id,
      o.status.IsOpen → event.tradeId ∉ o.trades → ∀ s ∈ h.router.submitted id,
        FillApplies cfg h.router s.sourceOrder event equityAfter))
  | .accepted id => inferInstanceAs (Decidable (∀ o ∈ h.book.order? id, o.status = .submitted →
      h.router.activeStopId = some id → ∀ s ∈ h.router.submitted id, ∀ t ∈ h.router.trade,
        ¬ t.IsClosed ∧ ∀ price ∈ s.sourceOrder.price, t.activeStop ≤ price))
  | .decide .. | .resume | .redelivered .. | .canceled _ | .rejected _ => isTrue trivial

/-! ## The port -/

variable {price : ℚ}

theorem nativeFee_nonneg {cfg : Nautilus.Setup} {fee : ℚ} {commission : Commission}
    (h : nativeFee cfg price commission = .ok fee) : 0 ≤ fee := by
  cases commission with
  | absent => exact (ok.inj h).le
  | unreadable => exact nomatch h
  | money amount currency =>
    simp only [nativeFee] at h
    split_ifs at h with hsign
    · rw [← ok.inj h]
      exact not_lt.mp (not_or.mp hsign).1
    · rw [← ok.inj h]
      exact mul_nonneg (not_lt.mp (not_or.mp hsign).1) (le_of_not_ge (not_or.mp hsign).2)

/-- The trade of the router, if there is one, was built. -/
def Built (trade : Option TradeState) : Prop := ∀ t, trade = some t → t.WellFormed

variable {trade : Option TradeState}

theorem remainingOf_nonneg (h : Built trade) : 0 ≤ remainingOf trade := by
  cases trade with
  | none => exact le_refl 0
  | some t => exact (h t rfl).remainingQuantity

theorem stakeOf_nonneg (h : Built trade) : 0 ≤ stakeOf trade := by
  cases trade with
  | none => exact le_refl 0
  | some t => exact (h t rfl).stakeAmount

variable {cfg} {fees : ℚ} {order : FreqtradeOrder} {qty : ℚ} {filledAt : ℕ}

/-- **An entry fill** is added to the trade. -/
theorem applyEntryFill_spec {d : ℚ} (hbuilt : Built trade) (hprice : 0 < price) (hqty : 0 < qty)
    (hfees : 0 ≤ fees) (hdist : order.stopDistance = some d) (hd : 0 < d)
    (hroom : d * (remainingOf trade + qty) < stakeOf trade + price * qty)
    (hopened : ∀ t ∈ trade, t.openedAt ≤ filledAt) :
    ∃ t, applyEntryFill cfg order price qty filledAt fees trade = .ok t ∧
      t.remainingQuantity = remainingOf trade + qty := by
  have hquantity : 0 < remainingOf trade + qty :=
    add_pos_of_nonneg_of_pos (remainingOf_nonneg hbuilt) hqty
  have hnotional : 0 < stakeOf trade + price * qty :=
    add_pos_of_nonneg_of_pos (stakeOf_nonneg hbuilt) (mul_pos hprice hqty)
  have hentry : d < (stakeOf trade + price * qty) / (remainingOf trade + qty) :=
    (lt_div_iff₀ hquantity).mpr hroom
  have hearlier : ¬ ∃ t ∈ trade, filledAt < t.openedAt := by
    rintro ⟨t, ht, hlt⟩
    exact absurd (hopened t ht) (not_le.mpr hlt)
  have htotal : 0 ≤ fees + (trade.map TradeState.totalFees).getD 0 := by
    cases trade with
    | none => simpa using hfees
    | some t => exact add_nonneg hfees (hbuilt t rfl).totalFees
  unfold applyEntryFill
  rw [hdist]
  refine ⟨_, raiseIf_bind_eq_ok.mpr ⟨hearlier, raiseIf_bind_eq_ok.mpr ⟨?_,
    TradeState.postInit_eq_ok_iff.mpr ⟨rfl, ?_⟩⟩⟩, rfl⟩
  · rintro (hlow | hhigh) <;> linarith
  · refine ⟨lt_trans hd hentry, hnotional.le, hquantity.le, ?_, ⟨by linarith, by linarith⟩, ?_,
      htotal⟩
    · exact iff_of_false hquantity.ne' hnotional.ne'
    · exact lt_of_lt_of_le (by linarith) (le_trans (le_max_left _ _) (le_max_left _ _))

variable {t : TradeState}

/-- **An exit fill** is taken from the trade. -/
theorem applyExitFill_spec (hbuilt : t.WellFormed) (hfees : 0 ≤ fees)
    (hleft : tolerance < t.remainingQuantity - qty ∨ t.remainingQuantity = qty) :
    ∃ t', applyExitFill order qty fees (some t) = .ok t' ∧
      t'.remainingQuantity = t.remainingQuantity - qty := by
  have htolerance : (0 : ℚ) < tolerance := by norm_num [tolerance]
  have hremaining : ¬ t.remainingQuantity - qty < -tolerance := by
    rcases hleft with hmore | hnone <;> linarith
  have htotal : 0 ≤ t.totalFees + fees := add_nonneg hbuilt.totalFees hfees
  unfold applyExitFill
  rcases hleft with hmore | hnone
  · have hpos : 0 < t.remainingQuantity - qty := lt_trans htolerance hmore
    refine ⟨_, raiseIf_bind_eq_ok.mpr ⟨hremaining, TradeState.postInit_eq_ok_iff.mpr ⟨rfl, ?_⟩⟩, ?_⟩
    · simp only [if_neg (not_le.mpr hmore)]
      exact ⟨hbuilt.entryPrice, (mul_pos hbuilt.entryPrice hpos).le, hpos.le,
        iff_of_false hpos.ne' (mul_pos hbuilt.entryPrice hpos).ne', hbuilt.initialStop,
        hbuilt.activeStop, htotal⟩
    · exact if_neg (not_le.mpr hmore)
  · have hle : t.remainingQuantity - qty ≤ tolerance := by linarith
    refine ⟨_, raiseIf_bind_eq_ok.mpr ⟨hremaining, TradeState.postInit_eq_ok_iff.mpr ⟨rfl, ?_⟩⟩, ?_⟩
    · simp only [if_pos hle]
      exact ⟨hbuilt.entryPrice, le_refl 0, le_refl 0, Iff.rfl, hbuilt.initialStop,
        hbuilt.activeStop, htotal⟩
    · exact (if_pos hle).trans (by linarith)

variable {t' : TradeState}

/-- **What `on_fill` returns** was built, and has an active stop that is no lower. -/
theorem onFill_returns (h : onFill cfg order price qty filledAt fees trade = .ok t') :
    t'.WellFormed ∧ ∀ t, trade = some t → t.activeStop ≤ t'.activeStop := by
  simp only [onFill, raiseIf_bind_eq_ok] at h
  obtain ⟨-, -, -, -, -, h⟩ := h
  cases haction : order.action with
  | enterLong =>
    simp only [haction, applyEntryFill] at h
    cases hdist : order.stopDistance with
    | none => simp [hdist] at h
    | some d =>
      simp only [hdist, raiseIf_bind_eq_ok] at h
      obtain ⟨-, -, h⟩ := h
      obtain ⟨rfl, hformed⟩ := TradeState.postInit_eq_ok_iff.mp h
      refine ⟨hformed, ?_⟩
      rintro t rfl
      exact le_max_right _ _
  | exitLong =>
    simp only [haction, applyExitFill] at h
    cases trade with
    | none => cases h
    | some t =>
      simp only [raiseIf_bind_eq_ok] at h
      obtain ⟨-, h⟩ := h
      obtain ⟨rfl, hformed⟩ := TradeState.postInit_eq_ok_iff.mp h
      refine ⟨hformed, ?_⟩
      rintro t' ht
      exact le_of_eq (congrArg TradeState.activeStop (some.inj ht)).symm
  | replaceStop => simp [haction] at h

theorem onStopAccepted_returns (h : onStopAccepted t order = .ok t') :
    t'.WellFormed ∧ t.activeStop ≤ t'.activeStop ∧ t'.remainingQuantity = t.remainingQuantity := by
  unfold onStopAccepted at h
  split at h
  · simp only [raiseIf_bind_eq_ok, not_lt] at h
    obtain ⟨-, hfirm, h⟩ := h
    obtain ⟨rfl, hformed⟩ := TradeState.postInit_eq_ok_iff.mp h
    exact ⟨hformed, hfirm, rfl⟩
  · cases h

/-- The position after a fill. -/
def OrderAction.side : OrderAction → Side
  | enterLong => .buy
  | exitLong | replaceStop => .sell

variable {equityAfter : ℚ}

/-- **A fill that applies** is applied, by the side of its order. -/
theorem apply_spec {r : Router} {event : FillEvent} (hbuilt : Built r.trade)
    (hc : FillApplies cfg r order event equityAfter) :
    ∃ t, FillEvent.apply cfg order r.trade event = .ok t ∧
      t.remainingQuantity = remainingOf r.trade + signed (order.action.side, event.lastQty) := by
  obtain ⟨husable, hprice, hqty, hid, hprior, haction⟩ := hc
  obtain ⟨fee, hfee⟩ := nativeFee_eq_ok_iff.mpr husable
  have hfees := nativeFee_nonneg hfee
  have happly : FillEvent.apply cfg order r.trade event =
      onFill cfg order event.lastPx event.lastQty (cfg.fromTimestamp event.tsEvent) fee r.trade := by
    unfold FillEvent.apply
    rw [hfee]
    rfl
  -- the checks that come before the action
  have hchecks : ∀ {t}, onFill cfg order event.lastPx event.lastQty
      (cfg.fromTimestamp event.tsEvent) fee r.trade = .ok t ↔
      (match order.action with
        | .enterLong => applyEntryFill cfg order event.lastPx event.lastQty
            (cfg.fromTimestamp event.tsEvent) fee r.trade
        | .exitLong => applyExitFill order event.lastQty fee r.trade
        | .replaceStop => .error (.valueError
            "replace_stop is acknowledged through on_stop_accepted, not a fill")) = .ok t := by
    intro t
    simp only [onFill, raiseIf_bind_eq_ok]
    exact ⟨fun h => h.2.2.2.2.2, fun h => ⟨hid, not_le.mpr hprice, not_le.mpr hqty,
      not_lt.mpr hfees, not_lt.mpr hprior, h⟩⟩
  rw [happly]
  cases ha : order.action with
  | enterLong =>
    simp only [ActionApplies, ha] at haction
    obtain ⟨⟨d, hdist, hd, hroom⟩, hopened⟩ := haction
    obtain ⟨t, ht, hremaining⟩ :=
      applyEntryFill_spec hbuilt hprice hqty hfees hdist hd hroom hopened
    exact ⟨t, hchecks.mpr (by simp only [ha]; exact ht), hremaining⟩
  | exitLong =>
    simp only [ActionApplies, ha] at haction
    obtain ⟨t, ht, hleft⟩ := haction
    obtain ⟨t', ht', hremaining⟩ : ∃ t', applyExitFill order event.lastQty fee (some t) = .ok t' ∧
        t'.remainingQuantity = t.remainingQuantity - event.lastQty :=
      applyExitFill_spec (hbuilt t ht) hfees (hleft.imp_right And.left)
    refine ⟨t', hchecks.mpr (by simp only [ha, ht]; exact ht'), ?_⟩
    rw [hremaining, ht]
    exact sub_eq_add_neg _ _
  | replaceStop =>
    simp only [ActionApplies, ha] at haction

/-! ## The invariant -/

/-- A stop with its price. -/
def FreqtradeOrder.IsStop (order : FreqtradeOrder) : Prop :=
  order.action = .replaceStop ∧ order.price ≠ none

/-- The id of a stop, as long as the router knows it. -/
def Host.StopId (id : ℕ) (h : Host) : Prop :=
  id < h.book.next ∧ ∀ s, h.router.submitted id = some s → s.sourceOrder.IsStop

/-- What is left of a method: orders of decisions only, and stops. -/
def Frame.Fits (h : Host) (f : Frame) : Prop :=
  match f.task with
  | .order _ => f.inHandler = false
  | .activate id => h.StopId id
  | .discard _ => True

/-- **The invariant of every run.** -/
structure Sound (h : Host) : Prop where
  tracks : ∀ id s, h.router.submitted id = some s → ∃ o, h.book.order? id = some o ∧
    o.trades = s.fillIds ∧ o.info.side = s.sourceOrder.action.side
  live : ∀ id o, h.book.order? id = some o → o.status.IsOpen → h.router.submitted id ≠ none
  built : Built h.router.trade
  active : ∀ id, h.router.activeStopId = some id → h.StopId id
  pending : ∀ order, h.router.pendingStop = some order → order.IsStop
  fits : ∀ f ∈ h.stack, f.Fits h

theorem sound_start : Sound Host.start where
  tracks := fun _ _ h => absurd h (by simp [Host.start])
  live := fun _ _ h => absurd h (by simp [Host.start])
  built := fun _ h => absurd h (by simp [Host.start])
  active := fun _ h => absurd h (by simp [Host.start])
  pending := fun _ h => absurd h (by simp [Host.start])
  fits := fun _ h => absurd h (by simp [Host.start])

/-- **What a piece of a method leaves as it is.** -/
structure Quiet (h h' : Host) : Prop where
  sound : Sound h → Sound h'
  raised : h'.raised = h.raised
  trade : h'.router.trade = h.router.trade
  executed : h'.executed = h.executed

theorem Quiet.refl (h : Host) : Quiet h h := ⟨fun hs => hs, rfl, rfl, rfl⟩

variable {h h' : Host} {h'' : Host}

theorem Quiet.trans (q : Quiet h h') (q' : Quiet h' h'') : Quiet h h'' :=
  ⟨q'.sound ∘ q.sound, q'.raised.trans q.raised, q'.trade.trans q.trade,
    q'.executed.trans q.executed⟩

theorem Quiet.inStep (q : Quiet h h') (hi : h.InStep) : h'.InStep where
  raised := q.raised.trans hi.raised
  remaining := by rw [q.trade, q.executed]; exact hi.remaining
  closed := by rw [q.trade, q.executed]; exact hi.closed

theorem Quiet.firm (q : Quiet h h') : Firm h h' :=
  fun t ht => ⟨t, q.trade.trans ht, le_refl _⟩

variable {id : ℕ}

/-- Ids of stops stay so in a book that has at least the same orders, for a router that
knows no more of them. -/
theorem StopId.mono (hid : h.StopId id) (hnext : h.book.next ≤ h'.book.next)
    (hsub : ∀ s, h'.router.submitted id = some s → ∃ s', h.router.submitted id = some s' ∧
      s'.sourceOrder = s.sourceOrder) :
    h'.StopId id := by
  refine ⟨lt_of_lt_of_le hid.1 hnext, fun s hs => ?_⟩
  obtain ⟨s', hs', horder⟩ := hsub s hs
  exact horder ▸ hid.2 s' hs'

variable {f : Frame}

theorem Fits.mono (hf : f.Fits h) (hstop : ∀ id, h.StopId id → h'.StopId id) : f.Fits h' := by
  unfold Frame.Fits at hf ⊢
  cases htask : f.task with
  | order o =>
    rw [htask] at hf
    exact hf
  | activate id =>
    rw [htask] at hf
    exact hstop id hf
  | discard id => trivial

/-! ## Pieces -/

theorem raise_false_quiet (e : Exc) (h : Host) : Quiet h (h.raise false e) :=
  ⟨fun hs => ⟨hs.tracks, hs.live, hs.built, hs.active, hs.pending, fun _ hf => nomatch hf⟩,
    rfl, rfl, rfl⟩

theorem push_quiet (b : Bool) {task : Task} (hfits : Sound h → (Frame.mk b task).Fits h) :
    Quiet h (h.push b task) := by
  refine ⟨fun hs => ⟨hs.tracks, hs.live, hs.built, hs.active, hs.pending, fun f hf => ?_⟩,
    rfl, rfl, rfl⟩
  rcases mem_cons.mp hf with rfl | hf
  · exact hfits hs
  · exact hs.fits f hf

variable {native : NativeOrder}

theorem sound_submit (hside : native.side = order.action.side) (hs : Sound h) :
    Sound (h.rememberAndSubmit native order) := by
  have hnext : (h.book.submit native).next = h.book.next + 1 := length_append
  have hstop : ∀ id, h.StopId id → (h.rememberAndSubmit native order).StopId id := by
    intro id hid
    refine StopId.mono hid (by show _ ≤ (h.book.submit native).next; omega) fun s hs => ⟨s, ?_, rfl⟩
    have hs : Function.update h.router.submitted h.book.next (some ⟨order, []⟩) id = some s := hs
    rwa [update_of_ne hid.1.ne] at hs
  refine ⟨fun id s hsub => ?_, fun id o ho hopen => ?_, hs.built,
    fun id ha => hstop id (hs.active id ha), hs.pending, fun f hf => Fits.mono (hs.fits f hf) hstop⟩
  · simp only [Host.rememberAndSubmit, update_apply] at hsub
    show ∃ o, (h.book.submit native).order? id = some o ∧ _
    split_ifs at hsub with hid
    · rw [Book.order?_submit, if_pos hid, ← some.inj hsub]
      exact ⟨_, rfl, rfl, hside⟩
    · obtain ⟨o, ho, hrest⟩ := hs.tracks id s hsub
      exact ⟨o, Book.order?_submit_of_some ho, hrest⟩
  · show Function.update h.router.submitted h.book.next (some ⟨order, []⟩) id ≠ none
    by_cases hid : id = h.book.next
    · simp [hid]
    · rw [update_of_ne hid]
      have ho : (h.book.submit native).order? id = some o := ho
      rw [Book.order?_submit, if_neg hid] at ho
      exact hs.live id o ho hopen

theorem submit_quiet (h : Host) (hside : native.side = order.action.side) :
    Quiet h (h.rememberAndSubmit native order) :=
  ⟨sound_submit hside, rfl, rfl, rfl⟩

variable (cfg)

/-- **`_submit_stop`** of a stop: the frame that will make it the active one is about a
stop, once the order is submitted. -/
theorem submitStop_quiet (b : Bool) (h : Host) (hstop : order.IsStop) :
    Quiet h (h.submitStop cfg b order) := by
  obtain ⟨haction, hprice⟩ := hstop
  unfold Host.submitStop
  cases hp : order.price with
  | none => exact absurd hp hprice
  | some price =>
    refine ⟨fun hs => ?_, rfl, rfl, rfl⟩
    -- the frame is about the order that is submitted with it
    have hsubmitted : Sound (h.rememberAndSubmit ⟨.stopMarket, .sell, cfg.makeQty order.quantity,
        none, some (cfg.makePrice price), none, false, true,
        [cfg.strategyName, order.reason, "stop"], none⟩ order) :=
      sound_submit (by rw [haction]; rfl) hs
    refine ⟨hsubmitted.tracks, hsubmitted.live, hsubmitted.built, hsubmitted.active,
      hsubmitted.pending, fun f hf => ?_⟩
    rcases mem_cons.mp hf with rfl | hf
    · refine ⟨by show _ < (h.book.submit _).next; simp [Book.submit, Book.next], fun s hs' => ?_⟩
      have hs' : Function.update h.router.submitted h.book.next (some ⟨order, []⟩) h.book.next =
        some s := hs'
      rw [update_self] at hs'
      rw [← some.inj hs']
      exact ⟨haction, hprice⟩
    · exact hsubmitted.fits f hf

/-- An order that keeps what the router knows of it, and does not come to life again. -/
theorem sound_amend {k : ℕ} {f : Order NativeOrder String → Order NativeOrder String}
    (hf : ∀ o, h.book.order? k = some o → o.Later (f o)) (htrades : ∀ o, (f o).trades = o.trades)
    (hs : Sound h) : Sound { h with book := h.book.amend k f } := by
  have hnext : (h.book.amend k f).next = h.book.next := length_modify ..
  have hstop : ∀ id, h.StopId id → { h with book := h.book.amend k f }.StopId id := fun id hid =>
    StopId.mono hid hnext.ge fun s hs => ⟨s, hs, rfl⟩
  refine ⟨fun id s hsub => ?_, fun id o ho hopen => ?_, hs.built,
    fun id ha => hstop id (hs.active id ha), hs.pending, fun f hf => Fits.mono (hs.fits f hf) hstop⟩
  · obtain ⟨o, ho, hfills, hside⟩ := hs.tracks id s hsub
    by_cases hid : id = k
    · subst hid
      exact ⟨f o, Book.order?_amend_self ho, (htrades o).trans hfills, by rw [(hf o ho).info, hside]⟩
    · exact ⟨o, (Book.order?_amend_of_ne hid).trans ho, hfills, hside⟩
  · have ho : (h.book.amend k f).order? id = some o := ho
    by_cases hid : id = k
    · subst hid
      rw [Book.order?_amend, if_pos rfl] at ho
      obtain ⟨o', ho', rfl⟩ := Option.map_eq_some_iff.mp ho
      exact hs.live id o' ho' ((hf o' ho').isOpen hopen)
    · exact hs.live id o ((Book.order?_amend_of_ne hid).symm.trans ho) hopen

theorem requestStop_quiet (b : Bool) (h : Host) (hstop : order.IsStop) :
    Quiet h (h.requestStop cfg b order) := by
  unfold Host.requestStop
  cases hp : order.price with
  | none => exact absurd hp hstop.2
  | some price =>
    simp only
    split
    · exact submitStop_quiet cfg b h hstop
    · rename_i id ha
      split
      · refine Quiet.trans ?_ (submitStop_quiet cfg b _ hstop)
        exact ⟨fun hs => ⟨hs.tracks, hs.live, hs.built, fun _ ha => (nomatch ha),
          fun _ hp => (nomatch hp), hs.fits⟩, rfl, rfl, rfl⟩
      · refine ⟨fun hs => ?_, rfl, rfl, rfl⟩
        have hasked := sound_amend (k := id) (fun o _ => Order.askCancel_later o)
          Order.trades_askCancel hs
        exact ⟨hasked.tracks, hasked.live, hasked.built, hasked.active,
          fun o ho => some.inj ho ▸ hstop, hasked.fits⟩

/-- A round of `submit_decision`, which may raise. -/
theorem obey_quiet (order : FreqtradeOrder) (h : Host) : Quiet h (h.obey cfg false order) := by
  unfold Host.obey
  cases ha : order.action with
  | enterLong => exact submit_quiet h (by rw [ha]; rfl)
  | exitLong => exact submit_quiet h (by rw [ha]; rfl)
  | replaceStop =>
    cases hp : order.price with
    | none =>
      simp only [Host.requestStop, hp]
      exact raise_false_quiet _ h
    | some price => exact requestStop_quiet cfg false h ⟨ha, by simp [hp]⟩

theorem drop_quiet (hended : ∀ o, h.book.order? id = some o → ¬ o.status.IsOpen) :
    Quiet h (h.drop id) := by
  refine ⟨fun hs => ?_, rfl, rfl, rfl⟩
  have hsub : ∀ {i s}, (h.drop id).router.submitted i = some s → h.router.submitted i = some s := by
    intro i s hi
    simp only [Host.drop, update_apply] at hi
    split_ifs at hi
    exact hi
  have hstop : ∀ i, h.StopId i → (h.drop id).StopId i := fun i hi =>
    StopId.mono hi (le_refl _) fun s hs => ⟨s, hsub hs, rfl⟩
  refine ⟨fun i s hi => hs.tracks i s (hsub hi), fun i o ho hopen => ?_, hs.built,
    fun i ha => hstop i (hs.active i ha), hs.pending, fun f hf => Fits.mono (hs.fits f hf) hstop⟩
  have hne : i ≠ id := by
    rintro rfl
    exact hended o ho hopen
  show Function.update h.router.submitted id none i ≠ none
  rw [update_of_ne hne]
  exact hs.live i o ho hopen

theorem discardIfClosed_quiet (id : ℕ) (h : Host) : Quiet h (h.discardIfClosed cfg id) := by
  unfold Host.discardIfClosed
  split
  · exact Quiet.refl h
  · rename_i o ho
    split_ifs with hclosed
    · refine drop_quiet fun o' ho' => ?_
      rw [← some.inj (ho.symm.trans ho')]
      exact hclosed.2
    · exact Quiet.refl h

/-- **One piece of a method** that fits. -/
theorem perform_quiet (hfits : f.Fits h) : Quiet h (h.perform cfg f.inHandler f.task) := by
  unfold Frame.Fits at hfits
  cases htask : f.task with
  | order order =>
    rw [htask] at hfits
    rw [hfits]
    exact obey_quiet cfg order h
  | activate id =>
    rw [htask] at hfits
    refine ⟨fun hs => ⟨hs.tracks, hs.live, hs.built, fun i ha => ?_, hs.pending, hs.fits⟩,
      rfl, rfl, rfl⟩
    rw [← some.inj ha]
    exact hfits
  | discard id => exact discardIfClosed_quiet cfg id h

theorem resume_quiet (hs : Sound h) : Quiet h (h.resume cfg) := by
  unfold Host.resume
  split
  · exact Quiet.refl h
  · rename_i f rest hstack
    have hpop : Quiet h { h with stack := rest } := by
      refine ⟨fun hs => ⟨hs.tracks, hs.live, hs.built, hs.active, hs.pending, fun f' hf' => ?_⟩,
        rfl, rfl, rfl⟩
      exact hs.fits f' (by rw [hstack]; exact mem_cons_of_mem f hf')
    refine hpop.trans (perform_quiet cfg ?_)
    exact hs.fits f (by rw [hstack]; exact mem_cons_self)

theorem submitDecision_quiet (state : ProtectionState) (orders : List FreqtradeOrder) (h : Host) :
    Quiet h (h.submitDecision state orders) := by
  refine ⟨fun hs => ⟨hs.tracks, hs.live, hs.built, hs.active, hs.pending, fun f hf => ?_⟩, rfl, rfl,
    rfl⟩
  rcases mem_append.mp hf with hf | hf
  · obtain ⟨o, -, rfl⟩ := mem_map.mp hf
    rfl
  · exact hs.fits f hf

/-- **What the venue ends** leaves the trade as it is: the pending stop is submitted. -/
theorem ended_quiet (hs : Sound h) (id : ℕ) {status : Status} (hended : ¬ status.IsOpen) :
    Quiet h (h.ended cfg id status) := by
  unfold Host.ended
  split
  · exact Quiet.refl h
  rename_i o ho
  split_ifs with hopen
  swap
  · exact Quiet.refl h
  have hfinish : Quiet h { h with book := h.book.amend id (Order.finish status) } := by
    refine ⟨sound_amend (fun o' ho' => Order.finish_later status ?_) (fun _ => rfl), rfl, rfl, rfl⟩
    rw [← some.inj (ho.symm.trans ho')]
    exact hopen
  have hdrop : Quiet { h with book := h.book.amend id (Order.finish status) }
      ({ h with book := h.book.amend id (Order.finish status) }.drop id) := by
    refine drop_quiet fun o' ho' => ?_
    have ho' : (h.book.amend id (Order.finish status)).order? id = some o' := ho'
    rw [Book.order?_amend_self ho] at ho'
    rw [← some.inj ho']
    exact hended
  refine (hfinish.trans hdrop).trans ?_
  unfold Host.onOrderCanceled
  split_ifs with hactive
  · split
    · exact ⟨fun hs => ⟨hs.tracks, hs.live, hs.built, fun _ ha => (nomatch ha), hs.pending, hs.fits⟩,
        rfl, rfl, rfl⟩
    · rename_i pending hpending
      refine Quiet.trans ?_ (submitStop_quiet cfg true _ (hs.pending pending hpending))
      exact ⟨fun hs => ⟨hs.tracks, hs.live, hs.built, fun _ ha => (nomatch ha),
        fun _ hp => (nomatch hp), hs.fits⟩, rfl, rfl, rfl⟩
  · exact Quiet.refl _

/-! ## Fills and acceptances -/

theorem sound_raise {b : Bool} {e : Exc} (hs : Sound h) : Sound (h.raise b e) :=
  ⟨hs.tracks, hs.live, hs.built, hs.active, hs.pending, fun _ hf => nomatch hf⟩

theorem firm_raise (b : Bool) (e : Exc) (h : Host) : Firm h (h.raise b e) :=
  fun t ht => ⟨t, ht, le_refl _⟩

theorem Firm.trans (hf : Firm h h') (hf' : Firm h' h'') : Firm h h'' := by
  intro t ht
  obtain ⟨t', ht', hle⟩ := hf t ht
  obtain ⟨t'', ht'', hle'⟩ := hf' t' ht'
  exact ⟨t'', ht'', le_trans hle hle'⟩

theorem sound_setTrade (hs : Sound h) (ht : t.WellFormed) : Sound (h.setTrade t) :=
  ⟨hs.tracks, hs.live, fun _ ht' => some.inj ht' ▸ ht, hs.active, hs.pending, hs.fits⟩

/-- The trade is closed when what the venue has filled adds up to nothing. -/
theorem inStep_of_remaining (hraised : h.raised = []) (htrade : h.router.trade = some t)
    (hremaining : t.remainingQuantity = net h.executed) : h.InStep where
  raised := hraised
  remaining := by rw [htrade]; exact hremaining
  closed := by
    intro t' ht'
    obtain rfl := some.inj (htrade.symm.trans ht')
    rw [← hremaining]
    exact Iff.rfl

theorem sound_noteFill (hs : Sound h) {o : Order NativeOrder String}
    (ho : h.book.order? id = some o) (hopen : o.status.IsOpen) {s : SubmittedOrder}
    (hsub : h.router.submitted id = some s) (side : Side) (event : FillEvent) (closes : Bool) :
    Sound ((h.execute id side event closes).noteFill id s event.tradeId) := by
  have hself : ∀ {o'}, h.book.order? id = some o' → o' = o := fun ho' =>
    some.inj (ho'.symm.trans ho)
  have hnext : (h.book.amend id (Order.trade event.tradeId closes)).next = h.book.next :=
    length_modify ..
  have hnoted : ((h.execute id side event closes).noteFill id s event.tradeId).router.submitted =
      Function.update h.router.submitted id
        (some { s with fillIds := s.fillIds ++ [event.tradeId] }) := rfl
  have hstop : ∀ i, h.StopId i →
      ((h.execute id side event closes).noteFill id s event.tradeId).StopId i := by
    intro i hi
    refine StopId.mono hi hnext.ge fun s' hs' => ?_
    rw [hnoted, update_apply] at hs'
    split_ifs at hs' with hid
    · exact ⟨s, hid ▸ hsub, by rw [← some.inj hs']⟩
    · exact ⟨s', hs', rfl⟩
  refine ⟨fun i s' hi => ?_, fun i o' ho' hopen' => ?_, hs.built,
    fun i ha => hstop i (hs.active i ha), hs.pending, fun f hf => Fits.mono (hs.fits f hf) hstop⟩
  · rw [hnoted, update_apply] at hi
    show ∃ o', (h.book.amend id (Order.trade event.tradeId closes)).order? i = some o' ∧ _
    split_ifs at hi with hid
    · obtain ⟨o', ho', hfills, hside⟩ := hs.tracks id s hsub
      obtain rfl := hself ho'
      rw [hid, Book.order?_amend_self ho, ← some.inj hi]
      exact ⟨_, rfl, congrArg (· ++ [event.tradeId]) hfills, hside⟩
    · obtain ⟨o', ho', hrest⟩ := hs.tracks i s' hi
      exact ⟨o', (Book.order?_amend_of_ne hid).trans ho', hrest⟩
  · rw [hnoted]
    by_cases hid : i = id
    · simp [hid]
    · rw [update_of_ne hid]
      have ho' : (h.book.amend id (Order.trade event.tradeId closes)).order? i = some o' := ho'
      rw [Book.order?_amend_of_ne hid] at ho'
      exact hs.live i o' ho' hopen'

variable {cfg}

theorem initialStopOrder_eq_ok {at' : ℕ} (h : initialStopOrder cfg t at' = .ok order) :
    order.IsStop := by
  unfold initialStopOrder at h
  split_ifs at h
  rw [← ok.inj h]
  exact ⟨rfl, by simp⟩

theorem onTradeClosed_eq_ok {state state' : ProtectionState} {closedAt : ℕ}
    (h : onTradeClosed cfg state closedAt equityAfter = .ok state') :
    0 < equityAfter ∧ ∀ p ∈ state.equityPoints.getLast?, p.closedAt ≤ closedAt := by
  unfold onTradeClosed at h
  split at h
  · exact nomatch h
  · rename_i hequity
    split at h
    · rename_i hlast
      exact ⟨not_le.mp hequity, hlast⟩
    · exact nomatch h

variable (cfg)

/-- **What follows a fill** leaves the trade as it is, unless the trade cannot be closed. -/
theorem followUp_quiet (id : ℕ) (action : OrderAction) (filledAt : ℕ) (equityAfter : ℚ)
    (t : TradeState) (h : Host) (hclose : action = .exitLong → t.IsClosed → 0 < equityAfter ∧
      ∀ p ∈ h.router.protectionState.equityPoints.getLast?, p.closedAt ≤ filledAt) :
    Quiet h (h.followUp cfg id action filledAt equityAfter t) := by
  unfold Host.followUp
  cases action with
  | enterLong =>
    simp only
    split_ifs with hclosed
    · exact discardIfClosed_quiet cfg id h
    · split
      · rename_i e he
        rw [initialStopOrder, if_neg hclosed] at he
        exact nomatch he
      · rename_i order horder
        refine (push_quiet true fun _ => ?_).trans
          (requestStop_quiet cfg true _ (initialStopOrder_eq_ok horder))
        trivial
  | exitLong =>
    simp only
    split_ifs with hclosed
    · obtain ⟨hequity, hlast⟩ := hclose rfl hclosed
      split
      · rename_i e he
        rw [onTradeClosed, if_neg (not_le.mpr hequity), dif_pos hlast] at he
        exact nomatch he
      · rename_i state _
        refine Quiet.trans ?_ (discardIfClosed_quiet cfg id _)
        exact ⟨fun hs => ⟨hs.tracks, hs.live, hs.built, hs.active, hs.pending, hs.fits⟩,
          rfl, rfl, rfl⟩
    · exact discardIfClosed_quiet cfg id h
  | replaceStop => exact discardIfClosed_quiet cfg id h

/-- It never lowers the active stop, and keeps the invariant. -/
theorem followUp_sound (id : ℕ) (action : OrderAction) (filledAt : ℕ) (equityAfter : ℚ)
    (t : TradeState) (hs : Sound h) : Sound (h.followUp cfg id action filledAt equityAfter t) ∧
      Firm h (h.followUp cfg id action filledAt equityAfter t) := by
  by_cases hclose : action = .exitLong → t.IsClosed → 0 < equityAfter ∧
      ∀ p ∈ h.router.protectionState.equityPoints.getLast?, p.closedAt ≤ filledAt
  · have hquiet := followUp_quiet cfg id action filledAt equityAfter t h hclose
    exact ⟨hquiet.sound hs, hquiet.firm⟩
  · simp only [not_forall] at hclose
    obtain ⟨rfl, hclosed, hbad⟩ := hclose
    simp only [Host.followUp, if_pos hclosed]
    split
    · exact ⟨sound_raise hs, firm_raise true _ h⟩
    · rename_i state hstate
      exact absurd (onTradeClosed_eq_ok hstate) hbad

/-- **A trade that is executed.** -/
theorem filled_spec (hs : Sound h) (id : ℕ) (event : FillEvent) (closes : Bool) (equityAfter : ℚ) :
    Sound (h.filled cfg id event closes equityAfter) ∧
      Firm h (h.filled cfg id event closes equityAfter) ∧
      (h.InStep → Applies cfg h (.filled id event closes equityAfter) →
        (h.filled cfg id event closes equityAfter).InStep) := by
  unfold Host.filled
  split
  · exact ⟨hs, (Quiet.refl h).firm, fun hi _ => hi⟩
  rename_i o ho
  split_ifs with hnew
  swap
  · exact ⟨hs, (Quiet.refl h).firm, fun hi _ => hi⟩
  unfold Host.onOrderFilled
  split
  · rename_i hnone
    exact absurd hnone (hs.live id o ho hnew.1)
  rename_i s hsub
  have hsub : h.router.submitted id = some s := hsub
  obtain ⟨o', ho', hfills, hside⟩ := hs.tracks id s hsub
  obtain rfl := some.inj (ho.symm.trans ho')
  rw [if_neg (by rw [← hfills]; exact hnew.2)]
  have hnoted := sound_noteFill hs ho hnew.1 hsub o.info.side event closes
  cases happly : FillEvent.apply cfg s.sourceOrder
      (h.execute id o.info.side event closes).router.trade event with
  | error e =>
    refine ⟨sound_raise hnoted, firm_raise true e _, fun _ hc => ?_⟩
    obtain ⟨t, ht, -⟩ := apply_spec hs.built (hc o ho hnew.1 hnew.2 s hsub)
    exact nomatch ht.symm.trans happly
  | ok t =>
    -- what `on_fill` returned, before anything follows
    obtain ⟨fee, -, hfill⟩ := of_bind happly
    obtain ⟨hformed, hfirm⟩ := onFill_returns hfill
    have hset := sound_setTrade hnoted hformed
    have hfirm : Firm h
        (((h.execute id o.info.side event closes).noteFill id s event.tradeId).setTrade t) :=
      fun t' ht' => ⟨t, rfl, hfirm t' ht'⟩
    obtain ⟨hsound, hfollow⟩ := followUp_sound cfg id s.sourceOrder.action
      (cfg.fromTimestamp event.tsEvent) equityAfter t hset
    refine ⟨hsound, hfirm.trans hfollow, fun hi hc => ?_⟩
    have happlies := hc o ho hnew.1 hnew.2 s hsub
    obtain ⟨t', ht', hremaining⟩ := apply_spec hs.built happlies
    obtain rfl := ok.inj (ht'.symm.trans happly)
    have hset : (((h.execute id o.info.side event closes).noteFill id s
        event.tradeId).setTrade t').InStep := by
      refine inStep_of_remaining hi.raised rfl ?_
      show t'.remainingQuantity = net (h.executed ++ [(o.info.side, event.lastQty)])
      rw [hremaining, hi.remaining, hside, net, net, map_append, sum_append]
      simp
    refine (followUp_quiet cfg id _ _ equityAfter t' _ fun haction hclosed => ?_).inStep hset
    obtain ⟨-, -, -, -, -, happlies⟩ := happlies
    simp only [ActionApplies, haction] at happlies
    obtain ⟨t₀, ht₀, hleft⟩ := happlies
    -- nothing is left, so that it was not more than the tolerance
    have hzero : t₀.remainingQuantity - event.lastQty = 0 := by
      rw [ht₀, haction] at hremaining
      exact (sub_eq_add_neg _ _).trans (hremaining.symm.trans hclosed)
    refine (hleft.resolve_left ?_).2
    rw [hzero]
    norm_num [tolerance]

variable {cfg}

/-- **An acceptance**, which raises the active stop. -/
theorem accepted_spec (hs : Sound h) (id : ℕ) : Sound (h.accepted id) ∧ Firm h (h.accepted id) ∧
      (h.InStep → Applies cfg h (.accepted id) → (h.accepted id).InStep) := by
  unfold Host.accepted
  split
  · exact ⟨hs, (Quiet.refl h).firm, fun hi _ => hi⟩
  rename_i o ho
  split_ifs with hstatus
  swap
  · exact ⟨hs, (Quiet.refl h).firm, fun hi _ => hi⟩
  have haccept : Quiet h { h with book := h.book.amend id Order.accept } :=
    ⟨sound_amend (fun o _ => Order.accept_later o) Order.trades_accept, rfl, rfl, rfl⟩
  have hsound := haccept.sound hs
  unfold Host.onOrderAccepted
  split_ifs with hactive
  swap
  · exact ⟨hsound, haccept.firm, fun hi _ => haccept.inStep hi⟩
  split
  · rename_i t s htrade hsub
    have htrade : h.router.trade = some t := htrade
    split
    · rename_i e he
      refine ⟨sound_raise hsound, haccept.firm.trans (firm_raise true e _), fun _ hc => ?_⟩
      obtain ⟨hopen, hprice⟩ := hc o ho hstatus hactive s hsub t htrade
      obtain ⟨haction, hpriced⟩ := (hs.active id hactive).2 s hsub
      obtain ⟨price, hp⟩ := Option.ne_none_iff_exists'.mp hpriced
      have hformed := hs.built t htrade
      have hok : onStopAccepted t s.sourceOrder = .ok { t with activeStop := price } := by
        simp only [onStopAccepted, haction, hp, raiseIf_bind_eq_ok]
        refine ⟨hopen, not_lt.mpr (hprice price hp), TradeState.postInit_eq_ok_iff.mpr ⟨rfl, ?_⟩⟩
        exact { hformed with activeStop := lt_of_lt_of_le hformed.activeStop (hprice price hp) }
      cases hok.symm.trans he
    · rename_i t' ht'
      obtain ⟨hformed, hfirm, hremaining⟩ := onStopAccepted_returns ht'
      refine ⟨sound_setTrade hsound hformed, fun t₀ ht₀ => ⟨t', rfl, ?_⟩, fun hi _ => ?_⟩
      · rwa [← some.inj (htrade.symm.trans ht₀)]
      · refine inStep_of_remaining hi.raised rfl (hremaining.trans ?_)
        have := hi.remaining
        rwa [htrade] at this
  · exact ⟨hsound, haccept.firm, fun hi _ => haccept.inStep hi⟩

variable (cfg)

theorem redelivered_eq (hs : Sound h) (id : ℕ) (event : FillEvent) (equityAfter : ℚ) :
    h.redelivered cfg id event equityAfter = h := by
  unfold Host.redelivered
  split
  · rfl
  rename_i o ho
  split_ifs with hmem
  swap
  · rfl
  unfold Host.onOrderFilled
  split
  · rfl
  · rename_i s hsub
    obtain ⟨o', ho', hfills, -⟩ := hs.tracks id s hsub
    obtain rfl := some.inj (ho.symm.trans ho')
    rw [if_pos (hfills ▸ hmem)]

/-! ## Runs -/

theorem step_spec (hs : Sound h) (event : Event) :
    Sound (step cfg h event) ∧ Firm h (step cfg h event) ∧
      (h.InStep → Applies cfg h event → (step cfg h event).InStep) := by
  have of_quiet : ∀ {h'}, Quiet h h' →
      Sound h' ∧ Firm h h' ∧ (h.InStep → Applies cfg h event → h'.InStep) := fun q =>
    ⟨q.sound hs, q.firm, fun hi _ => q.inStep hi⟩
  cases event with
  | decide state orders =>
    by_cases hidle : h.stack = []
    · rw [show step cfg h (.decide state orders) = h.submitDecision state orders from if_pos hidle]
      exact of_quiet (submitDecision_quiet state orders h)
    · rw [show step cfg h (.decide state orders) = h from if_neg hidle]
      exact of_quiet (Quiet.refl h)
  | resume => exact of_quiet (resume_quiet cfg hs)
  | accepted id => exact accepted_spec hs id
  | filled id event closes equityAfter => exact filled_spec cfg hs id event closes equityAfter
  | redelivered id event equityAfter =>
    rw [show step cfg h (.redelivered id event equityAfter) = h from
      redelivered_eq cfg hs id event _]
    exact of_quiet (Quiet.refl h)
  | canceled id => exact of_quiet (ended_quiet cfg hs id (by decide))
  | rejected id => exact of_quiet (ended_quiet cfg hs id (by decide))

theorem inStep_start : Host.start.InStep where
  raised := rfl
  remaining := rfl
  closed := fun _ h => absurd h (by simp [Host.start])

/-- **The trade stays in step with the venue** in every run whose steps meet the
condition, and whatever happens later, its active stop is never lower than it was. -/
theorem trade_in_step (cfg : Setup) (events : List Event)
    (hc : Machine.Meets (step cfg) (Applies cfg) Host.start events) :
    (Machine.run (step cfg) Host.start events).InStep ∧
      ∀ later, Firm (Machine.run (step cfg) Host.start events)
        (Machine.run (step cfg) Host.start (events ++ later)) := by
  have hinv : Sound (Machine.run (step cfg) Host.start events) ∧
      (Machine.run (step cfg) Host.start events).InStep :=
    inv_run_of_meets (fun h => Sound h ∧ h.InStep)
      (fun h event hg hc => ⟨(step_spec cfg hg.1 event).1, (step_spec cfg hg.1 event).2.2 hg.2 hc⟩)
      ⟨sound_start, inStep_start⟩ hc
  refine ⟨hinv.2, fun later => ?_⟩
  rw [run_append]
  exact rel_run Sound Firm (fun _ event hs => (step_spec cfg hs event).1)
    (fun h => (Quiet.refl h).firm) (fun _ _ _ => Firm.trans)
    (fun _ event hs => (step_spec cfg hs event).2.1) hinv.1 later

/-! ## Two runs -/

/-- A port with the hard stop and the protections of the catalog. -/
def catalogSetup : Setup where
  toSetup := plainSetup
  fingerprint := "fp"
  hardStoploss := -1 / 4
  cooldown := 4
  lookback := 720
  tradeLimit := 1
  stopDuration := 24
  maxAllowedDrawdown := 1 / 10
  fromTimestamp := fun ns => ns / 1000

/-- The protections of a new router. -/
def unprotected : ProtectionState := Host.start.router.protectionState

/-- An entry of one at a hundred, filled at once, with its stop at 95 submitted and accepted. -/
def enteredWithStop : List Event :=
  [.decide unprotected [⟨.enterLong, 1, some 95, "entry", some 5, "enter-1"⟩], .resume,
    .accepted 0, .filled 0 ⟨"t1", 1000, .buy, 100, 1, .absent⟩ true 1000, .resume, .resume,
    .accepted 1]

/-- The stop is replaced by one at 96, and an exit sells what is held. -/
def exitedAfterTrail : List Event :=
  [.decide unprotected [⟨.replaceStop, 1, some 96, "atr_stop", none, "stop-2"⟩], .resume,
    .canceled 1, .resume, .accepted 2,
    .decide unprotected [⟨.exitLong, 1, none, "exit", none, "exit-1"⟩], .resume,
    .accepted 3, .filled 3 ⟨"t2", 2000, .sell, 101, 1, .absent⟩ true 1001]

theorem trade_in_step_exited :
    (Machine.run (step catalogSetup) Host.start (enteredWithStop ++ exitedAfterTrail)).InStep ∧
      ∀ later, Firm
        (Machine.run (step catalogSetup) Host.start (enteredWithStop ++ exitedAfterTrail))
        (Machine.run (step catalogSetup) Host.start
          ((enteredWithStop ++ exitedAfterTrail) ++ later)) :=
  trade_in_step catalogSetup (enteredWithStop ++ exitedAfterTrail) (by decide +kernel)

/-- The stop of the trade is filled. -/
def stoppedOut : List Event :=
  enteredWithStop ++ [.filled 1 ⟨"t2", 2000, .sell, 95, 1, .absent⟩ true 995]

/-- **The fill of the stop raises**, and the trade goes on with what was sold. -/
theorem stop_fill_raises :
    (Machine.run (step catalogSetup) Host.start stoppedOut).raised = [.valueError
        "replace_stop is acknowledged through on_stop_accepted, not a fill"] ∧
      remainingOf (Machine.run (step catalogSetup) Host.start stoppedOut).router.trade = 1 ∧
      net (Machine.run (step catalogSetup) Host.start stoppedOut).executed = 0 ∧
      ¬ (Machine.run (step catalogSetup) Host.start stoppedOut).InStep := by
  have hraised : (Machine.run (step catalogSetup) Host.start stoppedOut).raised = [.valueError
      "replace_stop is acknowledged through on_stop_accepted, not a fill"] := by
    decide +kernel
  refine ⟨hraised, by decide +kernel, by decide +kernel, fun hi => ?_⟩
  exact cons_ne_nil _ _ (hraised.symm.trans hi.raised)

end Qt.Nautilus.Freqtrade
