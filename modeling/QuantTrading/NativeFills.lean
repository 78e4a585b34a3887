import Mathlib.Algebra.Order.Ring.Unbundled.Rat
import QuantTrading.Lib.Raise
import QuantTrading.NativeRouter

/-!
# Fills and the strategy

Every trade of the venue should reach `port.on_fill`, once, and no handler should raise.
`fills_handed_once` says which steps make the difference: a trade of an order that is not
in `_submitted` is lost, and a handler raises where its fee, its state, its answer or an
intent of the answer is not usable, and where the order of the fill has left `_submitted`
before the handler looks for it again.

Only `CANCEL_ALL` forgets an order that can still be filled, and it does so at once, while
the venue has yet to answer: a fill that comes before the answer is lost, and a fill whose
own answer is `CANCEL_ALL`, as it is when a strategy goes flat, raises a `KeyError`.
-/

namespace Qt.Nautilus

open Venue List Function Option Except

variable {σ : Type}

/-! ## What is asked -/

/-- The order and the trade of a call of `port.on_fill`. -/
def handedKey (call : String × Fill) : ℕ × String := (call.2.orderId, call.1)

/-- **Every trade has been handed over once, and no handler has raised.** -/
def Host.AllHanded (h : Host σ) : Prop :=
  h.handed.map handedKey = h.executed ∧ h.raised = []

instance (h : Host σ) : Decidable h.AllHanded := inferInstanceAs (Decidable (_ ∧ _))

variable (cfg : Setup)

/-- The fee can be told in the quote currency. -/
def Commission.Usable (fillPrice : ℚ) : Commission → Prop
  | .absent => True
  | .unreadable => False
  | .money amount currency =>
    0 ≤ amount ∧ 0 < fillPrice ∧ (currency = cfg.quoteCurrency ∨ currency = cfg.baseCurrency)

instance (cfg : Setup) (fillPrice : ℚ) (commission : Commission) :
    Decidable (commission.Usable cfg fillPrice) :=
  match commission with
  | .absent => isTrue trivial
  | .unreadable => isFalse id
  | .money .. => inferInstanceAs (Decidable (_ ∧ _ ∧ (_ ∨ _)))

/-- The piece goes through. -/
def Task.Clear (h : Host σ) : Task σ → Prop
  | .intent _ i => ∃ c, i.command = .ok c
  | .unevenLadder _ => False
  | .discard clientOrderId => cfg.cached = true → h.router.submitted clientOrderId ≠ none
  | _ => True

/-- **The condition on a step.** A trade is of an order that the router has not forgotten,
its fee is usable, a state was known at its time and the port answers; and the piece of a
handler that runs next goes through. -/
def FillReaches (h : Host σ) : Event σ → Prop
  | .filled clientOrderId event _ answer =>
    ∀ o, h.book.order? clientOrderId = some o → o.status.IsOpen → event.tradeId ∉ o.trades →
      h.router.submitted clientOrderId ≠ none ∧
      event.commission.Usable cfg event.lastPx ∧
      visible (event.ts * 1000) h.router.causalStates ≠ [] ∧
      ∃ intents, answer = .ok intents
  | .resume => ∀ f, h.stack.head? = some f → f.inHandler = true → f.task.Clear cfg h
  | _ => True

/-! ## Fees and states -/

variable {cfg}

theorem nativeFee_eq_ok_iff {price : ℚ} {commission : Commission} :
    (∃ fee, nativeFee cfg price commission = .ok fee) ↔ commission.Usable cfg price := by
  cases commission with
  | absent => exact ⟨fun _ => trivial, fun _ => ⟨0, rfl⟩⟩
  | unreadable => exact ⟨fun h => by simp [nativeFee] at h, False.elim⟩
  | money amount currency =>
    simp only [nativeFee, Commission.Usable]
    split_ifs with hsign hquote hbase
    · simp only [exists_false, false_iff]
      rintro ⟨hamount, hprice, -⟩
      exact hsign.elim (not_lt.mpr hamount) (not_le.mpr hprice)
    all_goals
      rw [not_or, not_lt, not_le] at hsign
      simp [*]

variable {state : CausalState σ} {states : List (CausalState σ)}

theorem stateAt_eq_ok {ts : ℕ} (h : stateAt cfg ts states = .ok state) : state ∈ states := by
  unfold stateAt at h
  split at h
  · cases h
  · rename_i s hs
    obtain rfl := ok.inj h
    exact (mem_filter.mp (argmax_mem hs)).1

theorem stateAt_eq_ok_iff {ts : ℕ} {states : List (CausalState σ)} :
    (∃ state, stateAt cfg ts states = .ok state) ↔ visible (ts * 1000) states ≠ [] := by
  unfold stateAt
  split
  · rename_i hnone
    simp [argmax_eq_none.mp hnone]
  · rename_i s hs
    exact ⟨fun _ hnil => by simp [hnil] at hs, fun _ => ⟨s, rfl⟩⟩

/-- **What `port.on_fill` is called with** is there exactly when the fee is usable and a
state was known. -/
theorem convert_eq_ok_iff {clientOrderId : ℕ} {submitted : SubmittedOrder σ}
    {states : List (CausalState σ)} {event : FillEvent} :
    (∃ r, event.convert cfg clientOrderId submitted states = .ok r) ↔
      event.commission.Usable cfg event.lastPx ∧ visible (event.ts * 1000) states ≠ [] := by
  rw [← nativeFee_eq_ok_iff, ← @stateAt_eq_ok_iff _ cfg]
  unfold FillEvent.convert
  constructor
  · rintro ⟨r, h⟩
    obtain ⟨fee, hfee, h⟩ := Except.of_bind h
    obtain ⟨state, hstate, -⟩ := Except.of_bind h
    exact ⟨⟨fee, hfee⟩, state, hstate⟩
  · rintro ⟨⟨fee, hfee⟩, state, hstate⟩
    exact ⟨_, Except.bind_eq_ok.mpr ⟨fee, hfee, Except.bind_eq_ok.mpr ⟨state, hstate, rfl⟩⟩⟩

/-- The fill is of the order, and its state is one of those that were remembered. -/
theorem convert_eq_ok {clientOrderId : ℕ} {submitted : SubmittedOrder σ}
    {states : List (CausalState σ)} {event : FillEvent} {fill : Fill}
    (h : event.convert cfg clientOrderId submitted states = .ok (fill, state)) :
    fill.orderId = clientOrderId ∧ state ∈ states := by
  obtain ⟨fee, -, h⟩ := Except.of_bind h
  obtain ⟨s, hs, h⟩ := Except.of_bind h
  cases h
  exact ⟨rfl, stateAt_eq_ok hs⟩

variable (cfg)

theorem remember_of_mem [DecidableEq σ] (hnodup : (states.map CausalState.observedAt).Nodup)
    (h : state ∈ states) : remember cfg state states = .ok states := by
  unfold remember
  split
  · rename_i hnone
    exact absurd (List.find?_eq_none.mp hnone state h) (by simp)
  · rename_i prior hprior
    have hat : prior.observedAt = state.observedAt := by simpa using find?_some hprior
    rw [if_pos (inj_on_of_nodup_map hnodup (mem_of_find?_eq_some hprior) h hat)]

theorem nodup_remember [DecidableEq σ] {cfg : Setup} {states' : List (CausalState σ)}
    (hnodup : (states.map CausalState.observedAt).Nodup)
    (h : remember cfg state states = .ok states') : (states'.map CausalState.observedAt).Nodup := by
  unfold remember at h
  split at h
  · rename_i hnone
    obtain rfl := ok.inj h
    rw [map_append]
    refine nodup_append'.mpr ⟨hnodup, nodup_singleton _, ?_⟩
    rintro t ht hmem
    obtain ⟨s, hs, rfl⟩ := mem_map.mp ht
    exact absurd (List.find?_eq_none.mp hnone s hs) (by simpa using hmem)
  · split_ifs at h
    obtain rfl := ok.inj h
    exact hnodup

/-! ## The invariant -/

/-- The trades of an order in `_submitted` are the ones that it has. -/
def Host.Tracks (h : Host σ) : Prop :=
  ∀ id s, h.router.submitted id = some s → ∃ o, h.book.order? id = some o ∧ o.trades = s.fillIds

/-- **The invariant of every run.** -/
structure Sound (h : Host σ) : Prop where
  tracks : h.Tracks
  states : (h.router.causalStates.map CausalState.observedAt).Nodup
  length : h.handed.length ≤ h.executed.length

theorem sound_start : Sound (Host.start : Host σ) where
  tracks := fun _ _ h => nomatch h
  states := nodup_nil
  length := Nat.le_refl 0

/-- What a piece of a method leaves as it is. -/
structure Keeps (h h' : Host σ) : Prop where
  handed : h'.handed = h.handed
  executed : h'.executed = h.executed
  raised : h'.raised = h.raised
  states : h'.router.causalStates = h.router.causalStates
  tracks : h.Tracks → h'.Tracks

theorem Keeps.refl (h : Host σ) : Keeps h h := ⟨rfl, rfl, rfl, rfl, fun ht => ht⟩

variable {h' : Host σ}

theorem Keeps.trans {h h'' : Host σ} (k : Keeps h h') (k' : Keeps h' h'') : Keeps h h'' :=
  ⟨k'.handed.trans k.handed, k'.executed.trans k.executed, k'.raised.trans k.raised,
    k'.states.trans k.states, k'.tracks ∘ k.tracks⟩

theorem Keeps.sound {h : Host σ} (k : Keeps h h') (hs : Sound h) : Sound h' where
  tracks := k.tracks hs.tracks
  states := by rw [k.states]; exact hs.states
  length := by rw [k.handed, k.executed]; exact hs.length

theorem Keeps.allHanded_iff {h : Host σ} (k : Keeps h h') : h'.AllHanded ↔ h.AllHanded := by
  unfold Host.AllHanded
  rw [k.handed, k.executed, k.raised]

/-! ## Pieces -/

variable (b : Bool)

theorem push_keeps (tasks : List (Task σ)) (h : Host σ) : Keeps h (h.push b tasks) :=
  ⟨rfl, rfl, rfl, rfl, fun ht => ht⟩

variable (kind : ProtectionKind)

theorem deactivate_keeps (h : Host σ) : Keeps h (h.deactivate kind) :=
  ⟨rfl, rfl, rfl, rfl, fun ht => ht⟩

theorem setPending_keeps (p : Option (PendingProtection σ)) (h : Host σ) :
    Keeps h (h.setPending kind p) := ⟨rfl, rfl, rfl, rfl, fun ht => ht⟩

theorem activate_keeps (clientOrderId : ℕ) (h : Host σ) :
    Keeps h (h.activate kind clientOrderId) := ⟨rfl, rfl, rfl, rfl, fun ht => ht⟩

/-- A new order has no trades, and none are noted for it. -/
theorem submit_keeps (order : NativeOrder) (kind : OrderKind) (tag : String) (state : CausalState σ)
    (entry : Bool) (h : Host σ) : Keeps h (h.submit order kind tag state entry) := by
  refine ⟨rfl, rfl, rfl, rfl, fun ht id s hs => ?_⟩
  simp only [Host.submit, update_apply] at hs
  show ∃ o, (h.book.submit order).order? id = some o ∧ _
  split_ifs at hs with hid
  · rw [Book.order?_submit, if_pos hid, ← some.inj hs]
    exact ⟨_, rfl, rfl⟩
  · obtain ⟨o, ho, htrades⟩ := ht id s hs
    exact ⟨o, Book.order?_submit_of_some ho, htrades⟩

/-- Orders that keep their trades, seen from the router. -/
theorem tracks_amend {h : Host σ} {k : ℕ} {f : Order NativeOrder String → Order NativeOrder String}
    (hf : ∀ o, (f o).trades = o.trades) (ht : h.Tracks) :
    { h with book := h.book.amend k f }.Tracks := by
  intro id s hs
  obtain ⟨o, ho, htrades⟩ := ht id s hs
  by_cases hid : id = k
  · subst hid
    exact ⟨f o, Book.order?_amend_self ho, (hf o).trans htrades⟩
  · exact ⟨o, (Book.order?_amend_of_ne hid).trans ho, htrades⟩

theorem askCancel_keeps (clientOrderId : ℕ) (h : Host σ) : Keeps h (h.askCancel clientOrderId) :=
  ⟨rfl, rfl, rfl, rfl, tracks_amend Order.trades_askCancel⟩

theorem cancelAll_keeps (h : Host σ) : Keeps h (h.cancelAll b) := by
  refine ⟨rfl, rfl, rfl, rfl, fun ht id s hs => ?_⟩
  obtain ⟨o, ho, htrades⟩ := ht id s hs
  refine ⟨o.askCancel, ?_, (Order.trades_askCancel o).trans htrades⟩
  show (h.book.amendAll Order.askCancel).order? id = _
  rw [Book.order?_amendAll, ho]
  rfl

theorem clear_keeps (h : Host σ) : Keeps h h.clear :=
  ⟨rfl, rfl, rfl, rfl, fun _ _ _ hs => nomatch hs⟩

theorem drop_keeps (clientOrderId : ℕ) (h : Host σ) : Keeps h (h.drop clientOrderId) := by
  refine ⟨rfl, rfl, rfl, rfl, fun ht id s hs => ht id s ?_⟩
  simp only [Host.drop, update_apply] at hs
  split_ifs at hs
  exact hs

theorem submitProtection_keeps (p : PendingProtection σ) (h : Host σ) :
    Keeps h (h.submitProtection cfg b p) :=
  (push_keeps b _ h).trans (submit_keeps ..)

theorem requestProtection_keeps (p : PendingProtection σ) (h : Host σ) :
    Keeps h (h.requestProtection cfg b p) := by
  unfold Host.requestProtection
  split
  · exact submitProtection_keeps cfg b p h
  · split
    · exact ((deactivate_keeps _ h).trans (setPending_keeps _ _ _)).trans
        (submitProtection_keeps cfg b p _)
    · exact (setPending_keeps _ _ h).trans (askCancel_keeps _ _)

theorem cancelEntry_keeps (clientOrderId : ℕ) (side : Option Side) (h : Host σ) :
    Keeps h (h.cancelEntry clientOrderId side) := by
  unfold Host.cancelEntry
  split
  · exact ⟨rfl, rfl, rfl, rfl, fun ht => ht⟩
  · split_ifs
    · exact askCancel_keeps clientOrderId h
    · exact Keeps.refl h

theorem obey_keeps (state : CausalState σ) (i : Intent) (h : Host σ) (c : Command) :
    Keeps h (h.obey cfg b state i c) := by
  cases c with
  | cancelAll => exact cancelAll_keeps b h
  | cancelEntries side => exact push_keeps b _ h
  | replaceLadder side prices qtys => exact push_keeps b _ h
  | marketEnter side qty => exact submit_keeps ..
  | limitIocEnter side price qty => exact submit_keeps ..
  | marketExit side qty => exact submit_keeps ..
  | place kind side price qty =>
    have hnumber : Keeps h { h with
        requests := h.requests + 1
        latest := Function.update h.latest kind (some h.requests) } :=
      ⟨rfl, rfl, rfl, rfl, fun ht => ht⟩
    exact hnumber.trans (requestProtection_keeps ..)

/-- **The loop of `on_order_canceled`**, by the kinds that are left. -/
theorem release_keeps (kinds : List ProtectionKind) (h : Host σ) :
    Keeps h (h.release cfg b kinds) := by
  induction kinds generalizing h with
  | nil => exact Keeps.refl h
  | cons kind kinds ih =>
    unfold Host.release
    split
    · exact (deactivate_keeps kind h).trans (ih _)
    · exact (((deactivate_keeps kind h).trans (setPending_keeps kind none _)).trans
        (push_keeps b _ _)).trans (submitProtection_keeps cfg b _ _)

theorem rung_keeps (state : CausalState σ) (reason : String) (side : Side) (index : ℕ)
    (price qty : ℚ) (h : Host σ) : Keeps h (h.rung cfg state reason side index price qty) := by
  unfold Host.rung
  split_ifs
  · exact submit_keeps ..
  · exact Keeps.refl h

/-- **A piece that goes through** hands over nothing, and raises nothing. -/
theorem perform_keeps {cfg : Setup} {h : Host σ} {task : Task σ} (hclear : task.Clear cfg h) :
    Keeps h (h.perform cfg b task) := by
  cases task with
  | intent state i =>
    obtain ⟨c, hc⟩ := hclear
    simp only [Host.perform, hc]
    exact obey_keeps cfg b state i h c
  | cancelEntry id side => exact cancelEntry_keeps id side h
  | rung state reason side index price qty => exact rung_keeps ..
  | unevenLadder text => exact hclear.elim
  | clear => exact clear_keeps h
  | activate kind id => exact activate_keeps kind id h
  | release kinds => exact release_keeps cfg b kinds h
  | discard id =>
    show Keeps h (h.discardIfClosed cfg b id)
    unfold Host.discardIfClosed
    by_cases hcached : cfg.cached = true
    · rw [if_pos hcached]
      split
      · rename_i hnone
        exact absurd hnone (hclear hcached)
      · split_ifs
        · exact drop_keeps id h
        · exact Keeps.refl h
    · rw [if_neg hcached]
      exact Keeps.refl h

/-- **A piece that does not go through** raises before it does anything. -/
theorem perform_raises {cfg : Setup} {h : Host σ} {task : Task σ} (hclear : ¬ task.Clear cfg h) :
    ∃ e, h.perform cfg b task = h.raise b e := by
  cases task with
  | intent state i =>
    simp only [Host.perform]
    cases hc : i.command with
    | error e => exact ⟨e, rfl⟩
    | ok c => exact absurd ⟨c, hc⟩ hclear
  | unevenLadder text => exact ⟨_, rfl⟩
  | discard id =>
    simp only [Task.Clear, not_forall, not_not] at hclear
    obtain ⟨hcached, hnone⟩ := hclear
    simp only [Host.perform, Host.discardIfClosed, hcached, hnone]
    exact ⟨_, rfl⟩
  | cancelEntry | rung | clear | activate | release => exact absurd trivial hclear

/-- An exception outside a handler counts for nothing here. -/
theorem raise_false_keeps (e : Exc) (h : Host σ) : Keeps h (h.raise false e) :=
  ⟨rfl, rfl, rfl, rfl, fun ht => ht⟩

theorem sound_raise {b : Bool} {e : Exc} {h : Host σ} (hs : Sound h) : Sound (h.raise b e) :=
  ⟨hs.tracks, hs.states, hs.length⟩

theorem not_allHanded_raise (e : Exc) (h : Host σ) : ¬ (h.raise true e).AllHanded := by
  rintro ⟨-, hraised⟩
  exact append_ne_nil_of_right_ne_nil h.raised (cons_ne_nil e []) hraised

/-! ## Handlers -/

/-- **A trade that the router has noted** leaves the handler nothing to do. -/
theorem onOrderFilled_of_mem [DecidableEq σ] {h : Host σ} (ht : h.Tracks) {id : ℕ}
    {o : Order NativeOrder String} (ho : h.book.order? id = some o) {event : FillEvent}
    (hmem : event.tradeId ∈ o.trades) (answer : Except Exc (List Intent)) :
    h.onOrderFilled cfg id event answer = h := by
  unfold Host.onOrderFilled
  split
  · rfl
  · rename_i s hs
    obtain ⟨o', ho', htrades⟩ := ht id s hs
    rw [← some.inj (ho.symm.trans ho')] at htrades
    rw [if_pos (htrades ▸ hmem)]

/-- **Repeated deliveries of a trade are ignored.** -/
theorem redelivered_eq [DecidableEq σ] {h : Host σ} (hs : Sound h) (id : ℕ) (event : FillEvent)
    (answer : Except Exc (List Intent)) : h.redelivered cfg id event answer = h := by
  unfold Host.redelivered
  split
  · rfl
  · rename_i o ho
    split_ifs with hmem
    · exact onOrderFilled_of_mem cfg hs.tracks ho hmem answer
    · rfl

/-- **What the venue ends** is neither handed over nor raised. -/
theorem ended_keeps (id : ℕ) (status : Status) (h : Host σ) : Keeps h (h.ended cfg id status) := by
  unfold Host.ended
  split
  · exact Keeps.refl h
  · split_ifs
    · have hfinish : Keeps h (h.finish id status) := ⟨rfl, rfl, rfl, rfl, tracks_amend fun _ => rfl⟩
      exact (hfinish.trans (drop_keeps id _)).trans (release_keeps cfg true _ _)
    · exact Keeps.refl h

theorem accepted_keeps (id : ℕ) (h : Host σ) : Keeps h (h.accepted id) :=
  ⟨rfl, rfl, rfl, rfl, tracks_amend Order.trades_accept⟩

/-- The decision after a fill is about a state that is remembered. -/
theorem submitDecision_keeps [DecidableEq σ] {h : Host σ}
    (hnodup : (h.router.causalStates.map CausalState.observedAt).Nodup)
    (hmem : state ∈ h.router.causalStates) (intents : List Intent) :
    Keeps h (h.submitDecision cfg true state intents) := by
  unfold Host.submitDecision
  rw [remember_of_mem cfg hnodup hmem]
  exact push_keeps true _ h

theorem sound_submitDecision [DecidableEq σ] {h : Host σ} (hs : Sound h) (state : CausalState σ)
    (intents : List Intent) : Sound (h.submitDecision cfg false state intents) ∧
      ((h.submitDecision cfg false state intents).AllHanded ↔ h.AllHanded) := by
  unfold Host.submitDecision
  split
  · exact ⟨sound_raise hs, (raise_false_keeps _ h).allHanded_iff⟩
  · rename_i states hstates
    exact ⟨⟨hs.tracks, nodup_remember hs.states hstates, hs.length⟩, Iff.rfl⟩

/-- A call of `port.on_fill` is one more on both sides. -/
theorem allHanded_concat {handed : List (String × Fill)} {executed : List (ℕ × String)}
    {tradeId : String} {fill : Fill} :
    (handed ++ [(tradeId, fill)]).map handedKey = executed ++ [(fill.orderId, tradeId)] ↔
      handed.map handedKey = executed := by
  rw [map_append]
  exact append_left_inj _

/-- A trade of an order that the router has forgotten: nothing tracks it. -/
theorem sound_execute {h : Host σ} (hs : Sound h) {id : ℕ} (hnone : h.router.submitted id = none)
    (tradeId : String) (closes : Bool) : Sound (h.execute id tradeId closes) where
  tracks := by
    intro i t hi
    obtain ⟨o, ho, htrades⟩ := hs.tracks i t hi
    have hne : i ≠ id := by
      rintro rfl
      exact absurd (hnone.symm.trans hi) (by simp)
    exact ⟨o, (Book.order?_amend_of_ne hne).trans ho, htrades⟩
  states := hs.states
  length := by
    show h.handed.length ≤ (h.executed ++ [(id, tradeId)]).length
    rw [length_append]
    exact Nat.le_succ_of_le hs.length

theorem not_allHanded_execute {h : Host σ} (hs : Sound h) (id : ℕ) (tradeId : String)
    (closes : Bool) : ¬ (h.execute id tradeId closes).AllHanded := by
  rintro ⟨hall, -⟩
  have hall : h.handed.map handedKey = h.executed ++ [(id, tradeId)] := hall
  have hlength : h.handed.length = h.executed.length + 1 := by
    rw [← length_map handedKey, hall, length_append]
    rfl
  exact absurd hs.length (by simp [hlength])

/-- A trade that is executed and noted: it stands on both sides. -/
theorem sound_noteFill {h : Host σ} (hs : Sound h) {id : ℕ} {o : Order NativeOrder String}
    (ho : h.book.order? id = some o) {s : SubmittedOrder σ} (hsub : h.router.submitted id = some s)
    (tradeId : String) (closes : Bool) :
    Sound ((h.execute id tradeId closes).noteFill id s tradeId) where
  tracks := by
    intro i t hi
    simp only [Host.noteFill, Host.execute, update_apply] at hi
    show ∃ o', (h.book.amend id (Order.trade tradeId closes)).order? i = some o' ∧ _
    split_ifs at hi with hid
    · obtain ⟨o', ho', htrades⟩ := hs.tracks id s hsub
      obtain rfl := some.inj (ho.symm.trans ho')
      rw [hid, Book.order?_amend_self ho, ← some.inj hi]
      exact ⟨_, rfl, congrArg (· ++ [tradeId]) htrades⟩
    · obtain ⟨o', ho', htrades⟩ := hs.tracks i t hi
      exact ⟨o', (Book.order?_amend_of_ne hid).trans ho', htrades⟩
  states := hs.states
  length := by
    show h.handed.length ≤ (h.executed ++ [(id, tradeId)]).length
    rw [length_append]
    exact Nat.le_succ_of_le hs.length

/-- **The call of `port.on_fill`**, in a state that has one more trade than one before. -/
theorem handOver_spec [DecidableEq σ] {h g : Host σ} (hg : Sound g)
    (hs : h.handed.length ≤ h.executed.length) {tradeId : String} {fill : Fill}
    (hhanded : g.handed = h.handed)
    (hexecuted : g.executed = h.executed ++ [(fill.orderId, tradeId)])
    (hraised : g.raised = h.raised) (hmem : state ∈ g.router.causalStates)
    (answer : Except Exc (List Intent)) : Sound (g.handOver cfg tradeId fill state answer) ∧
      ((g.handOver cfg tradeId fill state answer).AllHanded ↔
        h.AllHanded ∧ ∃ intents, answer = .ok intents) := by
  have hlength : (g.handed ++ [(tradeId, fill)]).length ≤ g.executed.length := by
    rw [hhanded, hexecuted, length_append, length_append]
    exact Nat.succ_le_succ hs
  have hcalled : Sound { g with handed := g.handed ++ [(tradeId, fill)] } :=
    ⟨hg.tracks, hg.states, hlength⟩
  cases answer with
  | error e =>
    refine ⟨sound_raise hcalled, ?_⟩
    simp only [reduceCtorEq, exists_false, and_false, iff_false]
    exact not_allHanded_raise e _
  | ok intents =>
    have hpush := push_keeps true [.discard fill.orderId]
      { g with handed := g.handed ++ [(tradeId, fill)] }
    have hkeeps : Keeps { g with handed := g.handed ++ [(tradeId, fill)] }
        (g.handOver cfg tradeId fill state (.ok intents)) :=
      hpush.trans (submitDecision_keeps cfg (hpush.sound hcalled).states hmem intents)
    refine ⟨hkeeps.sound hcalled, hkeeps.allHanded_iff.trans ?_⟩
    show (g.handed ++ [(tradeId, fill)]).map handedKey = g.executed ∧ g.raised = [] ↔ _
    rw [hhanded, hexecuted, hraised, allHanded_concat]
    exact ⟨fun hall => ⟨hall, intents, rfl⟩, And.left⟩

/-- **A trade that is executed**: it is handed over exactly when the condition is met, and
the invariant stays. -/
theorem filled_spec [DecidableEq σ] {h : Host σ} (hs : Sound h) (id : ℕ) (event : FillEvent)
    (closes : Bool) (answer : Except Exc (List Intent)) :
    Sound (h.filled cfg id event closes answer) ∧ ((h.filled cfg id event closes answer).AllHanded ↔
        h.AllHanded ∧ FillReaches cfg h (.filled id event closes answer)) := by
  unfold Host.filled
  split
  · rename_i hnone
    exact ⟨hs, by simp [FillReaches, hnone]⟩
  rename_i o ho
  split_ifs with hnew
  swap
  · refine ⟨hs, ⟨fun hall => ⟨hall, fun o' ho' hopen hmem => ?_⟩, And.left⟩⟩
    obtain rfl := some.inj (ho.symm.trans ho')
    exact absurd ⟨hopen, hmem⟩ hnew
  -- the condition, for the order that is there
  have hcond : FillReaches cfg h (.filled id event closes answer) ↔
      h.router.submitted id ≠ none ∧ event.commission.Usable cfg event.lastPx ∧
        visible (event.ts * 1000) h.router.causalStates ≠ [] ∧ ∃ intents, answer = .ok intents :=
    ⟨fun hc => hc o ho hnew.1 hnew.2, fun hc _ _ _ _ => hc⟩
  rw [hcond]
  unfold Host.onOrderFilled
  split
  · rename_i hnone
    have hnone : h.router.submitted id = none := hnone
    refine ⟨sound_execute hs hnone _ closes, ?_⟩
    simp [hnone, not_allHanded_execute hs id event.tradeId closes]
  rename_i s hsub
  have hsub : h.router.submitted id = some s := hsub
  have hfresh : event.tradeId ∉ s.fillIds := by
    obtain ⟨o', ho', htrades⟩ := hs.tracks id s hsub
    rw [← htrades, ← some.inj (ho.symm.trans ho')]
    exact hnew.2
  rw [if_neg hfresh]
  have hnoted := sound_noteFill hs ho hsub event.tradeId closes
  have hconvert := @convert_eq_ok_iff _ cfg id s h.router.causalStates event
  simp only [hsub, ne_eq, reduceCtorEq, not_false_eq_true, true_and]
  cases hc : event.convert cfg id s (h.execute id event.tradeId closes).router.causalStates with
  | error e =>
    have hunusable := mt hconvert.mpr (by rintro ⟨r, hr⟩; exact nomatch hr.symm.trans hc)
    refine ⟨sound_raise hnoted, iff_of_false (not_allHanded_raise e _) ?_⟩
    rintro ⟨-, husable, hvisible, -⟩
    exact hunusable ⟨husable, hvisible⟩
  | ok r =>
    obtain ⟨fill, state⟩ := r
    obtain ⟨horder, hmem⟩ := convert_eq_ok hc
    obtain ⟨husable, hvisible⟩ := hconvert.mp ⟨_, hc⟩
    obtain ⟨hsound, hiff⟩ := handOver_spec cfg hnoted hs.length rfl (by rw [horder]; rfl) rfl hmem
      answer
    exact ⟨hsound, by rw [hiff]; simp [husable, hvisible]⟩

/-- **The running method goes on**: in a handler it has to go through. -/
theorem resume_spec {h : Host σ} (hs : Sound h) : Sound (h.resume cfg) ∧
      ((h.resume cfg).AllHanded ↔ h.AllHanded ∧ FillReaches cfg h .resume) := by
  unfold Host.resume
  split
  · rename_i hstack
    refine ⟨hs, ⟨fun hall => ⟨hall, fun f hf => ?_⟩, And.left⟩⟩
    rw [hstack] at hf
    exact nomatch hf
  rename_i f rest hstack
  have hpop : Keeps h { h with stack := rest } := ⟨rfl, rfl, rfl, rfl, fun ht => ht⟩
  -- the stack is no matter for what the piece needs
  have hclear : f.task.Clear cfg { h with stack := rest } ↔ f.task.Clear cfg h := by
    cases f.task <;> exact Iff.rfl
  have hcond : FillReaches cfg h .resume ↔ (f.inHandler = true → f.task.Clear cfg h) := by
    refine ⟨fun hc => hc f (by rw [hstack]; rfl), fun hc f' hf' => ?_⟩
    rw [hstack] at hf'
    exact some.inj hf' ▸ hc
  rw [hcond]
  by_cases hc : f.task.Clear cfg h
  · have hkeeps := hpop.trans (perform_keeps f.inHandler (hclear.mpr hc))
    exact ⟨hkeeps.sound hs, hkeeps.allHanded_iff.trans ⟨fun hall => ⟨hall, fun _ => hc⟩, And.left⟩⟩
  · obtain ⟨e, he⟩ := perform_raises f.inHandler (mt hclear.mp hc)
    rw [he]
    refine ⟨sound_raise (hpop.sound hs), ?_⟩
    cases hb : f.inHandler with
    | false =>
      rw [(raise_false_keeps e _).allHanded_iff, hpop.allHanded_iff]
      simp
    | true => exact iff_of_false (not_allHanded_raise e _) fun hall => hc (hall.2 rfl)

/-! ## Runs -/

/-- **What one step does**: the invariant stays, and everything is handed over after it
exactly when it was before and the step meets the condition. -/
theorem step_spec [DecidableEq σ] {h : Host σ} (hs : Sound h) (event : Event σ) :
    Sound (step cfg h event) ∧
      ((step cfg h event).AllHanded ↔ h.AllHanded ∧ FillReaches cfg h event) := by
  have of_keeps : ∀ {h' : Host σ}, Keeps h h' → FillReaches cfg h event →
      Sound h' ∧ (h'.AllHanded ↔ h.AllHanded ∧ FillReaches cfg h event) := fun k hc =>
    ⟨k.sound hs, k.allHanded_iff.trans ⟨fun hall => ⟨hall, hc⟩, And.left⟩⟩
  cases event with
  | decide state intents =>
    by_cases hidle : h.stack = []
    · rw [show step cfg h (.decide state intents) = h.submitDecision cfg false state intents from
        if_pos hidle]
      obtain ⟨hsound, hiff⟩ := sound_submitDecision cfg hs state intents
      exact ⟨hsound, hiff.trans ⟨fun hall => ⟨hall, trivial⟩, And.left⟩⟩
    · rw [show step cfg h (.decide state intents) = h from if_neg hidle]
      exact of_keeps (Keeps.refl h) trivial
  | resume => exact resume_spec cfg hs
  | accepted id => exact of_keeps (accepted_keeps id h) trivial
  | filled id event closes answer => exact filled_spec cfg hs id event closes answer
  | redelivered id event answer =>
    rw [show step cfg h (.redelivered id event answer) = h from
      redelivered_eq cfg hs id event answer]
    exact of_keeps (Keeps.refl h) trivial
  | canceled id => exact of_keeps (ended_keeps cfg id .canceled h) trivial
  | rejected id => exact of_keeps (ended_keeps cfg id .rejected h) trivial

/-- **Fills reach the strategy once.** After any run of decisions and venue events, with
events at any point between the calls of the venue, every trade has been handed to
`port.on_fill` once and no handler has raised, exactly when every step met the condition;
and in any case a repeated delivery of a trade changes nothing. -/
theorem fills_handed_once [DecidableEq σ] (cfg : Setup) (events : List (Event σ)) :
    ((Machine.run (step cfg) Host.start events).AllHanded ↔
      Machine.Meets (step cfg) (FillReaches cfg) Host.start events) ∧
    ∀ id event answer,
      step cfg (Machine.run (step cfg) Host.start events) (.redelivered id event answer) =
        Machine.run (step cfg) Host.start events := by
  have hsound : Sound (Machine.run (step cfg) Host.start events) :=
    Machine.inv_run Sound (fun _ event hs => (step_spec cfg hs event).1) sound_start events
  constructor
  · rw [Machine.run_iff_meets Sound (fun _ event hs => (step_spec cfg hs event).1)
      (fun _ event hs => (step_spec cfg hs event).2) sound_start events]
    exact and_iff_right ⟨rfl, rfl⟩
  · intro id event answer
    exact redelivered_eq cfg hsound id event answer

/-! ## A fill after `CANCEL_ALL` -/

/-- A router whose instrument does not round. -/
def plainSetup : Setup where
  strategyName := "s0"
  makeQty := fun q => q
  makePrice := fun p => p
  baseCurrency := "BTC"
  quoteCurrency := "USDT"
  cached := true
  isoformat := toString

/-- An entry is submitted and accepted, `CANCEL_ALL` asks for its cancellation, and a part
of it is filled before the venue has answered. -/
def fillAfterCancelAll : List (Event Unit) :=
  [.decide ⟨0, 0, ()⟩ [⟨.marketEnter, some .buy, [], [], none, some 1, "entry"⟩], .resume,
    .accepted 0, .decide ⟨0, 0, ()⟩ [⟨.cancelAll, none, [], [], none, none, "flat"⟩], .resume,
    .resume, .filled 0 ⟨"t1", 1000000, .buy, 100, 1 / 2, .absent⟩ false (.ok [])]

/-- **The fill is lost**: nothing is handed over for the trade. -/
theorem fill_after_cancelAll_lost :
    (Machine.run (step plainSetup) Host.start fillAfterCancelAll).executed = [(0, "t1")] ∧
      (Machine.run (step plainSetup) Host.start fillAfterCancelAll).handed.map handedKey = [] ∧
      ¬ (Machine.run (step plainSetup) Host.start fillAfterCancelAll).AllHanded := by
  decide +kernel

end Qt.Nautilus
