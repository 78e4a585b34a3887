import QuantTrading.IndicatorStates
import QuantTrading.Lib.Slice

/-!
# Native decisions over a frame

`native_decision` of `BtcqtNativeStrategy` in `qt.strategy_ports.btcqt`, and the calls that the
adapter of `qt.nautilus.adapter` makes of it. A call replays every bar since the last call through
builder, engine and strategy, and returns the decision of the newest one.

`decisions_newest` compares the calls at any times with calls after every bar: the decisions
returned are those of the bars that are the newest of a call. So the intents are the same exactly
when the bars in between have none, which is how the adapter leaves out the bars before the start of
its decisions (`adapter_decisions`). The engine and the strategy are any machines that may raise.
-/

namespace Qt.StrategyPorts.Btcqt

open Except List EStateM

/-! ## The strategy -/

/-- A row of the frame, which opens at a nanosecond. -/
structure FrameRow where
  openedAt : ℤ
  openPrice : Value
  high : Value
  low : Value
  close : Value
  volume : Value

def FrameRow.candle (num : Numerals) (row : FrameRow) : Except Exc Candle := do
  let openPrice ← finiteFloat num (some row.openPrice) "open"
  let high ← finiteFloat num (some row.high) "high"
  let low ← finiteFloat num (some row.low) "low"
  let close ← finiteFloat num (some row.close) "close"
  let volume ← finiteFloat num (some row.volume) "volume"
  return ⟨row.openedAt.tdiv 1000000, openPrice, high, low, close, volume⟩

/-- The frame, whose index increases. -/
structure BarFrame where
  rows : List FrameRow
  increasing : rows.Pairwise fun r q => r.openedAt < q.openedAt

/-- `BtcqtStrategyPort`: what it needs of its metadata, its engine and its strategy. -/
structure StrategyPort (σ τ M I : Type) where
  strategyId : String
  requiredData : List String
  engine : IndicatorEngine σ M
  onState : M → ℚ → EStateM Exc τ (List I)

structure PortDecision (M I : Type) where
  strategyId : String
  timestamp : ℤ
  state : CausalState M
  intents : List I

variable {σ τ M I : Type}

/-- `decide` of the port, for a timeline of one state. -/
def StrategyPort.decide (port : StrategyPort σ τ M I) (state : CausalState M) (timestamp : ℤ)
    (equity : ℚ) : EStateM Exc τ (PortDecision M I) := fun t =>
  let missing := port.requiredData.filter fun id => id ∉ state.inputs.map DataVersion.datasetId
  if equity ≤ 0 then .error (.valueError "equity must be finite and positive") t
  else if timestamp < state.observedAt ∨ timestamp < state.availableAt then
    .error (.missingRequiredData "no causal btc-qt state is available at the decision") t
  else if missing ≠ [] then
    .error (.missingRequiredData (port.strategyId ++ " requires " ++ ", ".intercalate missing
      ++ "; no zero-filled substitute is allowed")) t
  else
    match port.onState state.state equity t with
    | .error e t => .error e t
    | .ok intents t => .ok ⟨port.strategyId, timestamp, state, intents⟩ t

/-- What a native strategy is built with, and the frame and the equity that it is called with. -/
structure NativeSetup (σ τ M I : Type) where
  port : StrategyPort σ τ M I
  datasetVersion : String
  bundle : CausalBundle
  num : Numerals
  frame : BarFrame
  equity : ℚ

/-- What a native strategy changes. -/
structure Native (σ τ : Type) where
  builder : Builder σ
  strategy : τ
  queuedAuxiliary : Bool
  lastCandleOpen : Option ℤ

/-- A native strategy that was not called. -/
def Native.new (s : σ) (t : τ) : Native σ τ := ⟨Builder.new s, t, false, none⟩

namespace NativeSetup

variable (setup : NativeSetup σ τ M I)

/-- The version of a stream of which something is visible. -/
def streamAt (closeAt : ℤ) (stream version : String) : Except Exc (Option DataVersion) :=
  match setup.bundle.records.lookup stream with
  | none => .error (.keyError stream)
  | some records =>
    .ok (((records.map CausalRecord.availableAt).filter (· ≤ closeAt)).max?.map fun availableAt =>
      ⟨stream, version, availableAt⟩)

def inputsAt (closeAt : ℤ) : Except Exc (List DataVersion) := do
  let streams ← setup.bundle.versions.mapM fun (stream, version) =>
    setup.streamAt closeAt stream version
  let eventState := if "event_state" ∈ setup.port.requiredData then
    [⟨"event_state", setup.datasetVersion, closeAt⟩] else []
  return ⟨"ohlcv_1m", setup.datasetVersion, closeAt⟩ :: eventState ++ streams.reduceOption

/-- One round of the loop of `native_decision`. -/
def replayBar (row : FrameRow) : EStateM Exc (Native σ τ) (PortDecision M I) := fun s =>
  match row.candle setup.num with
  | .error e => .error e s
  | .ok c =>
    match setup.inputsAt (1000 * c.closeTs) with
    | .error e => .error e s
    | .ok inputs =>
      match Builder.onCandle setup.port.engine c (1000 * c.closeTs) inputs s.builder with
      | .error e b => .error e { s with builder := b }
      | .ok state b =>
        match setup.port.decide state (1000 * c.closeTs) setup.equity s.strategy with
        | .error e t => .error e { s with builder := b, strategy := t }
        | .ok decision t => .ok decision
          { s with builder := b, strategy := t, lastCandleOpen := some row.openedAt }

/-- The loop of `native_decision`: each decision takes the place of the one before. -/
def replay : List FrameRow → Option (PortDecision M I) →
    EStateM Exc (Native σ τ) (Option (PortDecision M I))
  | [], decision => pure decision
  | row :: rows, _ => do
    let decision ← setup.replayBar row
    replay rows (some decision)

/-- The bars since the last call that open by the cutoff. -/
def pending (s : Native σ τ) (cutoff : ℤ) : List FrameRow :=
  let stop := setup.frame.rows.countP fun row => row.openedAt ≤ cutoff
  let start := match s.lastCandleOpen with
    | none => 0
    | some last => setup.frame.rows.countP fun row => row.openedAt ≤ last
  (setup.frame.rows.take stop).drop start

/-- The records are queued once. -/
def ensureQueued : EStateM Exc (Native σ τ) Unit := fun s =>
  if s.queuedAuxiliary then .ok () s
  else
    match queueAuxiliaryRecords setup.num setup.bundle s.builder with
    | .error e b => .error e { s with builder := b }
    | .ok () b => .ok () { s with builder := b, queuedAuxiliary := true }

/-- A decision, if a bar was replayed. -/
def replayed : Option (PortDecision M I) → EStateM Exc (Native σ τ) (PortDecision M I)
  | none => throw (.valueError
      "btc-qt native decision attempted to replay an already processed candle")
  | some decision => pure decision

def nativeDecision (timestamp : ℤ) : EStateM Exc (Native σ τ) (PortDecision M I) := fun s =>
  if setup.equity ≤ 0 then
    .error (.valueError "native portfolio equity must be finite and positive") s
  else if setup.pending s timestamp = [] ∧ s.lastCandleOpen = none then
    .error (.missingRequiredData "btc-qt native decision has no completed 1m candle") s
  else
    (setup.ensureQueued >>= fun _ => setup.replay (setup.pending s timestamp) none >>= replayed) s

/-- **The decisions that calls return**, one call after the other. -/
def decisions : List ℤ → Native σ τ → List (PortDecision M I)
  | [], _ => []
  | timestamp :: times, s =>
    match setup.nativeDecision timestamp s with
    | .ok decision s' => decision :: decisions times s'
    | .error _ s' => decisions times s'

end NativeSetup

/-! ## Steps -/

section Steps

variable (engine : IndicatorEngine σ M)

theorem Builder.answer_last (c : Candle) (availableAt : ℤ) (inputs : List DataVersion)
    (b : Builder σ) : (left (Builder.answer engine c availableAt inputs b)).lastCandleCloseMs
      = b.lastCandleCloseMs := by
  unfold Builder.answer
  split
  · rfl
  · dsimp only
    split <;> rfl

/-- After a candle, returned or raised, no candle that closes by then is taken. -/
theorem Builder.onCandle_last (c : Candle) (inputs : List DataVersion) (b : Builder σ) :
    ∃ last ∈ (left (Builder.onCandle engine c (1000 * c.closeTs) inputs b)).lastCandleCloseMs,
      c.closeTs ≤ last := by
  unfold Builder.onCandle
  rw [if_neg (lt_irrefl _)]
  split_ifs with hlate
  · exact hlate
  · rw [Builder.answer_last]
    exact ⟨c.closeTs, rfl, le_rfl⟩

variable {b : Builder σ}

/-- A candle that closes too early raises, and changes nothing. -/
theorem Builder.onCandle_of_late {c : Candle} (h : ∃ last ∈ b.lastCandleCloseMs, c.closeTs ≤ last)
    (inputs : List DataVersion) :
    ∃ e, Builder.onCandle engine c (1000 * c.closeTs) inputs b = .error e b := by
  unfold Builder.onCandle
  rw [if_neg (lt_irrefl _), if_pos h]
  exact ⟨_, rfl⟩

/-- Records that cannot be queued cannot be queued in any state. -/
theorem queueAuxiliaryRecords_raises {num : Numerals} {bundle : CausalBundle} {b' : Builder σ}
    {e : Exc} (h : queueAuxiliaryRecords num bundle b = .error e b') (b₂ : Builder σ) :
    ∃ e' b₂', queueAuxiliaryRecords num bundle b₂ = .error e' b₂' := by
  refine forM_error (fun {s b b' e} h b₂ => ?_) h b₂
  refine forM_error (fun {r b b' e} h b₂ => ?_) h b₂
  unfold queueAuxiliaryRecord at h ⊢
  cases hevent : r.event num s.1 with
  | error e => exact ⟨e, b₂, rfl⟩
  | ok event =>
    rw [hevent] at h
    dsimp only at h ⊢
    unfold Builder.queue at h ⊢
    split_ifs at h ⊢
    exact ⟨_, _, rfl⟩

end Steps

namespace NativeSetup

variable {setup : NativeSetup σ τ M I} {s s' : Native σ τ}

/-- A row at which every call raises: its candle cannot be read, its inputs are not there, or a
candle that closes no earlier has been taken. -/
def Blocked (setup : NativeSetup σ τ M I) (s : Native σ τ) (row : FrameRow) : Prop :=
  ∀ c, row.candle setup.num = .ok c → ∀ inputs, setup.inputsAt (1000 * c.closeTs) = .ok inputs →
    ∃ last ∈ s.builder.lastCandleCloseMs, c.closeTs ≤ last

/-- **One bar**: it is the last that was replayed, or it is blocked from then on. -/
theorem replayBar_spec (setup : NativeSetup σ τ M I) (row : FrameRow) (s : Native σ τ) :
    match setup.replayBar row s with
    | .ok _ s' => s'.lastCandleOpen = some row.openedAt ∧ s'.queuedAuxiliary = s.queuedAuxiliary
    | .error _ s' => setup.Blocked s' row ∧ s'.lastCandleOpen = s.lastCandleOpen
      ∧ s'.queuedAuxiliary = s.queuedAuxiliary := by
  unfold replayBar
  cases hcandle : row.candle setup.num with
  | error e => exact ⟨fun c hc => (nomatch hcandle.symm.trans hc), rfl, rfl⟩
  | ok c =>
    dsimp only
    cases hinputs : setup.inputsAt (1000 * c.closeTs) with
    | error e =>
      refine ⟨fun c' hc' inputs hi => ?_, rfl, rfl⟩
      obtain rfl := ok.inj (hcandle.symm.trans hc')
      exact nomatch hinputs.symm.trans hi
    | ok inputs =>
      dsimp only
      have hlast := Builder.onCandle_last setup.port.engine c inputs s.builder
      generalize hresult : Builder.onCandle setup.port.engine c (1000 * c.closeTs) inputs
        s.builder = result at hlast ⊢
      have hblocked : ∀ s' : Native σ τ, s'.builder = left result → setup.Blocked s' row := by
        intro s' hs' c' hc' _ _
        obtain rfl := ok.inj (hcandle.symm.trans hc')
        rw [hs']
        exact hlast
      cases result with
      | error e b => exact ⟨hblocked _ rfl, rfl, rfl⟩
      | ok state b =>
        dsimp only
        cases setup.port.decide state (1000 * c.closeTs) setup.equity s.strategy with
        | error e t => exact ⟨hblocked _ rfl, rfl, rfl⟩
        | ok decision t => exact ⟨rfl, rfl⟩

/-- At a row that is blocked the call raises, and changes nothing. -/
theorem replayBar_of_blocked {row : FrameRow} (h : setup.Blocked s row) :
    ∃ e, setup.replayBar row s = .error e s := by
  unfold replayBar
  cases hcandle : row.candle setup.num with
  | error e => exact ⟨e, rfl⟩
  | ok c =>
    dsimp only
    cases hinputs : setup.inputsAt (1000 * c.closeTs) with
    | error e => exact ⟨e, rfl⟩
    | ok inputs =>
      obtain ⟨e, he⟩ := Builder.onCandle_of_late setup.port.engine
        (h c hcandle inputs hinputs) inputs
      dsimp only
      rw [he]
      exact ⟨e, rfl⟩

/-- The decisions of bars one after the other, up to the first that raises. -/
def bars (setup : NativeSetup σ τ M I) :
    List FrameRow → Native σ τ → List (FrameRow × PortDecision M I)
  | [], _ => []
  | row :: rows, s =>
    match setup.replayBar row s with
    | .ok decision s' => (row, decision) :: bars setup rows s'
    | .error _ _ => []

theorem bars_prefix (rows : List FrameRow) (s : Native σ τ) :
    (setup.bars rows s).map Prod.fst <+: rows := by
  induction rows generalizing s with
  | nil => exact prefix_rfl
  | cons row rows ih =>
    unfold bars
    cases setup.replayBar row s with
    | error e s' => exact nil_prefix
    | ok decision s' => exact (prefix_cons_inj row).mpr (ih s')

variable {d : Option (PortDecision M I)} {rows : List FrameRow}

/-- A batch that returns has the decisions of its bars, of which it returns the last. -/
theorem replay_ok {d' : Option (PortDecision M I)} (h : setup.replay rows d s = .ok d' s') :
    ∃ ds : List (FrameRow × PortDecision M I), ds.map Prod.fst = rows
      ∧ d' = (ds.getLast?.map Prod.snd).or d
      ∧ s'.lastCandleOpen = (rows.getLast?.map FrameRow.openedAt).or s.lastCandleOpen
      ∧ s'.queuedAuxiliary = s.queuedAuxiliary
      ∧ ∀ later, setup.bars (rows ++ later) s = ds ++ setup.bars later s' := by
  induction rows generalizing s d with
  | nil =>
    cases h
    exact ⟨[], rfl, rfl, rfl, rfl, fun _ => rfl⟩
  | cons row rows ih =>
    have hspec := setup.replayBar_spec row s
    change (setup.replayBar row >>= fun d => setup.replay rows (some d)) s = _ at h
    cases hbar : setup.replayBar row s with
    | error e s₁ => exact nomatch (bind_of_error hbar).symm.trans h
    | ok decision s₁ =>
      rw [hbar] at hspec
      rw [bind_of_ok hbar] at h
      obtain ⟨ds, rfl, hd, hopen, hqueued, hbars⟩ := ih h
      refine ⟨(row, decision) :: ds, rfl, ?_, ?_, hqueued.trans hspec.2, fun later => ?_⟩
      · rw [hd, getLast?_cons]
        cases ds.getLast? <;> rfl
      · rw [hopen, hspec.1, getLast?_cons]
        cases (ds.map Prod.fst).getLast? <;> rfl
      · show setup.bars (row :: (ds.map Prod.fst ++ later)) s = _
        rw [bars, hbar, cons_append, ← hbars later]

/-- A batch that raises does so at a row that is blocked from then on. -/
theorem replay_error {e : Exc} (h : setup.replay rows d s = .error e s') :
    ∃ (ds : List (FrameRow × PortDecision M I)) (row : FrameRow) (rest : List FrameRow),
      rows = ds.map Prod.fst ++ row :: rest ∧ setup.Blocked s' row
      ∧ s'.lastCandleOpen = ((ds.map Prod.fst).getLast?.map FrameRow.openedAt).or s.lastCandleOpen
      ∧ s'.queuedAuxiliary = s.queuedAuxiliary ∧ ∀ later, setup.bars (rows ++ later) s = ds := by
  induction rows generalizing s d with
  | nil => exact nomatch h
  | cons row rows ih =>
    have hspec := setup.replayBar_spec row s
    change (setup.replayBar row >>= fun d => setup.replay rows (some d)) s = _ at h
    cases hbar : setup.replayBar row s with
    | error e₁ s₁ =>
      rw [hbar] at hspec
      cases (bind_of_error hbar).symm.trans h
      refine ⟨[], row, rows, rfl, hspec.1, hspec.2.1, hspec.2.2, fun later => ?_⟩
      rw [cons_append, bars, hbar]
    | ok decision s₁ =>
      rw [hbar] at hspec
      rw [bind_of_ok hbar] at h
      obtain ⟨ds, row', rest, rfl, hblocked, hopen, hqueued, hbars⟩ := ih h
      refine ⟨(row, decision) :: ds, row', rest, rfl, hblocked, ?_, hqueued.trans hspec.2,
        fun later => ?_⟩
      · rw [hopen, hspec.1, map_cons, getLast?_cons]
        cases (ds.map Prod.fst).getLast? <;> rfl
      · rw [cons_append, bars, hbar]
        exact congrArg ((row, decision) :: ·) (hbars later)


/-! ## Calls -/

section Calls

variable {past now later rest : List FrameRow} {t : ℤ} {times : List ℤ}

/-- The bars up to `past` were replayed. -/
structure At (setup : NativeSetup σ τ M I) (s : Native σ τ) (past rest : List FrameRow) : Prop where
  rows : setup.frame.rows = past ++ rest
  opened : s.lastCandleOpen = past.getLast?.map FrameRow.openedAt

theorem At.next (h : setup.At s past (now ++ later))
    (hopen : s'.lastCandleOpen = (now.getLast?.map FrameRow.openedAt).or s.lastCandleOpen) :
    setup.At s' (past ++ now) later where
  rows := h.rows.trans (append_assoc past now later).symm
  opened := by rw [hopen, h.opened, getLast?_append, Option.map_or]

theorem split_at (h : rest.Pairwise fun r q => r.openedAt < q.openedAt) (t : ℤ) :
    ∃ now later, rest = now ++ later ∧ (∀ r ∈ now, r.openedAt ≤ t)
      ∧ ∀ r ∈ later, t < r.openedAt := by
  induction rest with
  | nil => exact ⟨[], [], rfl, forall_mem_nil _, forall_mem_nil _⟩
  | cons r rest ih =>
    by_cases hr : r.openedAt ≤ t
    · obtain ⟨now, later, rfl, hnow, hlater⟩ := ih h.of_cons
      exact ⟨r :: now, later, rfl, forall_mem_cons.mpr ⟨hr, hnow⟩, hlater⟩
    · refine ⟨[], r :: rest, rfl, forall_mem_nil _,
        forall_mem_cons.mpr ⟨not_le.mp hr, fun q hq => ?_⟩⟩
      exact (not_le.mp hr).trans (rel_of_pairwise_cons h hq)

theorem countP_le {first second : List FrameRow} (hfirst : ∀ r ∈ first, r.openedAt ≤ t)
    (hsecond : ∀ r ∈ second, t < r.openedAt) :
    (first ++ second).countP (fun r => r.openedAt ≤ t) = first.length := by
  rw [countP_append, countP_eq_length.mpr (by simpa using hfirst),
    countP_eq_zero.mpr (by simpa using hsecond), Nat.add_zero]

/-- A call replays the bars that are left up to its time. -/
theorem pending_eq (h : setup.At s past (now ++ later)) (hpast : ∀ r ∈ past, r.openedAt ≤ t)
    (hnow : ∀ r ∈ now, r.openedAt ≤ t) (hlater : ∀ r ∈ later, t < r.openedAt) :
    setup.pending s t = now := by
  have hsorted := h.rows ▸ setup.frame.increasing
  have hstop : setup.frame.rows.countP (fun row => row.openedAt ≤ t) = (past ++ now).length := by
    rw [h.rows, ← append_assoc]
    exact countP_le (forall_mem_append.mpr ⟨hpast, hnow⟩) hlater
  have hstart : (match s.lastCandleOpen with
      | none => 0
      | some last => setup.frame.rows.countP fun row => row.openedAt ≤ last) = past.length := by
    rw [h.opened]
    induction past using List.reverseRecOn with
    | nil => rfl
    | append_singleton past r _ =>
      rw [getLast?_concat, h.rows]
      have hbefore := (pairwise_append.mp (pairwise_append.mp hsorted).1).2.2
      refine countP_le (forall_mem_append.mpr
        ⟨fun q hq => (hbefore q hq r (mem_singleton.mpr rfl)).le, ?_⟩) fun q hq => ?_
      · exact forall_mem_singleton.mpr le_rfl
      · exact (pairwise_append.mp hsorted).2.2 r (by simp) q hq
  unfold pending
  rw [hstop, hstart, h.rows, ← append_assoc]
  dsimp only
  rw [take_left, drop_left]

theorem ensureQueued_of_queued (h : s.queuedAuxiliary = true) :
    setup.ensureQueued s = .ok () s := by
  rw [ensureQueued, if_pos h]

/-- A call with no bar to replay raises, and changes nothing. -/
theorem nativeDecision_of_nil (hequity : 0 < setup.equity) (hqueued : s.queuedAuxiliary = true)
    (h : setup.pending s t = []) : ∃ e, setup.nativeDecision t s = .error e s := by
  unfold nativeDecision
  rw [if_neg (not_le.mpr hequity), h]
  split_ifs
  · exact ⟨_, rfl⟩
  · exact ⟨_, (bind_of_ok (ensureQueued_of_queued hqueued)).trans rfl⟩

theorem nativeDecision_of_ne_nil (hequity : 0 < setup.equity) (hqueued : s.queuedAuxiliary = true)
    (h : setup.pending s t ≠ []) :
    setup.nativeDecision t s = (setup.replay (setup.pending s t) none >>= replayed) s := by
  unfold nativeDecision
  rw [if_neg (not_le.mpr hequity), if_neg fun hnil => h hnil.1]
  exact bind_of_ok (ensureQueued_of_queued hqueued)

variable {row : FrameRow}

/-- With the bars that are left blocked at the first, no later call returns. -/
theorem decisions_of_blocked (h : setup.At s past (row :: rest)) (hblocked : setup.Blocked s row)
    (hequity : 0 < setup.equity) (hqueued : s.queuedAuxiliary = true)
    (htimes : ∀ t ∈ times, row.openedAt ≤ t) : setup.decisions times s = [] := by
  induction times with
  | nil => rfl
  | cons t times ih =>
    have hsorted := pairwise_append.mp (h.rows ▸ setup.frame.increasing)
    obtain ⟨now, later, hrest, hnow, hlater⟩ := split_at hsorted.2.1.of_cons t
    have hrow : row.openedAt ≤ t := htimes t mem_cons_self
    have hpending : setup.pending s t = row :: now := by
      have hat : setup.At s past (row :: now ++ later) := by rwa [cons_append, ← hrest]
      refine pending_eq hat (fun r hr => ?_) (forall_mem_cons.mpr ⟨hrow, hnow⟩) hlater
      exact (hsorted.2.2 r hr row mem_cons_self).le.trans hrow
    obtain ⟨e, he⟩ := replayBar_of_blocked hblocked
    have hraises : setup.nativeDecision t s = .error e s := by
      rw [nativeDecision_of_ne_nil hequity hqueued (by rw [hpending]; exact cons_ne_nil _ _),
        hpending]
      exact bind_of_error (bind_of_error he)
    rw [decisions, hraises]
    exact ih fun t ht => htimes t (mem_cons_of_mem _ ht)

/-! ## The newest bars -/

/-- **The bar is the newest at one of the times.** -/
def Newest (setup : NativeSetup σ τ M I) (times : List ℤ) (row : FrameRow) : Prop :=
  ∃ t ∈ times, row.openedAt ≤ t ∧ ∀ r ∈ setup.frame.rows, r.openedAt ≤ t → r.openedAt ≤ row.openedAt
deriving Decidable

theorem newest_cons (h : t < row.openedAt) :
    setup.Newest (t :: times) row ↔ setup.Newest times row := by
  refine ⟨fun ⟨u, hu, hle, hall⟩ => ?_, fun ⟨u, hu, h⟩ => ⟨u, mem_cons_of_mem t hu, h⟩⟩
  rcases mem_cons.mp hu with rfl | hu
  · exact absurd hle (not_le.mpr h)
  · exact ⟨u, hu, hle, hall⟩

/-- A bar before another one that opens by the first of the times is not the newest. -/
theorem not_newest (times : List ℤ) {r : FrameRow} (hr : r ∈ setup.frame.rows)
    (hlt : row.openedAt < r.openedAt) (htimes : ∀ u ∈ times, r.openedAt ≤ u) :
    ¬ setup.Newest times row :=
  fun ⟨u, hu, _, hall⟩ => absurd (hall r hr (htimes u hu)) (not_le.mpr hlt)

/-- **Calls return the decisions of the bars that are the newest at one of them.** -/
theorem decisions_eq (hequity : 0 < setup.equity) (hqueued : s.queuedAuxiliary = true)
    (h : setup.At s past rest) (htimes : times.Pairwise (· < ·))
    (hpast : ∀ t ∈ times, ∀ r ∈ past, r.openedAt ≤ t) : setup.decisions times s
      = ((setup.bars rest s).filter fun p => setup.Newest times p.1).map Prod.snd := by
  induction times generalizing s past rest with
  | nil =>
    have hnone : ∀ p ∈ setup.bars rest s, ¬ decide (setup.Newest [] p.1) = true := by
      simp [Newest]
    rw [filter_eq_nil_iff.mpr hnone]
    rfl
  | cons t times ih =>
    have hlt : ∀ u ∈ times, t < u := (pairwise_cons.mp htimes).1
    have hpastt := hpast t mem_cons_self
    have hsorted := pairwise_append.mp (h.rows ▸ setup.frame.increasing)
    obtain ⟨now, later, rfl, hnow, hlater⟩ := split_at hsorted.2.1 t
    have hpending := pending_eq h hpastt hnow hlater
    -- of the bars that open later, the same are the newest of a call as without this one
    have hcongr : ∀ s', (setup.bars later s').filter (fun p => setup.Newest (t :: times) p.1)
        = (setup.bars later s').filter fun p => setup.Newest times p.1 := by
      refine fun s' => filter_congr fun p hp => decide_eq_decide.mpr (newest_cons ?_)
      exact hlater p.1 ((setup.bars_prefix later s').subset (mem_map_of_mem hp))
    rcases eq_nil_or_concat' now with rfl | ⟨init, row, rfl⟩
    · obtain ⟨e, he⟩ := nativeDecision_of_nil hequity hqueued hpending
      rw [decisions, he]
      exact (ih hqueued h htimes.of_cons fun u hu => hpast u (mem_cons_of_mem t hu)).trans
        (congrArg _ (hcongr s).symm)
    have hne : setup.pending s t ≠ [] := by
      rw [hpending]
      exact concat_ne_nil row init
    have hcall := nativeDecision_of_ne_nil hequity hqueued hne
    rw [hpending] at hcall
    have hrows : setup.frame.rows = past ++ (init ++ [row] ++ later) := h.rows
    have hfirst : ∀ u ∈ t :: times, t ≤ u := forall_mem_cons.mpr ⟨le_rfl, fun u hu => (hlt u hu).le⟩
    cases hreplay : setup.replay (init ++ [row]) none s with
    | error e s' =>
      obtain ⟨ds, row', rest', hds, hblocked, hopen, hqueued', hbars⟩ := replay_error hreplay
      have hrow' : row' ∈ init ++ [row] := by rw [hds]; simp
      rw [bind_of_error hreplay] at hcall
      rw [decisions, hcall, hbars]
      have hat : setup.At s' (past ++ ds.map Prod.fst) (row' :: (rest' ++ later)) := by
        refine At.next (s := s) ?_ hopen
        rw [← cons_append, ← append_assoc, ← hds]
        exact h
      have hnone : ds.filter (fun p => setup.Newest (t :: times) p.1) = [] := by
        refine filter_eq_nil_iff.mpr fun p hp => ?_
        have hbefore := (pairwise_append.mp (hds ▸ (pairwise_append.mp hsorted.2.1).1)).2.2
        simpa using not_newest (t :: times)
          (hrows ▸ mem_append_right past (mem_append_left later hrow'))
          (hbefore p.1 (mem_map_of_mem hp) row' mem_cons_self)
          fun u hu => (hnow row' hrow').trans (hfirst u hu)
      rw [hnone]
      exact decisions_of_blocked hat hblocked hequity (hqueued'.trans hqueued) fun u hu =>
        (hnow row' hrow').trans (hlt u hu).le
    | ok d s' =>
      obtain ⟨ds, hds, rfl, hopen, hqueued', hbars⟩ := replay_ok hreplay
      rcases eq_nil_or_concat' ds with rfl | ⟨ds, ⟨row', decision⟩, rfl⟩
      · exact absurd hds (by simp)
      rw [map_append] at hds
      obtain ⟨rfl, hrow⟩ := append_inj' hds rfl
      obtain rfl : row' = row := singleton_inj.mp hrow
      have hreturns : setup.nativeDecision t s = .ok decision s' := by
        rw [hcall, bind_of_ok hreplay, getLast?_concat]
        rfl
      rw [decisions, hreturns, hbars, filter_append, filter_append, hcongr, map_append, map_append]
      have hrow' : row' ∈ setup.frame.rows := by rw [hrows]; simp
      have hinit := (pairwise_append.mp (pairwise_append.mp hsorted.2.1).1).2.2
      have hnone : ds.filter (fun p => setup.Newest (t :: times) p.1) = [] := by
        refine filter_eq_nil_iff.mpr fun p hp => ?_
        simpa using not_newest (t :: times) hrow'
          (hinit p.1 (mem_map_of_mem hp) row' (mem_singleton.mpr rfl))
          fun u hu => (hnow row' (by simp)).trans (hfirst u hu)
      have hnewest : setup.Newest (t :: times) row' := by
        refine ⟨t, mem_cons_self, hnow row' (by simp), fun r hr hle => ?_⟩
        rw [hrows] at hr
        rcases mem_append.mp hr with hr | hr
        · exact (hsorted.2.2 r hr row' (by simp)).le
        rcases mem_append.mp hr with hr | hr
        · rcases mem_append.mp hr with hr | hr
          · exact (hinit r hr row' (mem_singleton.mpr rfl)).le
          · rw [mem_singleton.mp hr]
        · exact absurd hle (not_le.mpr (hlater r hr))
      have hlast : [(row', decision)].filter (fun p => setup.Newest (t :: times) p.1)
          = [(row', decision)] := by simp [hnewest]
      rw [hnone, hlast]
      refine congrArg (decision :: ·) (ih (hqueued'.trans hqueued) (h.next hopen) htimes.of_cons
        fun u hu r hr => ?_)
      rcases mem_append.mp hr with hr | hr
      · exact (hpastt r hr).trans (hlt u hu).le
      · exact (hnow r hr).trans (hlt u hu).le

theorem ensureQueued_spec (setup : NativeSetup σ τ M I) (s : Native σ τ) :
    match setup.ensureQueued s with
    | .ok _ s' => s'.lastCandleOpen = s.lastCandleOpen ∧ s'.queuedAuxiliary = true
    | .error _ s' => s'.queuedAuxiliary = s.queuedAuxiliary
      ∧ ∀ s₂ : Native σ τ, s₂.queuedAuxiliary = s'.queuedAuxiliary →
        ∃ e s₂', setup.ensureQueued s₂ = .error e s₂' ∧ s₂'.lastCandleOpen = s₂.lastCandleOpen
          ∧ s₂'.queuedAuxiliary = s₂.queuedAuxiliary := by
  unfold ensureQueued
  by_cases hqueued : s.queuedAuxiliary = true
  · rw [if_pos hqueued]
    exact ⟨rfl, hqueued⟩
  rw [if_neg hqueued]
  cases hrecords : queueAuxiliaryRecords setup.num setup.bundle s.builder with
  | ok u b => exact ⟨rfl, rfl⟩
  | error e b =>
    refine ⟨rfl, fun s₂ hs₂ => ?_⟩
    obtain ⟨e', b', he'⟩ := queueAuxiliaryRecords_raises hrecords s₂.builder
    rw [if_neg (hs₂ ▸ hqueued), he']
    exact ⟨e', _, rfl, rfl, rfl⟩

section

variable (hequity : 0 < setup.equity)
include hequity

theorem nativeDecision_of_none (hopen : s.lastCandleOpen = none)
    (h : setup.pending s t = []) : ∃ e, setup.nativeDecision t s = .error e s := by
  unfold nativeDecision
  rw [if_neg (not_le.mpr hequity), if_pos ⟨h, hopen⟩]
  exact ⟨_, rfl⟩

theorem nativeDecision_eq_bind (h : setup.pending s t ≠ []) :
    setup.nativeDecision t s = (setup.ensureQueued >>= fun _ =>
      setup.replay (setup.pending s t) none >>= replayed) s := by
  unfold nativeDecision
  rw [if_neg (not_le.mpr hequity), if_neg fun hnil => h hnil.1]

theorem decisions_of_ok (hopen : s.lastCandleOpen = none)
    (h : setup.ensureQueued s = .ok () s') (times : List ℤ) :
    setup.decisions times s = setup.decisions times s' := by
  have hspec := setup.ensureQueued_spec s
  rw [h] at hspec
  have hpending : ∀ t, setup.pending s' t = setup.pending s t := fun t => by
    unfold pending
    rw [hspec.1]
  induction times with
  | nil => rfl
  | cons t times ih =>
    by_cases hnil : setup.pending s t = []
    · obtain ⟨e, he⟩ := nativeDecision_of_none hequity hopen hnil
      obtain ⟨e', he'⟩ := nativeDecision_of_none hequity (hspec.1.trans hopen)
        ((hpending t).trans hnil)
      rw [decisions, decisions, he, he']
      exact ih
    · have hfirst := nativeDecision_eq_bind hequity hnil
      have hlater := nativeDecision_of_ne_nil hequity hspec.2 (hpending t ▸ hnil)
      rw [bind_of_ok h] at hfirst
      rw [hpending t] at hlater
      rw [decisions, decisions, hfirst, hlater]

/-- With records that cannot be queued, no call returns. -/
theorem decisions_of_error {e : Exc} (hopen : s.lastCandleOpen = none)
    (h : setup.ensureQueued s = .error e s') (times : List ℤ) : setup.decisions times s = [] := by
  have hspec := setup.ensureQueued_spec s
  rw [h] at hspec
  have hnever : ∀ s₂ : Native σ τ, s₂.lastCandleOpen = none →
      s₂.queuedAuxiliary = s'.queuedAuxiliary → setup.decisions times s₂ = [] := by
    induction times with
    | nil => exact fun _ _ _ => rfl
    | cons t times ih =>
      intro s₂ hopen₂ hqueued₂
      by_cases hnil : setup.pending s₂ t = []
      · obtain ⟨e, he⟩ := nativeDecision_of_none hequity hopen₂ hnil
        rw [decisions, he]
        exact ih s₂ hopen₂ hqueued₂
      · obtain ⟨e, s₃, he, hopen₃, hqueued₃⟩ := hspec.2 s₂ hqueued₂
        have hraises := nativeDecision_eq_bind hequity hnil
        rw [bind_of_error he] at hraises
        rw [decisions, hraises]
        exact ih s₃ (hopen₃.trans hopen₂) (hqueued₃.trans hqueued₂)
  exact hnever s hopen hspec.1.symm

end

/-- **All schedules return decisions of the same bars.** -/
theorem exists_bars (setup : NativeSetup σ τ M I) (s : σ) (t : τ) :
    ∃ ds : List (FrameRow × PortDecision M I), ds.map Prod.fst <+: setup.frame.rows
      ∧ ∀ times : List ℤ, times.Pairwise (· < ·) → setup.decisions times (Native.new s t)
          = (ds.filter fun p => setup.Newest times p.1).map Prod.snd := by
  have hopen : (Native.new s t).lastCandleOpen = none := rfl
  rcases le_or_gt setup.equity 0 with hequity | hequity
  · refine ⟨[], nil_prefix, fun times _ => ?_⟩
    have hraises : ∀ (u : ℤ) (s : Native σ τ), ∃ e, setup.nativeDecision u s = .error e s := by
      intro u s
      unfold nativeDecision
      rw [if_pos hequity]
      exact ⟨_, rfl⟩
    show setup.decisions times (Native.new s t) = []
    induction times with
    | nil => rfl
    | cons u times ih =>
      obtain ⟨e, he⟩ := hraises u (Native.new s t)
      rw [decisions, he]
      exact ih (List.Pairwise.of_cons ‹_›)
  cases hqueue : setup.ensureQueued (Native.new s t) with
  | error e s' =>
    exact ⟨[], nil_prefix, fun times _ => decisions_of_error hequity hopen hqueue times⟩
  | ok u s' =>
    have hspec := setup.ensureQueued_spec (Native.new s t)
    rw [hqueue] at hspec
    have hat : setup.At s' [] setup.frame.rows := ⟨rfl, hspec.1⟩
    refine ⟨setup.bars setup.frame.rows s', setup.bars_prefix _ _, fun times htimes => ?_⟩
    rw [decisions_of_ok hequity hopen hqueue]
    exact decisions_eq hequity hspec.2 hat htimes fun _ _ => forall_mem_nil _

end Calls

section Schedules

variable (setup : NativeSetup σ τ M I)

/-- A call after every bar, up to the last of the times. -/
def barTimes (times : List ℤ) : List ℤ :=
  (setup.frame.rows.map FrameRow.openedAt).filter fun o => ∃ t ∈ times, o ≤ t

/-- The calls of the adapter: one after every bar from the start of the decisions on. -/
def adapterTimes (decisionStart : Option ℤ) : List ℤ :=
  (setup.frame.rows.map FrameRow.openedAt).filter fun o => ∀ start ∈ decisionStart, start ≤ o

variable {setup}

theorem increasing_filter (p : ℤ → Bool) :
    ((setup.frame.rows.map FrameRow.openedAt).filter p).Pairwise (· < ·) :=
  (pairwise_map.mpr setup.frame.increasing).filter p

/-- With calls after bars, the newest bars are those bars. -/
theorem newest_filter {p : ℤ → Bool} {row : FrameRow} (hrow : row ∈ setup.frame.rows)
    (hp : p row.openedAt = true) :
    setup.Newest ((setup.frame.rows.map FrameRow.openedAt).filter p) row :=
  ⟨row.openedAt, mem_filter.mpr ⟨mem_map_of_mem hrow, hp⟩, le_rfl, fun _ _ h => h⟩

/-- **The decisions returned are those of the newest bars**, in the order of the bars: `ds` are the
decisions that calls after every bar return, with their bars. The intents are the same exactly when
the other bars have none. -/
theorem decisions_newest (setup : NativeSetup σ τ M I) (s : σ) (t : τ) {times : List ℤ}
    (htimes : times.Pairwise (· < ·)) : ∃ ds : List (FrameRow × PortDecision M I),
      ds.map Prod.fst <+: setup.frame.rows
      ∧ setup.decisions (setup.barTimes times) (Native.new s t) = ds.map Prod.snd
      ∧ setup.decisions times (Native.new s t)
        = (ds.filter fun p => setup.Newest times p.1).map Prod.snd
      ∧ ((setup.decisions times (Native.new s t)).flatMap PortDecision.intents
          = (setup.decisions (setup.barTimes times) (Native.new s t)).flatMap PortDecision.intents
        ↔ ∀ p ∈ ds, ¬ setup.Newest times p.1 → p.2.intents = []) := by
  obtain ⟨all, hpre, hall⟩ := exists_bars setup s t
  have hrow : ∀ p ∈ all, p.1 ∈ setup.frame.rows := fun p hp =>
    hpre.subset (mem_map_of_mem hp)
  have hbar : ∀ p ∈ all,
      setup.Newest (setup.barTimes times) p.1 ↔ ∃ t ∈ times, p.1.openedAt ≤ t := by
    refine fun p hp => ⟨fun ⟨o, ho, hle, _⟩ => ?_,
      fun h => newest_filter (hrow p hp) (decide_eq_true h)⟩
    obtain ⟨t, ht, hot⟩ := of_decide_eq_true (mem_filter.mp ho).2
    exact ⟨t, ht, hle.trans hot⟩
  have hnewest : (all.filter fun p => setup.Newest (setup.barTimes times) p.1).filter
      (fun p => setup.Newest times p.1) = all.filter fun p => setup.Newest times p.1 := by
    rw [filter_filter]
    refine filter_congr fun p hp => ?_
    rw [← Bool.decide_and, decide_eq_decide, and_iff_left_iff_imp]
    exact fun ⟨t, ht, hle, _⟩ => (hbar p hp).mpr ⟨t, ht, hle⟩
  have hds := hall times htimes
  have hbars := hall (setup.barTimes times) (increasing_filter _)
  refine ⟨all.filter fun p => setup.Newest (setup.barTimes times) p.1, ?_, hbars, ?_, ?_⟩
  · have hsorted := setup.frame.increasing.sublist hpre.sublist
    rw [pairwise_map] at hsorted
    refine (( filter_prefix ?_).map Prod.fst).trans hpre
    refine hsorted.imp_of_mem fun {p q} hp hq hlt hnewest => ?_
    obtain ⟨t, ht, hle⟩ := (hbar q hq).mp (of_decide_eq_true hnewest)
    exact decide_eq_true ((hbar p hp).mpr ⟨t, ht, hlt.le.trans hle⟩)
  · rw [hds, hnewest]
  · rw [hds, hbars, ← hnewest, flatMap_map, flatMap_map, flatMap_filter_eq_iff]
    simp only [decide_eq_true_eq]

/-- **The adapter makes the decisions of the bars from the start on**, as they are when it makes
all. -/
theorem adapter_decisions (setup : NativeSetup σ τ M I) (s : σ) (t : τ) (decisionStart : Option ℤ) :
    ∃ ds : List (FrameRow × PortDecision M I), ds.map Prod.fst <+: setup.frame.rows
      ∧ setup.decisions (setup.adapterTimes none) (Native.new s t) = ds.map Prod.snd
      ∧ setup.decisions (setup.adapterTimes decisionStart) (Native.new s t)
        = (ds.filter fun p => ∀ start ∈ decisionStart, start ≤ p.1.openedAt).map Prod.snd := by
  obtain ⟨all, hpre, hall⟩ := exists_bars setup s t
  have hiff : ∀ (decisionStart : Option ℤ), ∀ p ∈ all,
      setup.Newest (setup.adapterTimes decisionStart) p.1
        ↔ ∀ start ∈ decisionStart, start ≤ p.1.openedAt := by
    refine fun decisionStart p hp => ⟨fun ⟨o, ho, _, hnewest⟩ start hstart => ?_, fun h =>
      newest_filter (hpre.subset (mem_map_of_mem hp)) (decide_eq_true h)⟩
    obtain ⟨ho, hle⟩ := mem_filter.mp ho
    obtain ⟨r, hr, rfl⟩ := mem_map.mp ho
    exact (of_decide_eq_true hle start hstart).trans (hnewest r hr le_rfl)
  refine ⟨all, hpre, ?_, ?_⟩
  · have hself : all.filter (fun p => setup.Newest (setup.adapterTimes none) p.1) = all :=
      filter_eq_self.mpr fun p hp => decide_eq_true ((hiff none p hp).mpr nofun)
    rw [hall (setup.adapterTimes none) (increasing_filter _), hself]
  · rw [hall (setup.adapterTimes decisionStart) (increasing_filter _)]
    exact congrArg _ (filter_congr fun p hp => decide_eq_decide.mpr (hiff decisionStart p hp))

end Schedules

end NativeSetup

section Sample

/-- A strategy that is cooling down: it cancels its ladder at every candle. -/
def coolingDown : StrategyPort Unit Unit ℤ String where
  strategyId := "btcqt_s1_wick_ladder"
  requiredData := ["ohlcv_1m"]
  engine := ⟨fun _ _ => (), fun c => pure c.closeTs, id⟩
  onState ts _ := pure (if ts < 3600000 then ["CANCEL_LADDER"] else [])

/-- A row at one price. -/
def flatRow (openedAt : ℤ) : FrameRow :=
  ⟨openedAt, .int 100, .int 100, .int 100, .int 100, .int 1⟩

/-- Two bars of a minute. -/
def twoBars : NativeSetup Unit Unit ℤ String where
  port := coolingDown
  datasetVersion := "sha256:btcqt-1m"
  bundle := ⟨[], [], by simp, by simp, by simp⟩
  num := noNumerals
  frame := ⟨[flatRow 0, flatRow 60000000000], by simp [flatRow]⟩
  equity := 1000

theorem twoBars_newest : ∃ ds : List (FrameRow × PortDecision ℤ String),
      ds.map Prod.fst <+: twoBars.frame.rows
      ∧ twoBars.decisions (twoBars.barTimes [60000000000]) (Native.new () ()) = ds.map Prod.snd
      ∧ twoBars.decisions [60000000000] (Native.new () ())
        = (ds.filter fun p => twoBars.Newest [60000000000] p.1).map Prod.snd
      ∧ ((twoBars.decisions [60000000000] (Native.new () ())).flatMap PortDecision.intents
          = (twoBars.decisions (twoBars.barTimes [60000000000]) (Native.new () ())).flatMap
            PortDecision.intents
        ↔ ∀ p ∈ ds, ¬ twoBars.Newest [60000000000] p.1 → p.2.intents = []) :=
  twoBars.decisions_newest () () (pairwise_singleton _ _)

/-- A call after both bars returns the intents of the second. -/
theorem batch_keeps_newest :
    (twoBars.decisions [60000000000] (Native.new () ())).flatMap PortDecision.intents
        = ["CANCEL_LADDER"]
      ∧ twoBars.barTimes [60000000000] = [0, 60000000000]
      ∧ (twoBars.decisions [0, 60000000000] (Native.new () ())).flatMap PortDecision.intents
        = ["CANCEL_LADDER", "CANCEL_LADDER"] := by
  decide +kernel

end Sample

end Qt.StrategyPorts.Btcqt
