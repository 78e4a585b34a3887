import Mathlib.Data.List.Chain
import QuantTrading.MonitorEngine

/-!
# The life of an anomaly

The decisions of the engine are one sequence: each is the next revision of the anomaly
before it, or opens another one when that is over. `anomaly_lifecycle` says so for every
run of ingests, snapshots and resets, and says what a confirmation rests on.

Of the window in which the recovery has to hold the engine keeps its start only,
`recovery_start`. What the start stands for is in the run: since the trade that set it,
every accepted trade has been recovered and nothing has been reset (`Held`). A start that
is there is carried through each step or taken back by it; what revises the anomaly,
resets it or opens another always takes it back (`TakenBack`).
-/

namespace Qt.BtcMonitor

open List Machine Option

/-! ## What is asked -/

def AnomalyState.MovesTo : AnomalyState → AnomalyState → Prop
  | .watch, _ => True
  | .confirmed, state => state = .invalidated ∨ state = .expired
  | .invalidated, _ | .expired, _ => False

/-- **The next revision** of an anomaly. -/
structure Continues (d d' : AnomalyDecision) : Prop where
  eventId : d'.eventId = d.eventId
  revision : d'.revision = d.revision + 1
  expiresAt : d'.expiresAt = d.expiresAt
  direction : d'.direction = d.direction
  baseline : d'.baseline = d.baseline
  moves : d.state.MovesTo d'.state

/-- The first decision of an anomaly. -/
structure Opens (d : AnomalyDecision) : Prop where
  revision : d.revision = 1
  watched : d.state = .watch

/-- **A decision after another**: of the same anomaly, or of the next when it is over. -/
def Follows (d d' : AnomalyDecision) : Prop := Continues d d' ∨ ¬ d.state.IsLive ∧ Opens d'

/-- The decisions of a run. -/
structure Lifecycle (events : List AnomalyDecision) : Prop where
  chain : events.IsChain Follows
  first : ∀ d ∈ events.head?, Opens d

variable (cfg : MonitorConfig)

/-- A trade that `ingest` accepts. -/
def Accepts (s : MonitorEngine) (event : MarketEvent) (now mono : ℚ) : Prop :=
  event.channel = .trade ∧ (s.ingest cfg event now mono).1 = true

/-- A step under the decision `d` without a reset, and with a recovered trade if with one
that is accepted: no new extreme, and enough of the way back. -/
def Holds (d : AnomalyDecision) (s : MonitorEngine) (op : Op) : Prop :=
  s.anomalies.active = some d ∧ (step cfg s op).resets = s.resets ∧
    ∀ event now mono, op = .ingest event now mono → Accepts cfg s event now mono →
      ¬ d.Extended event.price ∧ cfg.wickRecoveryFraction ≤ d.recovery event.price

/-- **The recovery has held** in a stretch of a run, which begins with an accepted trade at
the monotonic time `start`. -/
structure Held (cfg : MonitorConfig) (d : AnomalyDecision) (start : ℚ) (before stretch : List Op) :
    Prop where
  begins : ∃ event now, stretch.head? = some (.ingest event now start) ∧
    Accepts cfg (Machine.run (step cfg) .start before) event now start
  holds : Machine.Meets (step cfg) (Holds cfg d) (Machine.run (step cfg) .start before) stretch

/-! ## The invariant of the anomalies -/

namespace Anomalies

/-- **The invariant**: a start of a recovery is one of a live anomaly. -/
structure Sound (a : Anomalies) : Prop where
  lifecycle : Lifecycle a.events
  active : a.active = a.events.getLast?
  recovery : ∀ t, a.recoveryStart = some t → ∃ d, a.active = some d ∧ d.state.IsLive

/-- Nothing is live. -/
def Over (a : Anomalies) : Prop :=
  a.recoveryStart = none ∧ ∀ d, a.active = some d → ¬ d.state.IsLive

/-- Every confirmation was there before. -/
def NoneConfirmed (a a' : Anomalies) : Prop :=
  ∀ d ∈ a'.events, d.state = .confirmed → d ∈ a.events

variable {a a' : Anomalies}

theorem NoneConfirmed.trans {a'' : Anomalies} (h : NoneConfirmed a a') (h' : NoneConfirmed a' a'') :
    NoneConfirmed a a'' :=
  fun d hd hconfirmed => h d (h' d hd hconfirmed) hconfirmed

theorem noneConfirmed_of_eq (h : a'.events = a.events) : NoneConfirmed a a' :=
  fun _ hd _ => h ▸ hd

variable {d' : AnomalyDecision}

theorem noneConfirmed_concat (h : a'.events = a.events ++ [d']) (hd' : d'.state ≠ .confirmed) :
    NoneConfirmed a a' := by
  intro d hd hconfirmed
  rw [h] at hd
  refine (mem_append.mp hd).resolve_right fun hd => hd' ?_
  rw [← mem_singleton.mp hd, hconfirmed]

/-- **The recovery is taken back**, and nothing is confirmed. -/
def TakenBack (a a' : Anomalies) : Prop := a'.recoveryStart = none ∧ NoneConfirmed a a'

/-- **The recovery goes on** under `d`, or has lasted long enough and is confirmed. -/
def GoesOn (cfg : MonitorConfig) (price now mono : ℚ) (d : AnomalyDecision) (a a' : Anomalies) :
    Prop :=
  (¬ d.Extended price ∧ cfg.wickRecoveryFraction ≤ d.recovery price) ∧
    ((a'.active = some d ∧ a'.recoveryStart = some (a.recoveryStart.getD mono) ∧
        a'.events = a.events) ∨
      (d.state = .watch ∧ cfg.confirmationSeconds ≤ mono - a.recoveryStart.getD mono) ∧
        a'.recoveryStart = none ∧
        a'.events =
          a.events ++ [d.revised .confirmed now (d.recovery price) "observed_recovery" none])

theorem lifecycle_concat {events : List AnomalyDecision} (h : Lifecycle events)
    (hlast : ∀ d ∈ events.getLast?, Follows d d') (hfirst : events = [] → Opens d') :
    Lifecycle (events ++ [d']) where
  chain := by
    refine isChain_append.mpr ⟨h.chain, isChain_singleton _, fun d hd d'' hd'' => ?_⟩
    obtain rfl : d' = d'' := some.inj hd''
    exact hlast d hd
  first := by
    cases events with
    | nil =>
      intro d hd
      obtain rfl : d' = d := some.inj hd
      exact hfirst rfl
    | cons d events => exact h.first

variable {d : AnomalyDecision} {state : AnomalyState}

/-- A revision of a live decision is the next one of its anomaly. -/
theorem revised_continues (now recovery : ℚ) (reason : String) (extreme : Option ℚ)
    (h : d.state.MovesTo state) :
    Continues d (d.revised state now recovery reason extreme) := ⟨rfl, rfl, rfl, rfl, rfl, h⟩

/-- **`_revise`** keeps the invariant. -/
theorem sound_revise (hs : a.Sound) (hd : a.active = some d) (now recovery : ℚ) (reason : String)
    (extreme : Option ℚ) (hmoves : d.state.MovesTo state) :
    (a.revise state now recovery reason extreme d).Sound where
  lifecycle := by
    refine lifecycle_concat hs.lifecycle (fun d' hd' => ?_) fun hnil => ?_
    · obtain rfl : d = d' := some.inj (hd.symm.trans (hs.active.trans hd'))
      exact .inl (revised_continues now recovery reason extreme hmoves)
    · exact absurd (hd.symm.trans (hs.active.trans (by rw [hnil]))) (by simp)
  active := getLast?_concat.symm
  recovery := fun _ ht => nomatch ht

theorem movesTo_of_live {state' : AnomalyState} (h : state.IsLive)
    (h' : state' = .invalidated ∨ state' = .expired) : state.MovesTo state' := by
  rcases h with rfl | rfl
  · trivial
  · exact h'

/-- **A reset**: nothing is live after it. -/
theorem invalidate_spec (hs : a.Sound) (reason : String) (now : Option ℚ) :
    (a.invalidate reason now).Sound ∧ (a.invalidate reason now).Over ∧
      NoneConfirmed a (a.invalidate reason now) := by
  have hnone : (∀ d, a.active = some d → ¬ d.state.IsLive) → a.recoveryStart = none := by
    intro hover
    cases ht : a.recoveryStart with
    | none => rfl
    | some t =>
      obtain ⟨d, hd, hlive⟩ := hs.recovery t ht
      exact absurd hlive (hover d hd)
  unfold invalidate
  split
  · rename_i hd
    have hover : ∀ d, a.active = some d → ¬ d.state.IsLive := fun d hd' => by simp [hd] at hd'
    exact ⟨hs, ⟨hnone hover, hover⟩, noneConfirmed_of_eq rfl⟩
  · rename_i d hd
    split_ifs with hlive
    · refine ⟨sound_revise hs hd _ _ _ _ (movesTo_of_live hlive (.inl rfl)),
        ⟨rfl, fun d' hd' => ?_⟩, noneConfirmed_concat rfl (by simp [AnomalyDecision.revised])⟩
      rw [← some.inj hd']
      exact fun h => h.elim nofun nofun
    · have hover : ∀ d, a.active = some d → ¬ d.state.IsLive := fun d' hd' => by
        obtain rfl := some.inj (hd.symm.trans hd')
        exact hlive
      exact ⟨hs, ⟨hnone hover, hover⟩, noneConfirmed_of_eq rfl⟩

/-- The invariant is not about shocks and notifications. -/
theorem Sound.congr (hs : a.Sound) (hevents : a'.events = a.events) (hactive : a'.active = a.active)
    (hrecovery : a'.recoveryStart = a.recoveryStart) : a'.Sound where
  lifecycle := hevents ▸ hs.lifecycle
  active := by rw [hactive, hevents, hs.active]
  recovery := by rw [hactive, hrecovery]; exact hs.recovery

theorem shock_spec (impulse : Bool) (mono : ℚ) (a : Anomalies) :
    (a.shock impulse mono).active = a.active ∧ (a.shock impulse mono).events = a.events ∧
      (a.shock impulse mono).recoveryStart = a.recoveryStart := by
  unfold shock
  split_ifs
  · exact ⟨rfl, rfl, rfl⟩
  · exact ⟨rfl, rfl, rfl⟩

/-- **A trade while nothing is live** confirms nothing. -/
theorem detect_spec (cfg : MonitorConfig) (hs : a.Sound) (hover : a.Over) (sequence : ℕ)
    (price now mono baseline : ℚ) (direction : Direction) (impulse : Bool) :
    (a.detect cfg sequence price now mono baseline direction impulse).Sound ∧
      TakenBack a (a.detect cfg sequence price now mono baseline direction impulse) := by
  unfold detect
  split_ifs
  · refine ⟨⟨?_, getLast?_concat.symm, fun _ ht => nomatch ht⟩, rfl,
      noneConfirmed_concat rfl (by simp [opening])⟩
    refine lifecycle_concat hs.lifecycle (fun d hd => .inr ⟨?_, rfl, rfl⟩) fun _ => ⟨rfl, rfl⟩
    exact hover.2 d (hs.active.trans hd)
  · exact ⟨hs, hover.1, noneConfirmed_of_eq rfl⟩

/-- **A trade under a live anomaly**: the recovery is taken back, or goes on, or has lasted
long enough and is confirmed. -/
theorem follow_spec (cfg : MonitorConfig) (hs : a.Sound) (hd : a.active = some d)
    (hlive : d.state.IsLive) (price now mono : ℚ) : (a.follow cfg price now mono d).Sound ∧
      (TakenBack a (a.follow cfg price now mono d) ∨
        GoesOn cfg price now mono d a (a.follow cfg price now mono d)) := by
  have hended : ∀ {state : AnomalyState} {a' : Anomalies} {recovery : ℚ} {reason : String}
      {extreme : Option ℚ}, a'.events = a.events → state ≠ .confirmed →
      TakenBack a (a'.revise state now recovery reason extreme d) := by
    intro state a' recovery reason extreme hevents hstate
    exact ⟨rfl, noneConfirmed_concat (congrArg (· ++ _) hevents) hstate⟩
  have hrecovering : ∀ start, (a.setRecoveryStart start).Sound := fun start =>
    ⟨hs.lifecycle, hs.active, fun _ _ => ⟨d, hd, hlive⟩⟩
  have hextreme : (a.noteExtreme mono).Sound := hs.congr rfl rfl rfl
  unfold follow
  split_ifs with hexpired hextended hconfirmed hrecovered hlong hconfirmed
  · exact ⟨sound_revise hs hd _ _ _ _ (movesTo_of_live hlive (.inr rfl)),
      .inl (hended rfl (by decide))⟩
  · exact ⟨sound_revise hextreme hd _ _ _ _ (movesTo_of_live hlive (.inl rfl)),
      .inl (hended rfl (by decide))⟩
  · refine ⟨sound_revise hextreme hd _ _ _ _ ?_, .inl (hended rfl (by decide))⟩
    rw [hlive.resolve_right hconfirmed]
    trivial
  · refine ⟨sound_revise (hrecovering _) hd _ _ _ _ ?_,
      .inr ⟨⟨hextended, hrecovered⟩, .inr ⟨hlong, rfl, rfl⟩⟩⟩
    rw [hlong.1]
    trivial
  · exact ⟨hrecovering _, .inr ⟨⟨hextended, hrecovered⟩, .inl ⟨hd, rfl, rfl⟩⟩⟩
  · exact ⟨sound_revise (hrecovering none) hd _ _ _ _ (movesTo_of_live hlive (.inl rfl)),
      .inl (hended rfl (by decide))⟩
  · exact ⟨hrecovering none, .inl ⟨rfl, noneConfirmed_of_eq rfl⟩⟩

end Anomalies

namespace Anomalies

variable {a : Anomalies}

theorem Sound.over (hs : a.Sound) (hover : ∀ d, a.active = some d → ¬ d.state.IsLive) : a.Over := by
  refine ⟨?_, hover⟩
  cases ht : a.recoveryStart with
  | none => rfl
  | some t =>
    obtain ⟨d, hd, hlive⟩ := hs.recovery t ht
    exact absurd hlive (hover d hd)

/-- **A trade**, whatever the windows say of it. -/
theorem trade_spec (cfg : MonitorConfig) (hs : a.Sound) (sequence : ℕ) (price now mono baseline : ℚ)
    (direction : Direction) (impulse : Bool) :
    (a.trade cfg sequence price now mono baseline direction impulse).Sound ∧
      (TakenBack a (a.trade cfg sequence price now mono baseline direction impulse) ∨
        ∃ d, a.active = some d ∧ GoesOn cfg price now mono d a
          (a.trade cfg sequence price now mono baseline direction impulse)) := by
  obtain ⟨hactive, hevents, hstart⟩ := shock_spec impulse mono a
  have hshock : (a.shock impulse mono).Sound := hs.congr hevents hactive hstart
  -- without a live anomaly the trade may open one
  have hdetect : (∀ d, a.active = some d → ¬ d.state.IsLive) →
      ((a.shock impulse mono).detect cfg sequence price now mono baseline direction impulse).Sound ∧
        TakenBack a ((a.shock impulse mono).detect cfg sequence price now mono baseline direction
            impulse) := by
    intro hover
    obtain ⟨hsound, hback, hnone⟩ := detect_spec cfg hshock (hshock.over (hactive ▸ hover)) sequence
      price now mono baseline direction impulse
    exact ⟨hsound, hback, (noneConfirmed_of_eq hevents).trans hnone⟩
  unfold trade
  split
  · rename_i d hd
    split_ifs with hlive
    · obtain ⟨hsound, hcases⟩ := follow_spec cfg hshock (hactive.trans hd) hlive price now mono
      refine ⟨hsound, hcases.imp (fun h => ⟨h.1, (noneConfirmed_of_eq hevents).trans h.2⟩)
        fun h => ⟨d, hd, ?_⟩⟩
      unfold GoesOn at h ⊢
      rwa [hstart, hevents] at h
    · obtain ⟨hsound, htaken⟩ := hdetect fun d' hd' => by
        obtain rfl := some.inj (hd.symm.trans hd')
        exact hlive
      exact ⟨hsound, .inl htaken⟩
  · rename_i hd
    obtain ⟨hsound, htaken⟩ := hdetect fun d' hd' => by simp [hd] at hd'
    exact ⟨hsound, .inl htaken⟩

/-- **A trade after a reset** confirms nothing. -/
theorem trade_invalidate_spec (cfg : MonitorConfig) (hs : a.Sound) (reason : String)
    (resetAt : Option ℚ) (sequence : ℕ) (price now mono baseline : ℚ) (direction : Direction)
    (impulse : Bool) :
    ((a.invalidate reason resetAt).trade cfg sequence price now mono baseline direction
        impulse).Sound ∧
      TakenBack a ((a.invalidate reason resetAt).trade cfg sequence price now mono baseline direction
        impulse) := by
  obtain ⟨hsound, hover, hnone⟩ := invalidate_spec hs reason resetAt
  obtain ⟨htraded, ⟨hback, hnone'⟩ | ⟨d, hd, hgoes⟩⟩ :=
    trade_spec cfg hsound sequence price now mono baseline direction impulse
  · exact ⟨htraded, hback, hnone.trans hnone'⟩
  · -- a recovery that goes on would be of a live anomaly
    exfalso
    obtain ⟨-, ⟨hactive, hstart, -⟩ | ⟨⟨hwatch, -⟩, -, -⟩⟩ := hgoes
    · obtain ⟨d', hd', hlive⟩ := htraded.recovery _ hstart
      obtain rfl := some.inj (hactive.symm.trans hd')
      exact hover.2 d hd hlive
    · exact hover.2 d hd (.inl hwatch)

/-- **A snapshot** expires an anomaly, or invalidates it, or leaves it alone. -/
theorem review_spec (hs : a.Sound) (now : ℚ) (ready : Bool) :
    (MonitorEngine.review now ready a).Sound ∧
      (TakenBack a (MonitorEngine.review now ready a) ∨ MonitorEngine.review now ready a = a) := by
  unfold MonitorEngine.review
  split
  · exact ⟨hs, .inr rfl⟩
  · rename_i d hd
    split_ifs with hlive
    · exact ⟨sound_revise hs hd _ _ _ _ (movesTo_of_live hlive (.inr rfl)),
        .inl ⟨rfl, noneConfirmed_concat rfl (by simp [AnomalyDecision.revised])⟩⟩
    · exact ⟨hs, .inr rfl⟩
    · exact ⟨sound_revise hs hd _ _ _ _ (movesTo_of_live hlive (.inl rfl)),
        .inl ⟨rfl, noneConfirmed_concat rfl (by simp [AnomalyDecision.revised])⟩⟩
    · exact ⟨hs, .inr rfl⟩

end Anomalies

/-! ## Steps -/

open MonitorEngine Anomalies

/-- What an event does to the anomalies: nothing, a reset, a trade, or a trade after a
reset. -/
inductive Outcome (cfg : MonitorConfig) (event : MarketEvent) (now mono : ℚ) (s : MonitorEngine)
    (r : Bool × MonitorEngine) : Prop
  | quiet (anomalies : r.2.anomalies = s.anomalies) (resets : r.2.resets = s.resets)
      (notTrade : ¬ (event.channel = .trade ∧ r.1 = true))
  | reset (reason : String) (anomalies : r.2.anomalies = s.anomalies.invalidate reason (some now))
  | trade (baseline : ℚ) (direction : Direction) (impulse : Bool) (resets : r.2.resets = s.resets)
      (accepted : event.channel = .trade ∧ r.1 = true)
      (anomalies : r.2.anomalies = s.anomalies.trade cfg event.sequence event.price now mono baseline
        direction impulse)
  | resetTrade (reason : String) (baseline : ℚ) (direction : Direction) (impulse : Bool)
      (anomalies : r.2.anomalies = (s.anomalies.invalidate reason (some now)).trade cfg event.sequence
        event.price now mono baseline direction impulse)
  | resetTwice (reason reason' : String) (anomalies : r.2.anomalies =
      (s.anomalies.invalidate reason (some now)).invalidate reason' (some now))

variable (event : MarketEvent)

theorem accept_outcome (now mono : ℚ) (s : MonitorEngine) :
    (event.channel ≠ .trade ∧ (s.accept cfg event now mono).2.anomalies = s.anomalies ∧
        (s.accept cfg event now mono).2.resets = s.resets) ∨
      (∃ reason, (s.accept cfg event now mono).2.anomalies =
        s.anomalies.invalidate reason (some now)) ∨
      event.channel = .trade ∧ (s.accept cfg event now mono).1 = true ∧
        (s.accept cfg event now mono).2.resets = s.resets ∧
        ∃ baseline direction impulse, (s.accept cfg event now mono).2.anomalies =
          s.anomalies.trade cfg event.sequence event.price now mono baseline direction impulse := by
  simp only [accept]
  split_ifs with htrade
  · refine .inr ?_
    unfold acceptTrade
    split
    · exact .inl ⟨_, rfl⟩
    · split_ifs
      · exact .inl ⟨_, rfl⟩
      · exact .inl ⟨_, rfl⟩
      · exact .inr ⟨htrade, rfl, rfl, _, _, _, rfl⟩
  · exact .inl ⟨htrade, rfl, rfl⟩

theorem outcome_accept (now mono : ℚ) (s : MonitorEngine) :
    Outcome cfg event now mono s (s.accept cfg event now mono) := by
  obtain ⟨hchannel, ha, hr⟩ | ⟨reason, ha⟩ | ⟨hchannel, haccepted, hr, b, d, i, ha⟩ :=
    accept_outcome cfg event now mono s
  · exact .quiet ha hr fun h => hchannel h.1
  · exact .reset reason ha
  · exact .trade b d i hr ⟨hchannel, haccepted⟩ ha

theorem outcome_gap (now mono : ℚ) (s : MonitorEngine) (reason : String) :
    Outcome cfg event now mono s ((s.fail reason now).accept cfg event now mono) := by
  obtain ⟨-, ha, -⟩ | ⟨reason', ha⟩ | ⟨-, -, -, b, d, i, ha⟩ :=
    accept_outcome cfg event now mono (s.fail reason now)
  · exact .reset reason ha
  · exact .resetTwice reason reason' ha
  · exact .resetTrade reason b d i ha

theorem keepCandle_anomalies (mono : ℚ) (s : MonitorEngine) :
    (s.keepCandle cfg event mono).anomalies = s.anomalies ∧
      (s.keepCandle cfg event mono).resets = s.resets := by
  unfold keepCandle
  by_cases hhistorical : event.historical = true
  · simp [hhistorical]
  · simp [hhistorical]

variable {event}

theorem outcome_candle (hchannel : event.channel = .candle) (now mono : ℚ) (s : MonitorEngine) :
    Outcome cfg event now mono s (s.ingestCandle cfg event now mono) := by
  have hquiet : ∀ {r : Bool × MonitorEngine}, r.2.anomalies = s.anomalies → r.2.resets = s.resets →
      Outcome cfg event now mono s r := fun ha hr =>
    .quiet ha hr fun h => nomatch hchannel.symm.trans h.1
  unfold ingestCandle
  split
  · split_ifs
    · exact hquiet rfl rfl
    · exact hquiet rfl rfl
    · obtain ⟨ha, hr⟩ := keepCandle_anomalies cfg event mono (s.resetCandleGap event now)
      by_cases hgap : ∃ last ∈ s.candles.getLast?, event.sequence ≠ last.sequence + 60000
      · rw [resetCandleGap, if_pos hgap] at ha
        exact .reset "candle_gap" (by rw [resetCandleGap, if_pos hgap]; exact ha)
      · rw [resetCandleGap, if_neg hgap] at ha hr
        rw [resetCandleGap, if_neg hgap]
        exact hquiet ha hr
  · exact hquiet rfl rfl

/-- **What `ingest` does to the anomalies.** -/
theorem outcome_ingest (event : MarketEvent) (now mono : ℚ) (s : MonitorEngine) :
    Outcome cfg event now mono s (s.ingest cfg event now mono) := by
  unfold ingest
  split_ifs with h₁ h₂ h₃ hcandle hmissing
  · exact .reset _ rfl
  · exact .reset _ rfl
  · exact .quiet rfl rfl fun h => nomatch h.2
  · exact outcome_candle cfg hcandle now mono s
  · exact .reset _ rfl
  · unfold ingestLive
    split
    · exact outcome_accept cfg event now mono s
    · split_ifs
      · exact .quiet rfl rfl fun h => nomatch h.2
      · exact .reset _ rfl
      · exact outcome_gap cfg event now mono s _
      · exact outcome_gap cfg event now mono s _
      · exact outcome_accept cfg event now mono s

/-- A step that leaves the anomalies alone. -/
structure Quiet (s s' : MonitorEngine) : Prop where
  active : s'.anomalies.active = s.anomalies.active
  events : s'.anomalies.events = s.anomalies.events
  recoveryStart : s'.anomalies.recoveryStart = s.anomalies.recoveryStart
  resets : s'.resets = s.resets

variable {s : MonitorEngine}

theorem snapshot_spec (hs : s.anomalies.Sound) (now mono : ℚ) :
    (s.snapshot cfg now mono).anomalies.Sound ∧
      (TakenBack s.anomalies (s.snapshot cfg now mono).anomalies ∨
        Quiet s (s.snapshot cfg now mono)) := by
  obtain ⟨hsound, hcases⟩ := review_spec hs now (s.sourcesReady cfg now mono)
  -- dropping notifications is no matter for the anomalies
  obtain ⟨hactive, hevents, hstart⟩ : (s.snapshot cfg now mono).anomalies.active =
          (review now (s.sourcesReady cfg now mono) s.anomalies).active ∧
        (s.snapshot cfg now mono).anomalies.events =
          (review now (s.sourcesReady cfg now mono) s.anomalies).events ∧
        (s.snapshot cfg now mono).anomalies.recoveryStart =
          (review now (s.sourcesReady cfg now mono) s.anomalies).recoveryStart := by
    simp only [snapshot]
    split_ifs
    · exact ⟨rfl, rfl, rfl⟩
    · exact ⟨rfl, rfl, rfl⟩
  refine ⟨hsound.congr hevents hactive hstart, ?_⟩
  rcases hcases with ⟨hback, hnone⟩ | hsame
  · exact .inl ⟨hstart.trans hback, hnone.trans (noneConfirmed_of_eq hevents)⟩
  · rw [hsame] at hactive hevents hstart
    exact .inr ⟨hactive, hevents, hstart, rfl⟩

/-- **What a step does**: it takes the recovery back, leaves it alone, or is an accepted
trade under which it goes on. -/
theorem step_spec (hs : s.anomalies.Sound) (op : Op) :
    (step cfg s op).anomalies.Sound ∧ (TakenBack s.anomalies (step cfg s op).anomalies ∨
        (Quiet s (step cfg s op) ∧
          ∀ event now mono, op = .ingest event now mono → ¬ Accepts cfg s event now mono) ∨
        ∃ event now mono d, op = .ingest event now mono ∧ Accepts cfg s event now mono ∧
          (step cfg s op).resets = s.resets ∧ s.anomalies.active = some d ∧
          GoesOn cfg event.price now mono d s.anomalies (step cfg s op).anomalies) := by
  cases op with
  | ingest event now mono =>
    show (s.ingest cfg event now mono).2.anomalies.Sound ∧
      (TakenBack s.anomalies (s.ingest cfg event now mono).2.anomalies ∨ _)
    cases outcome_ingest cfg event now mono s with
    | quiet ha hr hrejected =>
      refine ⟨ha ▸ hs, .inr (.inl ⟨⟨congrArg active ha, congrArg Anomalies.events ha,
        congrArg recoveryStart ha, hr⟩, ?_⟩)⟩
      intro event' now' mono' hop haccepts
      cases hop
      exact hrejected haccepts
    | reset reason ha =>
      obtain ⟨hsound, hover, hnone⟩ := invalidate_spec hs reason (some now)
      rw [ha]
      exact ⟨hsound, .inl ⟨hover.1, hnone⟩⟩
    | trade b d i hr haccepted ha =>
      obtain ⟨hsound, hcases⟩ := trade_spec cfg hs event.sequence event.price now mono b d i
      rw [← ha] at hsound hcases
      refine ⟨hsound, hcases.imp_right fun ⟨d, hd, hgoes⟩ => .inr ?_⟩
      exact ⟨event, now, mono, d, rfl, haccepted, hr, hd, hgoes⟩
    | resetTrade reason b d i ha =>
      obtain ⟨hsound, htaken⟩ := trade_invalidate_spec cfg hs reason (some now) event.sequence
        event.price now mono b d i
      rw [ha]
      exact ⟨hsound, .inl htaken⟩
    | resetTwice reason reason' ha =>
      obtain ⟨hsound, -, hnone⟩ := invalidate_spec hs reason (some now)
      obtain ⟨hsound, hover, hnone'⟩ := invalidate_spec hsound reason' (some now)
      rw [ha]
      exact ⟨hsound, .inl ⟨hover.1, hnone.trans hnone'⟩⟩
  | snapshot now mono =>
    obtain ⟨hsound, hcases⟩ := snapshot_spec cfg hs now mono
    exact ⟨hsound, hcases.imp_right fun hquiet => .inl ⟨hquiet, fun _ _ _ hop => nomatch hop⟩⟩
  | reset reason now =>
    obtain ⟨hsound, hover, hnone⟩ := invalidate_spec hs reason now
    exact ⟨hsound, .inl ⟨hover.1, hnone⟩⟩

/-! ## Runs -/

theorem sound_start : MonitorEngine.start.anomalies.Sound where
  lifecycle := ⟨isChain_nil, fun _ hd => nomatch hd⟩
  active := rfl
  recovery := fun _ ht => nomatch ht

theorem sound_run (ops : List Op) : (Machine.run (step cfg) .start ops).anomalies.Sound :=
  inv_run (fun s : MonitorEngine => s.anomalies.Sound)
    (fun _ op hs => (step_spec cfg hs op).1) sound_start ops

variable {cfg} {d : AnomalyDecision}

/-- A stretch goes on with a step under which the recovery holds. -/
theorem Held.concat {start : ℚ} {before stretch : List Op} (h : Held cfg d start before stretch)
    {op : Op} (hop : Holds cfg d (Machine.run (step cfg) .start (before ++ stretch)) op) :
    Held cfg d start before (stretch ++ [op]) where
  begins := by
    obtain ⟨event, now, hhead, haccepts⟩ := h.begins
    exact ⟨event, now, by rw [head?_append, hhead]; rfl, haccepts⟩
  holds := by
    refine meets_append.mpr ⟨h.holds, ?_, trivial⟩
    rwa [run_append] at hop

variable {mono now : ℚ}

/-- **An accepted trade under which the recovery goes on** continues the stretch that there
is, or begins one. -/
theorem held_trade {ops : List Op}
    (hrun : ∀ t, (Machine.run (step cfg) .start ops).anomalies.recoveryStart = some t →
      ∃ d before stretch, (Machine.run (step cfg) .start ops).anomalies.active = some d ∧ ops =
      before ++ stretch ∧ Held cfg d t before stretch)
    (haccepts : Accepts cfg (Machine.run (step cfg) .start ops) event now mono)
    (hholds : Holds cfg d (Machine.run (step cfg) .start ops) (.ingest event now mono)) :
    ∃ before stretch, ops ++ [.ingest event now mono] = before ++ stretch ∧
      Held cfg d ((Machine.run (step cfg) .start ops).anomalies.recoveryStart.getD mono) before
        stretch := by
  cases ht : (Machine.run (step cfg) .start ops).anomalies.recoveryStart with
  | none => exact ⟨ops, _, rfl, ⟨event, now, rfl, haccepts⟩, hholds, trivial⟩
  | some t =>
    obtain ⟨d', before, stretch, hd', hops, hheld⟩ := hrun t ht
    obtain rfl := some.inj (hholds.1.symm.trans hd')
    refine ⟨before, stretch ++ [.ingest event now mono], ?_, hheld.concat (hops ▸ hholds)⟩
    rw [hops, append_assoc]

theorem holds_of_goesOn {a' : Anomalies} (hd : s.anomalies.active = some d)
    (hresets : (step cfg s (.ingest event now mono)).resets = s.resets)
    (hgoes : GoesOn cfg event.price now mono d s.anomalies a') :
    Holds cfg d s (.ingest event now mono) := by
  refine ⟨hd, hresets, fun event' now' mono' hop _ => ?_⟩
  cases hop
  exact hgoes.1

variable (cfg)

/-- **What the start of a recovery stands for**, in every run. -/
theorem held_run (ops : List Op) :
    ∀ t, (Machine.run (step cfg) .start ops).anomalies.recoveryStart = some t →
      ∃ d before stretch, (Machine.run (step cfg) .start ops).anomalies.active = some d ∧
        ops = before ++ stretch ∧ Held cfg d t before stretch := by
  induction ops using List.reverseRecOn with
  | nil => exact fun _ ht => nomatch ht
  | append_singleton ops op ih =>
    intro t ht
    rw [run_concat] at ht ⊢
    obtain ⟨-, ⟨hback, -⟩ | ⟨hquiet, hrejected⟩ |
      ⟨event, now, mono, d, rfl, haccepts, hr, hd, hgoes⟩⟩ := step_spec cfg (sound_run cfg ops) op
    · exact nomatch hback.symm.trans ht
    · obtain ⟨d, before, stretch, hd, hops, hheld⟩ := ih t (hquiet.recoveryStart.symm.trans ht)
      refine ⟨d, before, stretch ++ [op], hquiet.active.trans hd, by rw [hops, append_assoc],
        hheld.concat ?_⟩
      rw [← hops]
      exact ⟨hd, hquiet.resets, fun e n m hop haccepts => absurd haccepts (hrejected e n m hop)⟩
    · obtain ⟨before, stretch, hops, hheld⟩ := held_trade ih haccepts (holds_of_goesOn hd hr hgoes)
      obtain ⟨-, ⟨hactive, hstart, -⟩ | ⟨-, hnone, -⟩⟩ := hgoes
      · obtain rfl := some.inj (hstart.symm.trans ht)
        exact ⟨d, before, stretch, hactive, hops, hheld⟩
      · exact nomatch hnone.symm.trans ht

/-- **What a confirmation rests on**: an accepted trade under a watched anomaly, at the end
of a stretch that has lasted at least `confirmation_seconds`. -/
structure Confirms (cfg : MonitorConfig) (ops : List Op) (op : Op) (d' : AnomalyDecision) :
    Prop where
  exists_stretch : ∃ d event now mono start before stretch, (d.state = .watch ∧ Continues d d') ∧
    (op = .ingest event now mono ∧ Accepts cfg (Machine.run (step cfg) .start ops) event now mono) ∧
    cfg.confirmationSeconds ≤ mono - start ∧
    ops ++ [op] = before ++ stretch ∧ Held cfg d start before stretch

/-- **The life of an anomaly.** In every run of ingests, snapshots and resets the decisions
are revisions of one anomaly after another, the active one is the last, and each one that
is confirmed was confirmed by a step of the run whose recovery had held. -/
theorem anomaly_lifecycle (cfg : MonitorConfig) (ops : List Op) :
    Lifecycle (Machine.run (step cfg) .start ops).anomalies.events ∧
      (Machine.run (step cfg) .start ops).anomalies.active =
        (Machine.run (step cfg) .start ops).anomalies.events.getLast? ∧
      ∀ d' ∈ (Machine.run (step cfg) .start ops).anomalies.events, d'.state = .confirmed →
        ∃ before op after, ops = before ++ op :: after ∧ Confirms cfg before op d' := by
  refine ⟨(sound_run cfg ops).lifecycle, (sound_run cfg ops).active, ?_⟩
  induction ops using List.reverseRecOn with
  | nil => exact fun _ hd' => nomatch hd'
  | append_singleton ops op ih =>
    intro d' hd' hconfirmed
    -- a decision that was there has its step in the run before
    have hold : d' ∈ (Machine.run (step cfg) .start ops).anomalies.events →
        ∃ before op' after, ops ++ [op] = before ++ op' :: after ∧ Confirms cfg before op' d' := by
      intro hd'
      obtain ⟨before, op', after, hops, hconfirms⟩ := ih d' hd' hconfirmed
      exact ⟨before, op', after ++ [op], by rw [hops]; simp, hconfirms⟩
    rw [run_concat] at hd'
    obtain ⟨-, ⟨-, hnone⟩ | ⟨hquiet, -⟩ | ⟨event, now, mono, d, rfl, haccepts, hr, hd, hgoes⟩⟩ :=
      step_spec cfg (sound_run cfg ops) op
    · exact hold (hnone d' hd' hconfirmed)
    · exact hold (hquiet.events ▸ hd')
    · obtain ⟨before, stretch, hops, hheld⟩ :=
        held_trade (held_run cfg ops) haccepts (holds_of_goesOn hd hr hgoes)
      obtain ⟨-, ⟨-, -, hevents⟩ | ⟨⟨hwatch, hlong⟩, -, hevents⟩⟩ := hgoes
      · exact hold (hevents ▸ hd')
      · rw [hevents] at hd'
        refine (mem_append.mp hd').elim hold fun hd' => ?_
        obtain rfl := mem_singleton.mp hd'
        refine ⟨ops, _, [], rfl, ⟨d, event, now, mono, _, before, stretch, ⟨hwatch, ?_⟩,
          ⟨rfl, haccepts⟩, hlong, hops, hheld⟩⟩
        exact revised_continues now _ _ none (hwatch ▸ trivial)

end Qt.BtcMonitor
