import Mathlib.Data.List.TakeWhile
import QuantTrading.RiskLatch

/-!
# What the marks of an account amount to

`check` values an account and records the mark: its high water, where its day
started, its last equity. Each is computed from the row before it and nothing
else, and the row stands for all the marks that were accepted so far
(`Marked`): the high water is the greatest of them and the capital, and a day
starts with the last mark of the days before it. Nothing else writes those
columns: a stop, and an observation that is not accepted, latch their reasons
and leave the rest.
-/

namespace Qt

open Except List Table Option
open Machine

variable {env : Env} {time : ℕ} {db db' : DB} {tx : Transaction}

variable {accountId tenant : String}

/-! ## What a check and a stop write -/

/-- What a mark wrote, without what was latched since. -/
def RiskState.marked (s : RiskState) : RiskState := { s with latchedReasons := [] }

theorem marked_setLatched (db : DB) (accountId : String) (latched : List String) (id : String) :
    ((RiskGuard.setLatched db accountId latched).riskState.find? id).map RiskState.marked
      = (db.riskState.find? id).map RiskState.marked := by
  have hfind : (RiskGuard.setLatched db accountId latched).riskState.find? id
      = if id = accountId then (db.riskState.find? accountId).map
          (fun s => { s with latchedReasons := latched })
        else db.riskState.find? id :=
    Table.find?_update db.riskState accountId (fun s => { s with latchedReasons := latched })
      (fun _ => rfl) id
  rw [hfind]
  split_ifs with hid
  · rw [hid]
    cases db.riskState.find? accountId <;> rfl
  · rfl

theorem marked_stop {reasons : List String} {mode : RiskMode} {deploymentId : Option String}
    (h : RiskGuard.stop tenant accountId reasons mode deploymentId time db = .ok db') (id : String)
    : (db'.riskState.find? id).map RiskState.marked
      = (db.riskState.find? id).map RiskState.marked := by
  unfold RiskGuard.stop at h
  obtain ⟨_, h⟩ := of_raiseIf h
  obtain ⟨a, _, h⟩ := of_bind h
  split at h
  · cases h
    rfl
  · cases h
    exact marked_setLatched _ _ _ _

variable {deployment : DeploymentManifest} {market : ExecutableMarketSnapshot}
  {report : RiskGuard.Report}

/-- A mark is the row of its account, whether there was one or not. -/
theorem find?_recordReport {mark : RiskGuard.Mark} (hmark : report.mark = some mark)
    (latched : List String) (now : ℕ) (id : String) :
    (RiskGuard.recordReport db tenant deployment market report latched now).riskState.find? id
      = if id = deployment.accountId then
          some (RiskGuard.markedState tenant deployment market mark latched now)
        else db.riskState.find? id := by
  unfold RiskGuard.recordReport
  rw [hmark]
  dsimp only
  generalize hvalues : RiskGuard.markedState tenant deployment market mark latched now = values
  have haid : values.accountId = deployment.accountId := by
    rw [← hvalues]
    rfl
  refine (Table.find?_update (db.riskState.insertOnce values) deployment.accountId
    (fun s => { values with accountId := s.accountId }) (fun _ => rfl) id).trans ?_
  split_ifs with hid
  · obtain ⟨s, hs⟩ : ∃ s, (db.riskState.insertOnce values).find? deployment.accountId = some s := by
      rw [find?_insertOnce]
      split_ifs with hnew
      · exact ⟨values, rfl⟩
      · refine ne_none_iff_exists'.mp (fun hnone => hnew ⟨?_, haid⟩)
        rwa [show RiskState.key values = deployment.accountId from haid]
    have hsid : s.accountId = values.accountId := (key_of_find? hs).trans haid.symm
    rw [hs, map_some, hsid]
  · rw [find?_insertOnce, if_neg]
    exact fun hnew => hid (hnew.2.symm.trans haid)

variable (tenant) (deployment) (market) (report)

/-- **What a report leaves in the risk state**: the mark, if it has one, in the
row of the account; else nothing but what is latched. -/
def RiskGuard.Records (now : ℕ) (db db' : DB) : Prop :=
  match report.mark with
  | some mark => ∃ latched, ∀ id, db'.riskState.find? id
      = if id = deployment.accountId then
          some (RiskGuard.markedState tenant deployment market mark latched now)
        else db.riskState.find? id
  | none => ∀ id, (db'.riskState.find? id).map RiskState.marked
      = (db.riskState.find? id).map RiskState.marked

theorem recordReport_records (latched : List String) (now : ℕ) :
    RiskGuard.Records tenant deployment market report now db
      (RiskGuard.recordReport db tenant deployment market report latched now) := by
  unfold RiskGuard.Records
  cases hmark : report.mark with
  | some mark => exact ⟨latched, find?_recordReport hmark latched now⟩
  | none =>
    intro id
    unfold RiskGuard.recordReport
    rw [hmark]
    cases report.state with
    | none => rfl
    | some _ => exact marked_setLatched _ _ _ _

theorem accounts_recordReport (latched : List String) (now : ℕ) :
    (RiskGuard.recordReport db tenant deployment market report latched now).accounts
      = db.accounts := by
  unfold RiskGuard.recordReport
  cases report.mark <;> cases report.state <;> rfl

/-- A report that discards its observation has no mark, and keeps the mode. -/
theorem evaluateLocked_discarded {a : Account} {deployment : DeploymentManifest}
    {instrument : InstrumentSpec} {market : ExecutableMarketSnapshot} {now : ℕ}
    (h : (RiskGuard.evaluateLocked env db a deployment instrument market now).observationDiscarded
      = true) :
    (RiskGuard.evaluateLocked env db a deployment instrument market now).mark = none
      ∧ (RiskGuard.evaluateLocked env db a deployment instrument market now).mode = a.mode := by
  revert h
  unfold RiskGuard.evaluateLocked
  dsimp only
  split_ifs <;> simp

variable {report}

/-- **What a check does**: it writes what its report records, and the mode of
the report. -/
theorem check_eq_ok {tenant : String} {deployment : DeploymentManifest}
    {instrument : InstrumentSpec} {market : ExecutableMarketSnapshot} {nowNs : Option ℕ}
    (h : RiskGuard.check env tenant deployment instrument market nowNs time db =
      .ok (report, db')) :
    ∃ a, db.accounts.find? deployment.accountId = some a ∧ a.tenantId = tenant
      ∧ report = RiskGuard.evaluateLocked env db a deployment instrument market (nowOf nowNs time)
      ∧ db'.accounts = db.accounts.replace { a with mode := report.mode }
      ∧ RiskGuard.Records tenant deployment market report (nowOf nowNs time) db db' := by
  unfold RiskGuard.check at h
  obtain ⟨a, ha, h⟩ := of_bind h
  obtain ⟨_, _, h⟩ := of_bind h
  obtain ⟨ha, htenant⟩ := accountOf_eq_ok.mp ha
  have haid : a.accountId = deployment.accountId := key_of_find? ha
  have hself : db.accounts.replace { a with mode := a.mode } = db.accounts :=
    replace_self (haid.symm ▸ ha)
  refine ⟨a, ha, htenant, ?_⟩
  dsimp only at h
  have hdiscarded := @evaluateLocked_discarded env db a deployment instrument market
    (nowOf nowNs time)
  generalize RiskGuard.evaluateLocked env db a deployment instrument market (nowOf nowNs time)
    = r at h hdiscarded
  split at h
  · rename_i hd
    cases h
    obtain ⟨hnone, hmode⟩ := hdiscarded hd
    refine ⟨rfl, by rw [hmode, hself], ?_⟩
    unfold RiskGuard.Records
    rw [hnone]
    exact fun _ => rfl
  have hrecords := @recordReport_records db tenant deployment market r
    (RiskGuard.latch r.state r.reasons) (nowOf nowNs time)
  have haccounts := @accounts_recordReport db tenant deployment market r
    (RiskGuard.latch r.state r.reasons) (nowOf nowNs time)
  generalize RiskGuard.recordReport db tenant deployment market r (RiskGuard.latch r.state r.reasons)
    (nowOf nowNs time) = db₁ at h hrecords haccounts
  have ha₁ : db₁.accounts.find? deployment.accountId = some a := haccounts ▸ ha
  split at h
  · cases h
    refine ⟨rfl, ?_, hrecords⟩
    rw [setMode_eq ha₁, ← haccounts]
    rfl
  · rename_i hmode
    cases h
    rw [not_not] at hmode
    exact ⟨rfl, by rw [hmode, hself, haccounts], hrecords⟩

/-! ## Accepted and rejected observations -/

@[simp] theorem reasonIf_eq_nil {c : Prop} [Decidable c] {reason : String} :
    reasonIf c reason = [] ↔ ¬ c := by
  unfold reasonIf
  split_ifs with h <;> simp [h]

/-- An observation is regressed in time, stale, or superseded by the one of the
last mark. -/
def RiskGuard.Outdated (state : Option RiskState) (market : ExecutableMarketSnapshot) (now : ℕ) :
    Prop :=
  (∃ s ∈ state, now < s.lastMarkNs)
    ∨ (market.bookValid = false ∨ ¬ (market.asofNs ≤ now ∧ now ≤ market.asofNs + 1000000000))
    ∨ ∃ s ∈ state, market.asofNs < s.market.asofNs

section Evaluate

variable {a : Account} {deployment : DeploymentManifest} {instrument : InstrumentSpec}
  {market : ExecutableMarketSnapshot} {now : ℕ}

/-- **What an accepted mark is**: the valuation of an observation that is not
outdated, and the mode that its breaches ask for. -/
theorem mark_evaluateLocked {mark : RiskGuard.Mark}
    (h : (RiskGuard.evaluateLocked env db a deployment instrument market now).mark = some mark) :
    ¬ RiskGuard.Outdated (RiskGuard.stateOf db a) market now
      ∧ mark = RiskGuard.markOf a (RiskGuard.stateOf db a) deployment mark.equity now
      ∧ (RiskGuard.evaluateLocked env db a deployment instrument market now).mode
        = RiskGuard.breachMode a (RiskGuard.breachReasons db a (db.wallet a.accountId) deployment
          instrument market mark now) := by
  unfold RiskGuard.evaluateLocked at h ⊢
  dsimp only at h ⊢
  split_ifs at h with hsuperseded hreasons hprecision
  · rw [not_not] at hreasons
    have husable : RiskGuard.unusableReasons env a (RiskGuard.stateOf db a) (db.wallet a.accountId)
        deployment instrument market now = [] := hreasons
    simp only [RiskGuard.unusableReasons, append_eq_nil_iff, reasonIf_eq_nil] at husable
    cases h
    refine ⟨?_, rfl, ?_⟩
    · rintro (hregressed | hstale | hold)
      · exact husable.2 hregressed
      · exact husable.1.1.1.1.2 (hstale.imp_right .inl)
      · exact hsuperseded ⟨hreasons, hold⟩
    · rw [if_neg hsuperseded, if_neg (not_not.mpr hreasons), if_neg hprecision]

/-- A mode that a loss or a drawdown at its limit asks for is not `ACTIVE`. -/
theorem breachMode_ne_active {wallet : Wallet} {mark : RiskGuard.Mark}
    (h : mark.dailyLossLimit ≤ mark.dailyLoss ∨ mark.drawdownLimit ≤ mark.drawdown) :
    RiskGuard.breachMode a (RiskGuard.breachReasons db a wallet deployment instrument market mark now)
      ≠ .active := by
  have hsome : RiskGuard.breachReasons db a wallet deployment instrument market mark now ≠ [] := by
    unfold RiskGuard.breachReasons
    intro hnil
    simp only [append_eq_nil_iff, reasonIf_eq_nil] at hnil
    rcases h with h | h
    · exact hnil.1.1.1.1.1 h
    · exact hnil.1.1.1.1.2 h
  unfold RiskGuard.breachMode
  split_ifs <;> simp

end Evaluate

/-! ## The marks of a run -/

/-- The clock and the equity of the mark that a transaction has accepted for an
account, if it has. -/
def acceptedMark (env : Env) (id : String) (time : ℕ) (db : DB) : Transaction → Option (ℕ × ℚ)
  | .check tenant deployment instrument market nowNs =>
    if deployment.accountId = id then
      match RiskGuard.check env tenant deployment instrument market nowNs time db with
      | .ok (report, _) => report.mark.map (fun mark => (nowOf nowNs time, mark.equity))
      | .error _ => none
    else none
  | _ => none

namespace System

/-- The mark that a step has accepted for an account. -/
def markAt (env : Env) (id : String) (s : System) : Label → Option (ℕ × ℚ)
  | .run tid time => (s.tasks tid).next.bind (acceptedMark env id time s.db)
  | _ => none

/-- **The marks accepted for an account** along a run, in order. -/
def marks (env : Env) (id : String) : System → List Label → List (ℕ × ℚ)
  | _, [] => []
  | s, l :: ls => (markAt env id s l).toList ++ marks env id (step env s l) ls

theorem marks_append (env : Env) (id : String) (s : System) (ls ls' : List Label) :
    marks env id s (ls ++ ls') = marks env id s ls ++ marks env id (run (step env) s ls) ls' := by
  induction ls generalizing s with
  | nil => rfl
  | cons l ls ih =>
    rw [cons_append, marks, marks, ih, append_assoc]
    rfl

theorem marks_concat (env : Env) (id : String) (s : System) (ls : List Label) (l : Label) :
    marks env id s (ls ++ [l])
      = marks env id s ls ++ (markAt env id (run (step env) s ls) l).toList := by
  rw [marks_append, marks, marks, append_nil]

end System

/-- The equity that a day starts with: that of the last mark before the first
one of the day, and the capital without any. -/
def dayStart (capital : ℚ) (marks : List (ℕ × ℚ)) (day : ℕ) : ℚ :=
  ((marks.takeWhile (fun m => dayOf m.1 ≠ day)).getLast?.map (·.2)).getD capital

/-- **What a row of the risk state says of the marks** accepted so far. -/
structure Marked (capital : ℚ) (marks : List (ℕ × ℚ)) (row : RiskState) : Prop where
  last : marks.getLast? = some (row.lastMarkNs, row.lastEquity)
  sorted : ∀ m ∈ marks, m.1 ≤ row.lastMarkNs
  day : row.dayUtc = dayOf row.lastMarkNs
  highWater : IsGreatest {x | x = capital ∨ ∃ m ∈ marks, m.2 = x} row.highWaterEquity
  dayStart : row.dayStartEquity = Qt.dayStart capital marks row.dayUtc

theorem Marked.of_marked {marks : List (ℕ × ℚ)} {row row' : RiskState}
    (h : Marked capital marks row) (hrow : row'.marked = row.marked) :
    Marked capital marks row' := by
  have hlast : row'.lastMarkNs = row.lastMarkNs := (congrArg RiskState.lastMarkNs hrow :)
  have hequity : row'.lastEquity = row.lastEquity := (congrArg RiskState.lastEquity hrow :)
  have hday : row'.dayUtc = row.dayUtc := (congrArg RiskState.dayUtc hrow :)
  have hhigh : row'.highWaterEquity = row.highWaterEquity :=
    (congrArg RiskState.highWaterEquity hrow :)
  have hstart : row'.dayStartEquity = row.dayStartEquity :=
    (congrArg RiskState.dayStartEquity hrow :)
  obtain ⟨h₁, h₂, h₃, h₄, h₅⟩ := h
  exact ⟨by rw [h₁, hlast, hequity], by rwa [hlast], by rw [hday, hlast, h₃], by rwa [hhigh],
    by rw [hstart, hday, h₅]⟩

/-- The mark of a row, as the valuation computes it from the row before. -/
theorem IsGreatest.insert_mark {high equity : ℚ} {marks : List (ℕ × ℚ)} {now : ℕ}
    (h : IsGreatest {x | x = capital ∨ ∃ m ∈ marks, m.2 = x} high) :
    IsGreatest {x | x = capital ∨ ∃ m ∈ marks ++ [(now, equity)], m.2 = x}
      (max capital (max high equity)) := by
  obtain ⟨hmem, hub⟩ := h
  have hcapital : capital ≤ high := hub (.inl rfl)
  rw [max_eq_right (hcapital.trans (le_max_left _ _))]
  constructor
  · rcases max_cases high equity with ⟨hmax, _⟩ | ⟨hmax, _⟩ <;> rw [hmax]
    · exact hmem.imp_right (fun ⟨m, hm, he⟩ => ⟨m, mem_append_left _ hm, he⟩)
    · exact .inr ⟨(now, equity), by simp, rfl⟩
  · rintro x (rfl | ⟨m, hm, rfl⟩)
    · exact hcapital.trans (le_max_left _ _)
    · rcases mem_append.mp hm with hm | hm
      · exact (hub (.inr ⟨m, hm, rfl⟩)).trans (le_max_left _ _)
      · rw [mem_singleton.mp hm]
        exact le_max_right _ _

theorem dayStart_append_of_mem {marks : List (ℕ × ℚ)} {day : ℕ} (h : ∃ m ∈ marks, dayOf m.1 = day)
    (more : List (ℕ × ℚ)) : dayStart capital (marks ++ more) day = dayStart capital marks day := by
  unfold dayStart
  rw [takeWhile_append, if_neg]
  intro hlen
  obtain ⟨m, hm, hday⟩ := h
  have hall := takeWhile_eq_self_iff.mp (List.IsPrefix.eq_of_length ( takeWhile_prefix _) hlen) m hm
  exact (by simpa using hall : dayOf m.1 ≠ day) hday

theorem dayStart_append_of_lt {marks : List (ℕ × ℚ)} {day : ℕ} (h : ∀ m ∈ marks, dayOf m.1 ≠ day)
    {m : ℕ × ℚ} (hm : dayOf m.1 = day) :
    dayStart capital (marks ++ [m]) day = (marks.getLast?.map (·.2)).getD capital := by
  unfold dayStart
  rw [takeWhile_append_of_pos (fun m hm => by simpa using h m hm),
    takeWhile_cons_of_neg (by simpa using hm), append_nil]

variable {deployment} {market}

/-- **One more accepted mark**: the row that the valuation computes from the row
before says of the marks what it should. -/
theorem Marked.mark {marks : List (ℕ × ℚ)} {a : Account} {state : Option RiskState}
    (hnone : state = none → marks = []) (hsome : ∀ row ∈ state, Marked a.capital marks row)
    {now : ℕ} (hclock : ∀ row ∈ state, row.lastMarkNs ≤ now) {mark : RiskGuard.Mark}
    (hmark : mark = RiskGuard.markOf a state deployment mark.equity now) (tenant : String)
    (latched : List String) : Marked a.capital (marks ++ [(now, mark.equity)])
      (RiskGuard.markedState tenant deployment market mark latched now) := by
  have hhigh : mark.highWaterEquity = max a.capital
      (max ((state.map (·.highWaterEquity)).getD a.capital) mark.equity) :=
    congrArg RiskGuard.Mark.highWaterEquity hmark
  have hday : mark.dayUtc = dayOf now := congrArg RiskGuard.Mark.dayUtc hmark
  have hstart : mark.dayStartEquity
      = (RiskGuard.markOf a state deployment mark.equity now).dayStartEquity :=
    congrArg RiskGuard.Mark.dayStartEquity hmark
  -- the marks so far are those of the row, and none is later than it
  have hbefore : ∀ m ∈ marks, m.1 ≤ now := by
    cases state with
    | none =>
      rw [hnone rfl]
      simp
    | some row => exact fun m hm => ((hsome row rfl).sorted m hm).trans (hclock row rfl)
  constructor
  · exact getLast?_concat
  · intro m hm
    rcases mem_append.mp hm with hm | hm
    · exact hbefore m hm
    · exact (congrArg Prod.fst (mem_singleton.mp hm)).le
  · exact hday
  · show IsGreatest _ mark.highWaterEquity
    rw [hhigh]
    refine IsGreatest.insert_mark ?_
    cases state with
    | none =>
      rw [hnone rfl]
      exact ⟨.inl rfl, by rintro x (rfl | ⟨m, hm, _⟩); exacts [le_rfl, (by cases hm)]⟩
    | some row => exact (hsome row rfl).highWater
  · show mark.dayStartEquity = Qt.dayStart a.capital (marks ++ [(now, mark.equity)]) mark.dayUtc
    rw [hstart, hday]
    cases state with
    | none =>
      rw [hnone rfl]
      simp [Qt.dayStart, RiskGuard.markOf]
    | some row =>
      obtain ⟨hlast, hsorted, hrow, _, hrowStart⟩ := hsome row rfl
      have hmem : (row.lastMarkNs, row.lastEquity) ∈ marks := mem_of_getLast? hlast
      show (if row.dayUtc = dayOf now then row.dayStartEquity else row.lastEquity) = _
      split_ifs with hsame
      · rw [dayStart_append_of_mem ⟨_, hmem, hrow.symm.trans hsame⟩, hrowStart, hsame]
      · rw [dayStart_append_of_lt (fun m hm hm' => hsame ?_) rfl, hlast]
        · rfl
        · -- a mark of the new day would be as late as the row, which is of the day before
          have hnew : dayOf m.1 = dayOf now := hm'
          have hle : dayOf m.1 ≤ dayOf row.lastMarkNs := dayOf_mono (hsorted m hm)
          have hge : dayOf row.lastMarkNs ≤ dayOf now := dayOf_mono (hclock row rfl)
          rw [hrow]
          omega

namespace System

/-- **The risk state of an account stands for its marks**: it is there from the
first one on, and belongs to the tenant of the account. -/
def Standing (id : String) (db : DB) (marks : List (ℕ × ℚ)) : Prop :=
  (db.riskState.find? id = none → marks = []) ∧ ∀ row, db.riskState.find? id = some row →
      ∃ a, db.accounts.find? id = some a ∧ row.tenantId = a.tenantId ∧ Marked a.capital marks row

variable {id : String}

theorem Standing.of_marked {marks : List (ℕ × ℚ)} (h : Standing id db marks)
    (hmarked : (db'.riskState.find? id).map RiskState.marked
      = (db.riskState.find? id).map RiskState.marked)
    (haccount : ∀ a, db.accounts.find? id = some a →
      ∃ a', db'.accounts.find? id = some a' ∧ a'.frozen = a.frozen) : Standing id db' marks := by
  constructor
  · intro hnone
    refine h.1 ?_
    rw [hnone] at hmarked
    exact map_eq_none_iff.mp hmarked.symm
  · intro row hrow
    rw [hrow] at hmarked
    obtain ⟨old, hold, hsame⟩ := map_eq_some_iff.mp hmarked.symm
    obtain ⟨a, ha, htenant, hm⟩ := h.2 old hold
    obtain ⟨a', ha', hfrozen⟩ := haccount a ha
    refine ⟨a', ha', ?_, ?_⟩
    · rw [show row.tenantId = old.tenantId from (congrArg RiskState.tenantId hsame.symm :), htenant]
      exact (congrArg Account.tenantId hfrozen.symm :)
    · rw [show a'.capital = a.capital from (congrArg Account.capital hfrozen :)]
      exact hm.of_marked hsame.symm

theorem Standing.stateOf_eq {marks : List (ℕ × ℚ)} (h : Standing id db marks) {a : Account}
    (ha : db.accounts.find? id = some a) : RiskGuard.stateOf db a = db.riskState.find? id := by
  have haid : a.accountId = id := key_of_find? ha
  cases hrow : db.riskState.find? id with
  | none =>
    unfold RiskGuard.stateOf
    rw [haid, hrow]
    rfl
  | some row =>
    obtain ⟨b, hb, htenant, _⟩ := h.2 row hrow
    obtain rfl : a = b := some.inj (ha.symm.trans hb)
    exact stateOf_eq_some (haid.symm ▸ hrow) htenant

section

variable {marks : List (ℕ × ℚ)} (h : Standing id db marks) {tenant : String}
  {deployment : DeploymentManifest} {instrument : InstrumentSpec}
  {market : ExecutableMarketSnapshot} {nowNs : Option ℕ} {report : RiskGuard.Report}
  (hcheck : RiskGuard.check env tenant deployment instrument market nowNs time db
    = .ok (report, db'))
include h hcheck

/-- **A check keeps the row standing for the marks**, with the one it accepts. -/
theorem Standing.check : Standing id db' (marks ++ (acceptedMark env id time db
    (.check tenant deployment instrument market nowNs)).toList) := by
  obtain ⟨a, ha, htenant, hreport, haccounts, hrecords⟩ := check_eq_ok hcheck
  have haid : a.accountId = deployment.accountId := key_of_find? ha
  have haccount : ∀ b, db.accounts.find? id = some b →
      ∃ b', db'.accounts.find? id = some b' ∧ b'.frozen = b.frozen := by
    intro b hb
    rw [haccounts, find?_replace (show db.accounts.find?
      ({ a with mode := report.mode } : Account).accountId = some a from haid.symm ▸ ha)]
    split_ifs with hid
    · refine ⟨_, rfl, ?_⟩
      obtain rfl : a = b := by
        rw [hid, show ({ a with mode := report.mode } : Account).accountId = deployment.accountId
          from haid, ha] at hb
        exact some.inj hb
      rfl
    · exact ⟨b, hb, rfl⟩
  have haccepted : acceptedMark env id time db (.check tenant deployment instrument market nowNs)
      = if deployment.accountId = id then
          report.mark.map (fun mark => (nowOf nowNs time, mark.equity)) else none := by
    simp only [acceptedMark, hcheck]
  rw [haccepted]
  unfold RiskGuard.Records at hrecords
  cases hmark : report.mark with
  | none =>
    rw [hmark] at hrecords
    rw [show (if deployment.accountId = id then Option.map _ none else none) = (none : Option (ℕ × ℚ))
      by split_ifs <;> rfl, toList_none, append_nil]
    exact h.of_marked (hrecords id) haccount
  | some mark =>
    rw [hmark] at hrecords
    obtain ⟨latched, hfind⟩ := hrecords
    by_cases hid : id = deployment.accountId
    · -- the mark is of the account, and its row is the one the valuation started from
      subst hid
      rw [if_pos rfl, map_some, toList_some]
      rw [hreport] at hmark
      obtain ⟨hcurrent, hvalue, _⟩ := mark_evaluateLocked hmark
      rw [h.stateOf_eq ha] at hcurrent hvalue
      have hmarked : Marked a.capital (marks ++ [(nowOf nowNs time, mark.equity)])
          (RiskGuard.markedState tenant deployment market mark latched (nowOf nowNs time)) := by
        refine Marked.mark h.1 (fun row hrow => ?_) (fun row hrow => ?_) hvalue tenant latched
        · obtain ⟨b, hb, _, hm⟩ := h.2 row hrow
          obtain rfl : a = b := some.inj (ha.symm.trans hb)
          exact hm
        · by_contra hlate
          exact hcurrent (.inl ⟨row, hrow, not_le.mp hlate⟩)
      obtain ⟨a', ha', hfrozen⟩ := haccount a ha
      refine ⟨fun hnone => ?_, fun row hrow => ?_⟩
      · rw [hfind, if_pos rfl] at hnone
        cases hnone
      · rw [hfind, if_pos rfl] at hrow
        cases hrow
        refine ⟨a', ha', htenant.symm.trans (congrArg Account.tenantId hfrozen.symm :), ?_⟩
        rw [show a'.capital = a.capital from (congrArg Account.capital hfrozen :)]
        exact hmarked
    · rw [if_neg (fun he => hid he.symm), toList_none, append_nil]
      refine h.of_marked ?_ haccount
      rw [hfind, if_neg hid]

/-- What an accepted mark leaves: its valuation in the row, and an account that
is not `ACTIVE` if a loss is at its limit. -/
theorem Standing.accepted (hid : deployment.accountId = id) {mark : RiskGuard.Mark}
    (hmark : report.mark = some mark) :
    ∃ a row, db'.accounts.find? id = some a ∧ db'.riskState.find? id = some row
      ∧ row.lastEquity = mark.equity
      ∧ mark.dailyLoss = max 0 (row.dayStartEquity - row.lastEquity)
      ∧ mark.drawdown = max 0 (row.highWaterEquity - row.lastEquity)
      ∧ mark.dailyLossLimit = ctxMul a.capital
        (min (5 / 1000) deployment.riskBudget.maximumDailyLossFraction)
      ∧ mark.drawdownLimit = ctxMul a.capital
        (min (3 / 100) deployment.riskBudget.maximumDrawdownFraction)
      ∧ (mark.dailyLossLimit ≤ mark.dailyLoss ∨ mark.drawdownLimit ≤ mark.drawdown →
        a.mode ≠ .active) := by
  subst hid
  obtain ⟨a, ha, _, hreport, haccounts, hrecords⟩ := check_eq_ok hcheck
  have haid : a.accountId = deployment.accountId := key_of_find? ha
  unfold RiskGuard.Records at hrecords
  rw [hmark] at hrecords
  obtain ⟨latched, hfind⟩ := hrecords
  rw [hreport] at hmark
  obtain ⟨_, hvalue, hmode⟩ := mark_evaluateLocked hmark
  rw [h.stateOf_eq ha] at hvalue
  refine ⟨{ a with mode := report.mode }, _, ?_, (hfind _).trans (if_pos rfl), rfl, ?_, ?_, ?_, ?_,
    fun hbreach => ?_⟩
  · rw [haccounts, ← haid]
    exact find?_replace_self (s := { a with mode := report.mode }) (haid.symm ▸ ha)
  · show mark.dailyLoss = max 0 (mark.dayStartEquity - mark.equity)
    rw [hvalue]
    rfl
  · show mark.drawdown = max 0 (mark.highWaterEquity - mark.equity)
    rw [hvalue]
    rfl
  · rw [hvalue]
    rfl
  · rw [hvalue]
    rfl
  · show report.mode ≠ .active
    rw [hreport, hmode]
    exact breachMode_ne_active hbreach

end

/-- **A transaction keeps the row standing for the marks.** -/
theorem Standing.exec {marks : List (ℕ × ℚ)} (h : Standing id db marks) {outcome : Outcome}
    (hheld : tx.Held db) (hexec : tx.exec env time db = .ok (outcome, db')) :
    Standing id db' (marks ++ (acceptedMark env id time db tx).toList) := by
  have haccount : ∀ a, db.accounts.find? id = some a →
      ∃ a', db'.accounts.find? id = some a' ∧ a'.frozen = a.frozen := by
    intro a ha
    obtain ⟨a', ha', hfrozen, _⟩ := (commit_of_exec hheld hexec).account ha
    exact ⟨a', ha', hfrozen⟩
  by_cases hmarks : tx.marks = true
  · cases tx with
    | check tenant deployment instrument market nowNs =>
      obtain ⟨⟨report, db₁⟩, hcheck, hexec⟩ := of_bind hexec
      cases hexec
      exact h.check hcheck
    | stop tenant accountId reasons mode deploymentId =>
      obtain ⟨db₁, hstop, hexec⟩ := of_bind hexec
      cases hexec
      show Standing id db' (marks ++ [])
      rw [append_nil]
      exact h.of_marked (marked_stop hstop id) haccount
    | _ => cases hmarks
  · have hnone : acceptedMark env id time db tx = none := by
      cases tx with
      | check => exact absurd rfl hmarks
      | _ => rfl
    rw [hnone, toList_none, append_nil]
    refine h.of_marked ?_ haccount
    rw [(exec_spec hheld hexec).2 (by simpa using hmarks)]

theorem acceptedMark_of_error {e : Exc} (h : tx.exec env time db = .error e) :
    acceptedMark env id time db tx = none := by
  cases tx with
  | check tenant deployment instrument market nowNs =>
    cases hcheck : RiskGuard.check env tenant deployment instrument market nowNs time db with
    | error => simp [acceptedMark, hcheck]
    | ok p =>
      have hexec : Transaction.exec env time db (.check tenant deployment instrument market nowNs)
          = .ok (.report p.1, p.2) := bind_eq_ok.mpr ⟨p, hcheck, rfl⟩
      rw [hexec] at h
      cases h
  | _ => rfl

/-- **A step keeps the row standing for the marks.** -/
theorem Standing.step {s : System} (hs : s.Held) {marks : List (ℕ × ℚ)} (h : Standing id s.db marks)
    (l : Label) : Standing id (step env s l).db (marks ++ (markAt env id s l).toList) := by
  have hquiet : markAt env id s l = none → commits env s l = none →
      Standing id (System.step env s l).db (marks ++ (markAt env id s l).toList) := by
    intro hnone hcommits
    rwa [hnone, db_of_commits_none hcommits, toList_none, append_nil]
  cases l with
  | call | reply | crash => exact hquiet rfl rfl
  | run tid time =>
    cases hnext : (s.tasks tid).next with
    | none => exact hquiet (by simp [markAt, hnext]) (by simp [commits, hnext])
    | some tx =>
      have hmark : markAt env id s (.run tid time) = acceptedMark env id time s.db tx := by
        simp [markAt, hnext]
      cases hexec : tx.exec env time s.db with
      | error e =>
        refine hquiet (hmark.trans (acceptedMark_of_error hexec)) ?_
        simp [commits, hnext, hexec, Except.isOk, Except.toBool]
      | ok p =>
        obtain ⟨outcome, db'⟩ := p
        have hdb : (System.step env s (.run tid time)).db = db' := by
          simp [System.step, hnext, hexec]
        rw [hmark, hdb]
        exact h.exec ((hs tid).next hnext) hexec

/-- **The risk state stands for the marks of the run.** -/
theorem standing_after (env : Env) (id : String) (ls : List Label) :
    Standing id (after env ls).db (marks env id init ls) := by
  induction ls using List.reverseRecOn with
  | nil => exact ⟨fun _ => rfl, fun row hrow => by cases hrow⟩
  | append_singleton ls l ih =>
    rw [marks_concat, after_concat]
    exact ih.step (held_after env ls) l

/-- **The high water never falls.** -/
theorem highWater_of_run (env : Env) (ls ls' : List Label) {row : RiskState}
    (hrow : (after env ls).db.riskState.find? id = some row) :
    ∃ row', (after env (ls ++ ls')).db.riskState.find? id = some row'
      ∧ row.highWaterEquity ≤ row'.highWaterEquity := by
  obtain ⟨a, ha, _, hm⟩ := (standing_after env id ls).2 row hrow
  obtain ⟨row', hrow', _⟩ := latched_of_run env ls ls' hrow
  obtain ⟨b, hb, _, hm'⟩ := (standing_after env id (ls ++ ls')).2 row' hrow'
  obtain ⟨a', ha', hfrozen⟩ := account_of_run env ls ls' ha
  obtain rfl : a' = b := some.inj (ha'.symm.trans hb)
  refine ⟨row', hrow', hm'.highWater.2 ?_⟩
  rcases hm.highWater.1 with he | ⟨m, hmem, he⟩
  · exact .inl (he.trans (congrArg Account.capital hfrozen.symm :))
  · exact .inr ⟨m, by rw [marks_append]; exact mem_append_left _ hmem, he⟩

/-- **The marks of an account, over every run**: its high water is the greatest
of the capital and the equities accepted, and never falls; a day starts with
the last equity accepted before its first mark, or the capital; an observation
that is regressed, stale or superseded leaves both, and the equity; and an
accepted mark at its daily loss or drawdown limit leaves the account
non-`ACTIVE`. -/
theorem risk_marks (env : Env) (ls : List Label) (id : String) :
    (∀ row, (after env ls).db.riskState.find? id = some row →
      ∃ a, (after env ls).db.accounts.find? id = some a
        ∧ IsGreatest {x | x = a.capital ∨ ∃ m ∈ marks env id init ls, m.2 = x} row.highWaterEquity
        ∧ row.dayStartEquity = dayStart a.capital (marks env id init ls) row.dayUtc
        ∧ (marks env id init ls).getLast? = some (row.lastMarkNs, row.lastEquity)
        ∧ row.dayUtc = dayOf row.lastMarkNs
        ∧ ∀ ls', ∃ row', (after env (ls ++ ls')).db.riskState.find? id = some row'
          ∧ row.highWaterEquity ≤ row'.highWaterEquity)
    ∧ ((after env ls).db.riskState.find? id = none → marks env id init ls = [])
    ∧ ∀ tenant deployment instrument market nowNs time report db',
      RiskGuard.check env tenant deployment instrument market nowNs time (after env ls).db
        = .ok (report, db') → deployment.accountId = id →
      ((report.mark = none ∨ RiskGuard.Outdated ((after env ls).db.riskState.find? id) market
          (nowOf nowNs time)) →
        report.mark = none ∧ (db'.riskState.find? id).map RiskState.marked
          = ((after env ls).db.riskState.find? id).map RiskState.marked)
      ∧ ∀ mark, report.mark = some mark → ∃ a row, db'.accounts.find? id = some a
        ∧ db'.riskState.find? id = some row ∧ row.lastEquity = mark.equity
        ∧ mark.dailyLoss = max 0 (row.dayStartEquity - row.lastEquity)
        ∧ mark.drawdown = max 0 (row.highWaterEquity - row.lastEquity)
        ∧ mark.dailyLossLimit = ctxMul a.capital
          (min (5 / 1000) deployment.riskBudget.maximumDailyLossFraction)
        ∧ mark.drawdownLimit = ctxMul a.capital
          (min (3 / 100) deployment.riskBudget.maximumDrawdownFraction)
        ∧ (mark.dailyLossLimit ≤ mark.dailyLoss ∨ mark.drawdownLimit ≤ mark.drawdown →
          a.mode ≠ .active) := by
  have hstanding := standing_after env id ls
  refine ⟨fun row hrow => ?_, hstanding.1, ?_⟩
  · obtain ⟨a, ha, _, hm⟩ := hstanding.2 row hrow
    exact ⟨a, ha, hm.highWater, hm.dayStart, hm.last, hm.day,
      fun ls' => highWater_of_run env ls ls' hrow⟩
  intro tenant deployment instrument market nowNs time report db' hcheck hid
  refine ⟨fun hrejected => ?_, fun mark hmark => hstanding.accepted hcheck hid hmark⟩
  obtain ⟨a, ha, _, hreport, _, hrecords⟩ := check_eq_ok hcheck
  -- an observation that is outdated has no mark
  have hnone : report.mark = none := by
    refine hrejected.elim (fun hnone => hnone) (fun hout => ?_)
    cases hmark : report.mark with
    | none => rfl
    | some mark =>
      rw [hreport] at hmark
      rw [← hstanding.stateOf_eq (hid ▸ ha)] at hout
      exact absurd hout (mark_evaluateLocked hmark).1
  unfold RiskGuard.Records at hrecords
  rw [hnone] at hrecords
  exact ⟨hnone, hrecords id⟩

end System

end Qt
