import QuantTrading.Lib.Machine
import QuantTrading.Persistence

/-!
# The usage budget of research

`qt.operations.budgets`: before a paid request to a model, its cost is
reserved in three periods at once – the day, the month and the run – and when
the actual cost is known, each of the three takes it in the place of the
reservation.

The arithmetic is that of the *default* decimal context, of 28 significant
digits, and not that of the 80 digits of the trading path. Money has up to 38,
so a cost can be too long for it: `Exact` says of a number that it is not.
A `Decimal` that is not finite raises before anything is read, and is no value
here.
-/

namespace Qt

open Except List Table Option Machine
open SigDigits

/-! ## Rows -/

/-- The date of `datetime.now(timezone.utc)`. -/
structure Date where
  year : ℕ
  month : ℕ
  day : ℕ
deriving DecidableEq

/-- The buckets of spend, which their texts determine. -/
inductive Period
  | day (date : Date)
  | month (year month : ℕ)
  | run (run : String)
deriving DecidableEq

/-- A row of `usage_budgets`. -/
structure UsageBudget where
  tenantId : String
  period : Period
  reserved : ℚ
  maximum : ℚ
deriving DecidableEq

inductive CallStatus | reserved | exceeded | completed
deriving DecidableEq, Repr

/-- A row of `model_calls`. -/
structure ModelCall where
  tenantId : String
  callId : String
  runId : String
  requestHash : Sha256
  periods : List Period
  reserved : ℚ
  actual : Option ℚ
  status : CallStatus
  createdNs : ℕ
deriving DecidableEq

def UsageBudget.key (b : UsageBudget) : String × Period := (b.tenantId, b.period)

def ModelCall.key (c : ModelCall) : String × String := (c.tenantId, c.callId)

/-- The table of budgets. -/
abbrev Budgets := Table UsageBudget.key

structure UsageLedger where
  budgets : Budgets
  calls : Table ModelCall.key

/-! ## Arithmetic -/

/-- A number that the default context does not round. -/
def Exact (x : ℚ) : Prop := roundSig 28 x = x
deriving Decidable

/-- A sum in the default context. -/
def defaultAdd (x y : ℚ) : ℚ := roundSig 28 (x + y)

/-- A difference in the default context. -/
def defaultSub (x y : ℚ) : ℚ := roundSig 28 (x - y)

/-! ## Transactions -/

/-- The statement error of a value that `ExactMoney` does not bind. -/
def unboundMoney : Exc := .statementError "money_does_not_fit_numeric_38_18_exactly"

/-- The budgets of the periods, locked one after the other; one that is not
there is opened. -/
def lockBudgets (tenant : String) : List (Period × ℚ) → Budgets →
    Except Exc (List UsageBudget × Budgets)
  | [], budgets => .ok ([], budgets)
  | (period, maximum) :: rest, budgets => do
    raiseIf (¬ Fits maximum) unboundMoney
    let budgets := budgets.insertOnce ⟨tenant, period, 0, maximum⟩
    match budgets.find? (tenant, period) with
    | none => .error (.keyError "NoResultFound")
    | some row => do
      let (rows, budgets) ← lockBudgets tenant rest budgets
      return (row :: rows, budgets)

/-- The budgets of the periods, locked one after the other. -/
def readBudgets (tenant : String) (budgets : Budgets) : List Period → Except Exc (List UsageBudget)
  | [] => .ok []
  | period :: rest =>
    match budgets.find? (tenant, period) with
    | none => .error (.keyError "NoResultFound")
    | some row => do
      let rows ← readBudgets tenant budgets rest
      return row :: rows

/-- What was read of the budgets, with an amount added, written back. -/
def chargeBudgets (tenant : String) (amount : ℚ) : List UsageBudget → Budgets → Except Exc Budgets
  | [], budgets => .ok budgets
  | row :: rest, budgets => do
    raiseIf (¬ Fits (defaultAdd row.reserved amount)) unboundMoney
    chargeBudgets tenant amount rest (budgets.update (tenant, row.period)
      (fun b => { b with reserved := defaultAdd row.reserved amount }) (fun _ => rfl))

/-- The arguments of `UsageLedger.reserve`. -/
structure UsageCall where
  tenant : String
  run : String
  call : String
  requestHash : Sha256
  amount : ℚ
  runMaximum : ℚ
  dayMaximum : ℚ
  monthMaximum : ℚ
deriving DecidableEq

variable (c : UsageCall) (date : Date)

/-- The periods of a reservation with their maxima, in the order of their
texts. -/
def UsageCall.limits : List (Period × ℚ) :=
  [(.day date, c.dayMaximum), (.month date.year date.month, c.monthMaximum), (.run c.run, c.runMaximum)]

/-- `periods[row["period"]]`. -/
def UsageCall.limit : Period → ℚ
  | .day _ => c.dayMaximum
  | .month _ _ => c.monthMaximum
  | .run _ => c.runMaximum

/-- The row of a reservation. -/
def UsageCall.row (now : ℕ) : ModelCall where
  tenantId := c.tenant
  callId := c.call
  runId := c.run
  requestHash := c.requestHash
  periods := (c.limits date).map (·.1)
  reserved := c.amount
  actual := none
  status := .reserved
  createdNs := now

def UsageLedger.reserve (now : ℕ) (u : UsageLedger) : Except Exc (ModelCall × UsageLedger) := do
  raiseIf (c.amount ≤ 0 ∨ c.runMaximum ≤ 0 ∨ c.dayMaximum ≤ 0 ∨ c.monthMaximum ≤ 0
      ∨ 1 < c.runMaximum ∨ 5 < c.dayMaximum ∨ 150 < c.monthMaximum)
    (.valueError "invalid_or_excessive_research_allocation")
  let (locked, budgets) ← lockBudgets c.tenant (c.limits date) u.budgets
  match u.calls.find? (c.tenant, c.call) with
  | some existing => do
    raiseIf (existing.requestHash ≠ c.requestHash) (.conflict "model_call_identity_conflict")
    .error (.conflict "model_call_already_reserved_do_not_repeat")
  | none => do
    raiseIf (∃ row ∈ locked, min row.maximum (c.limit row.period) < defaultAdd row.reserved c.amount)
      (.valueError "research_spend_budget_exhausted")
    let budgets ← chargeBudgets c.tenant c.amount locked budgets
    raiseIf (¬ Fits c.amount) unboundMoney
    return (c.row date now, ⟨budgets, u.calls.insertOnce (c.row date now)⟩)

/-- The row of a call whose actual cost is known. -/
def ModelCall.completed (actual : ℚ) (c : ModelCall) : ModelCall :=
  { c with
    actual := some actual
    status := if 0 < defaultSub actual c.reserved then .exceeded else .completed }

def UsageLedger.complete (tenant call : String) (actual : ℚ) (u : UsageLedger) :
    Except Exc UsageLedger := do
  raiseIf (actual < 0) (.valueError "invalid_actual_cost")
  match u.calls.find? (tenant, call) with
  | none => .error (.keyError "NoResultFound")
  | some row => do
    let budgets ← readBudgets tenant u.budgets row.periods
    match row.actual with
    | some known => do
      raiseIf (known ≠ actual) (.conflict "actual_cost_is_immutable")
      return u
    | none => do
      let delta := defaultSub actual row.reserved
      let charged ← chargeBudgets tenant delta budgets u.budgets
      raiseIf (¬ Fits actual) unboundMoney
      return ⟨charged, u.calls.update (tenant, call) (ModelCall.completed actual) (fun _ => rfl)⟩

namespace UsageLedger

/-- The transactions on the ledger, with the date and the clock of the host. -/
inductive Label
  | reserve (c : UsageCall) (date : Date) (now : ℕ)
  | complete (tenant call : String) (actual : ℚ)

/-- **A step of the ledger**: a transaction that raises changes nothing. -/
def step (u : UsageLedger) : Label → UsageLedger
  | .reserve c date now =>
    match u.reserve c date now with
    | .ok (_, u') => u'
    | .error _ => u
  | .complete tenant call actual =>
    match u.complete tenant call actual with
    | .ok u' => u'
    | .error _ => u

/-- A ledger without calls. -/
def init : UsageLedger := ⟨.empty, .empty⟩

/-- The ledger after a run from its start. -/
def after (ls : List Label) : UsageLedger := Machine.run step init ls

end UsageLedger

/-! ## What the statements do -/

section Statements

variable {tenant : String} {budgets budgets' : Budgets} {rows : List UsageBudget} {amount : ℚ}

/-- **The budgets of some periods are locked**: they are there, what was there
before still is, and nothing was spent of those that were opened. -/
structure Locked (tenant : String) (limits : List (Period × ℚ)) (budgets : Budgets)
    (rows : List UsageBudget) (budgets' : Budgets) : Prop where
  kept : ∀ k b, budgets.find? k = some b → budgets'.find? k = some b
  opened : ∀ k b, budgets'.find? k = some b → budgets.find? k = some b
    ∨ budgets.find? k = none ∧ ∃ limit ∈ limits, b = ⟨tenant, limit.1, 0, limit.2⟩
  periods : rows.map (·.period) = limits.map (·.1)
  row : ∀ b ∈ rows, budgets'.find? (tenant, b.period) = some b

theorem lockBudgets_eq_ok {limits : List (Period × ℚ)}
    (h : lockBudgets tenant limits budgets = .ok (rows, budgets')) :
    Locked tenant limits budgets rows budgets' := by
  induction limits generalizing budgets rows budgets' with
  | nil =>
    cases h
    exact ⟨fun _ _ h => h, fun _ _ h => .inl h, rfl, fun _ h => by cases h⟩
  | cons limit limits ih =>
    obtain ⟨period, maximum⟩ := limit
    unfold lockBudgets at h
    obtain ⟨_, h⟩ := of_raiseIf h
    dsimp only at h
    split at h
    · cases h
    · rename_i row hrow
      obtain ⟨⟨rest, budgets''⟩, hrest, h⟩ := of_bind h
      cases h
      obtain ⟨hkept, hopened, hperiods, hrows⟩ := ih hrest
      have hperiod : row.period = period := congrArg Prod.snd (key_of_find? hrow)
      refine ⟨fun k b hb => hkept k b (find?_insertOnce_of_find? hb), ?_, ?_, ?_⟩
      · intro k b hb
        rcases hopened k b hb with hb | ⟨hnone, other, hmem, rfl⟩
        · rw [find?_insertOnce] at hb
          split_ifs at hb with hnew
          · refine .inr ⟨hnew.2 ▸ hnew.1, (period, maximum), mem_cons_self, ?_⟩
            exact (some.inj hb).symm
          · exact .inl hb
        · refine .inr ⟨?_, other, mem_cons_of_mem _ hmem, rfl⟩
          by_contra hsome
          obtain ⟨b, hb⟩ := ne_none_iff_exists'.mp hsome
          rw [find?_insertOnce_of_find? hb] at hnone
          cases hnone
      · rw [map_cons, map_cons, hperiods, hperiod]
      · intro b hb
        rcases mem_cons.mp hb with rfl | hb
        · rw [hperiod]
          exact hkept _ _ hrow
        · exact hrows b hb

theorem readBudgets_eq_ok {periods : List Period} (h : readBudgets tenant budgets periods = .ok rows) :
    rows.map (·.period) = periods ∧ ∀ b ∈ rows, budgets.find? (tenant, b.period) = some b := by
  induction periods generalizing rows with
  | nil =>
    cases h
    exact ⟨rfl, fun _ h => by cases h⟩
  | cons period periods ih =>
    unfold readBudgets at h
    split at h
    · cases h
    · rename_i row hrow
      obtain ⟨rest, hrest, h⟩ := of_bind h
      cases h
      obtain ⟨hperiods, hrows⟩ := ih hrest
      have hperiod : row.period = period := congrArg Prod.snd (key_of_find? hrow)
      refine ⟨by rw [map_cons, hperiods, hperiod], fun b hb => ?_⟩
      rcases mem_cons.mp hb with rfl | hb
      · rw [hperiod]
        exact hrow
      · exact hrows b hb

/-- **Charging the budgets that were read** adds the amount to each of them, and
touches no other. -/
theorem chargeBudgets_eq_ok (h : chargeBudgets tenant amount rows budgets = .ok budgets')
    (hnodup : (rows.map (·.period)).Nodup)
    (hrows : ∀ b ∈ rows, budgets.find? (tenant, b.period) = some b) (k : String × Period) :
    budgets'.find? k = (budgets.find? k).map (fun b =>
      if k.1 = tenant ∧ k.2 ∈ rows.map (·.period) then
        { b with reserved := defaultAdd b.reserved amount }
      else b)
    ∧ ∀ b ∈ rows, Fits (defaultAdd b.reserved amount) := by
  induction rows generalizing budgets with
  | nil =>
    cases h
    simp
  | cons row rows ih =>
    obtain ⟨hfits, h⟩ := of_raiseIf h
    rw [map_cons, nodup_cons] at hnodup
    have hrow := hrows row mem_cons_self
    have hother : ∀ b ∈ rows, b.period ≠ row.period :=
      fun b hb he => hnodup.1 (he ▸ mem_map_of_mem hb)
    obtain ⟨hfind, hall⟩ := ih h hnodup.2 (fun b hb =>
      ((Table.find?_update _ _ _ _ _).trans (if_neg (fun he => hother b hb (congrArg Prod.snd he)))).trans
        (hrows b (mem_cons_of_mem _ hb)))
    refine ⟨?_, fun b hb => (mem_cons.mp hb).elim (fun he => he ▸ not_not.mp hfits) (hall b)⟩
    rw [hfind]
    refine (congrArg (Option.map _) (Table.find?_update _ _ _ _ _)).trans ?_
    by_cases hk : k = (tenant, row.period)
    · subst hk
      simp [hrow, hnodup.1]
    · have hk' : k.1 = tenant → k.2 ≠ row.period := fun h₁ h₂ => hk (Prod.ext h₁ h₂)
      rw [if_neg hk]
      congr 1
      funext b
      by_cases htenant : k.1 = tenant
      · simp [htenant, hk' htenant]
      · simp [htenant]

end Statements

/-! ## What the transactions do -/

theorem UsageCall.periods_nodup (now : ℕ) : (c.row date now).periods.Nodup := by
  simp [UsageCall.row, UsageCall.limits]

namespace UsageLedger

variable {u u' : UsageLedger}

/-- **What a reservation does**, where it is granted. -/
structure Reserved (c : UsageCall) (date : Date) (now : ℕ) (u u' : UsageLedger) : Prop where
  amount : 0 < c.amount ∧ Fits c.amount
  fresh : u.calls.find? (c.tenant, c.call) = none
  calls : u'.calls = u.calls.insertOnce (c.row date now)
  opened : ∀ p ∈ (c.row date now).periods, ∃ b, u'.budgets.find? (c.tenant, p) = some b
  kept : ∀ k b, u.budgets.find? k = some b → ∃ b', u'.budgets.find? k = some b'
  budget : ∀ k b', u'.budgets.find? k = some b' → ∃ b, (u.budgets.find? k = some b
      ∨ u.budgets.find? k = none ∧ b.reserved = 0 ∧ b.maximum ≤ 150)
    ∧ b'.maximum = b.maximum
    ∧ ((k.1 = c.tenant ∧ k.2 ∈ (c.row date now).periods ∧ b'.reserved = defaultAdd b.reserved c.amount
        ∧ Fits b'.reserved ∧ b'.reserved ≤ b'.maximum)
      ∨ (¬ (k.1 = c.tenant ∧ k.2 ∈ (c.row date now).periods) ∧ b' = b ∧ u.budgets.find? k = some b))

variable {date : Date} {now : ℕ}

theorem reserve_eq_ok {c : UsageCall} {row : ModelCall} (h : u.reserve c date now = .ok (row, u')) :
    Reserved c date now u u' ∧ row = c.row date now := by
  unfold reserve at h
  obtain ⟨hlimits, h⟩ := of_raiseIf h
  simp only [not_or, not_le, not_lt] at hlimits
  obtain ⟨hamount, -, -, -, hrun, hday, hmonth⟩ := hlimits
  obtain ⟨⟨locked, mid⟩, hlocked, h⟩ := of_bind h
  obtain ⟨hkept, hopened, hperiods, hrows⟩ := lockBudgets_eq_ok hlocked
  dsimp only at h
  split at h
  · obtain ⟨_, h⟩ := of_raiseIf h
    cases h
  · rename_i hfresh
    obtain ⟨hroom, h⟩ := of_raiseIf h
    obtain ⟨budgets, hcharged, h⟩ := of_bind h
    obtain ⟨hfits, h⟩ := of_raiseIf h
    cases h
    have hperiods' : locked.map (·.period) = (c.row date now).periods := hperiods
    have hnodup : (locked.map (·.period)).Nodup := hperiods' ▸ UsageCall.periods_nodup c date now
    have hcharge := chargeBudgets_eq_ok hcharged hnodup hrows
    have hsome : ∀ k b, mid.find? k = some b → ∃ b', budgets.find? k = some b' := by
      intro k b hb
      rw [(hcharge k).1, hb]
      exact ⟨_, rfl⟩
    refine ⟨⟨⟨hamount, not_not.mp hfits⟩, hfresh, rfl, ?_, fun k b hb => hsome k b (hkept k b hb), ?_⟩,
      rfl⟩
    · intro p hp
      rw [← hperiods'] at hp
      obtain ⟨b, hb, rfl⟩ := mem_map.mp hp
      exact hsome _ b (hrows b hb)
    · intro k b' hb'
      rw [(hcharge k).1] at hb'
      obtain ⟨b, hb, rfl⟩ := map_eq_some_iff.mp hb'
      refine ⟨b, ?_, ?_, ?_⟩
      · refine (hopened k b hb).imp_right (fun ⟨hnone, limit, hlimit, he⟩ => ⟨hnone, by rw [he], ?_⟩)
        rw [he]
        have hlimit : limit = (.day date, c.dayMaximum)
            ∨ limit = (.month date.year date.month, c.monthMaximum)
            ∨ limit = (.run c.run, c.runMaximum) := by simpa [UsageCall.limits] using hlimit
        rcases hlimit with rfl | rfl | rfl
        · exact hday.trans (by norm_num)
        · exact hmonth
        · exact hrun.trans (by norm_num)
      · split_ifs <;> rfl
      · rw [hperiods']
        by_cases hk : k.1 = c.tenant ∧ k.2 ∈ (c.row date now).periods
        · -- the budget is one of those that were locked, and was found to have room
          rw [if_pos hk]
          have hmem : b ∈ locked := by
            obtain ⟨row, hrow, hp⟩ := mem_map.mp (hperiods'.symm ▸ hk.2 : k.2 ∈ locked.map (·.period))
            have hfound := hrows row hrow
            rw [show (c.tenant, row.period) = k from Prod.ext hk.1.symm hp, hb] at hfound
            exact (some.inj hfound) ▸ hrow
          refine .inl ⟨hk.1, hk.2, rfl, (hcharge k).2 b hmem, ?_⟩
          by_contra hover
          exact hroom ⟨b, hmem, (min_le_left _ _).trans_lt (not_le.mp hover)⟩
        · rw [if_neg hk]
          refine .inr ⟨hk, rfl, (hopened k b hb).resolve_right ?_⟩
          rintro ⟨_, limit, hlimit, rfl⟩
          have hkey := key_of_find? hb
          exact hk ⟨(congrArg Prod.fst hkey).symm, (congrArg Prod.snd hkey :) ▸ mem_map_of_mem hlimit⟩

variable {tenant : String} {actual : ℚ}

/-- **What a completion does**, where it returns: nothing, if the cost was known
before, or the budgets of the call take the cost in the place of what was
reserved. -/
theorem complete_eq_ok {call : String} (h : u.complete tenant call actual = .ok u') :
    u' = u ∨ ∃ c, u.calls.find? (tenant, call) = some c ∧ c.actual = none ∧ 0 ≤ actual ∧ Fits actual
      ∧ u'.calls = u.calls.update (tenant, call) (ModelCall.completed actual) (fun _ => rfl)
      ∧ (c.periods.Nodup → ∀ k, u'.budgets.find? k = (u.budgets.find? k).map (fun b =>
          if k.1 = tenant ∧ k.2 ∈ c.periods then
            { b with reserved := defaultAdd b.reserved (defaultSub actual c.reserved) }
          else b)
        ∧ ∀ b, u.budgets.find? k = some b → k.1 = tenant → k.2 ∈ c.periods →
          Fits (defaultAdd b.reserved (defaultSub actual c.reserved))) := by
  unfold complete at h
  obtain ⟨hactual, h⟩ := of_raiseIf h
  split at h
  · cases h
  · rename_i c hc
    obtain ⟨rows, hrows, h⟩ := of_bind h
    split at h
    · obtain ⟨_, h⟩ := of_raiseIf h
      cases h
      exact .inl rfl
    · rename_i hnone
      obtain ⟨charged, hcharged, h⟩ := of_bind h
      obtain ⟨hfits, h⟩ := of_raiseIf h
      cases h
      obtain ⟨hperiods, hfound⟩ := readBudgets_eq_ok hrows
      refine .inr ⟨c, hc, hnone, not_lt.mp hactual, not_not.mp hfits, rfl, fun hnodup k => ?_⟩
      rw [← hperiods] at hnodup ⊢
      obtain ⟨hfind, hall⟩ := chargeBudgets_eq_ok hcharged hnodup hfound k
      refine ⟨hfind, fun b hb htenant hperiod => ?_⟩
      obtain ⟨row, hrow, hp⟩ := mem_map.mp hperiod
      have hsame := hfound row hrow
      rw [show (tenant, row.period) = k from Prod.ext htenant.symm hp, hb] at hsame
      exact some.inj hsame ▸ hall row hrow

/-! ## Sums -/

/-- The call is counted in the period of a tenant. -/
def Counts (k : String × Period) (c : ModelCall) : Prop := c.tenantId = k.1 ∧ k.2 ∈ c.periods
deriving Decidable

/-- What a call weighs: what it cost, or what is reserved for it. -/
def charge (c : ModelCall) : ℚ := c.actual.getD c.reserved

variable (u)

/-- **What the calls counted in a period weigh.** -/
def counted (k : String × Period) : ℚ := u.calls.sumOf (Counts k) charge

/-- The arithmetic of a completion needs no more than the 28 digits of the
default context: the difference that it makes, and each of the sums that it
leaves in the periods of the call. -/
def Unrounded : Label → Prop
  | .reserve _ _ _ => True
  | .complete tenant call actual => 0 ≤ actual → Fits actual →
    ∀ c ∈ u.calls.find? (tenant, call), c.actual = none →
      Exact (actual - c.reserved) ∧ ∀ p ∈ c.periods, ∀ b ∈ u.budgets.find? (tenant, p),
        Exact (b.reserved + (actual - c.reserved))

instance (u : UsageLedger) : (l : Label) → Decidable (u.Unrounded l)
  | .reserve _ _ _ => inferInstanceAs (Decidable True)
  | .complete tenant call actual => inferInstanceAs (Decidable (0 ≤ actual → Fits actual →
    ∀ c ∈ u.calls.find? (tenant, call), c.actual = none →
      Exact (actual - c.reserved) ∧ ∀ p ∈ c.periods, ∀ b ∈ u.budgets.find? (tenant, p),
        Exact (b.reserved + (actual - c.reserved))))

/-- What every ledger satisfies: money fits its columns, a call is counted in
distinct periods that have a budget, and no budget is above that of a month. -/
structure Sound (u : UsageLedger) : Prop where
  call : ∀ c ∈ u.calls.rows, (0 ≤ c.reserved ∧ Fits c.reserved) ∧ (∀ a ∈ c.actual, 0 ≤ a ∧ Fits a)
    ∧ (c.periods ≠ [] ∧ c.periods.Nodup)
    ∧ ∀ p ∈ c.periods, ∃ b, u.budgets.find? (c.tenantId, p) = some b
  budget : ∀ k b, u.budgets.find? k = some b → Fits b.reserved ∧ b.maximum ≤ 150

/-- **Each period reserves what the calls counted in it weigh.** -/
def Balanced : Prop :=
  ∀ k b, u.budgets.find? k = some b → b.reserved = u.counted k

variable {u}

theorem Sound.charge_nonneg (h : u.Sound) {c : ModelCall} (hc : c ∈ u.calls.rows) : 0 ≤ charge c := by
  obtain ⟨⟨hreserved, _⟩, hactual, _⟩ := h.call c hc
  unfold charge
  cases ha : c.actual with
  | none => exact hreserved
  | some a => exact (hactual a ha).1

theorem Sound.counted_nonneg (h : u.Sound) (k : String × Period) : 0 ≤ u.counted k := by
  refine sum_nonneg (fun x hx => ?_)
  obtain ⟨c, hc, rfl⟩ := mem_map.mp hx
  exact h.charge_nonneg (mem_filter.mp hc).1

theorem Sound.counted_eq_zero (h : u.Sound) {k : String × Period} (hk : u.budgets.find? k = none) :
    u.counted k = 0 := by
  refine sumOf_eq_zero (fun c hc hcounts => ?_) _
  obtain ⟨b, hb⟩ := (h.call c hc).2.2.2 k.2 hcounts.2
  rw [hcounts.1] at hb
  rw [hk] at hb
  cases hb

/-- A sum that the default context shows as no more than a budget is exact. -/
theorem defaultAdd_eq {x y : ℚ} (hx : OnGrid 18 x) (hy : OnGrid 18 y) (hnonneg : 0 ≤ x + y)
    (hle : defaultAdd x y ≤ 150) : defaultAdd x y = x + y := by
  have hsmall : x + y < 10 ^ 10 := by
    by_contra hlarge
    have hmono : roundSig 28 ((10 : ℚ) ^ (10 : ℤ)) ≤ roundSig 28 (x + y) :=
      roundSig_mono (by norm_num) (by positivity) (by simpa using not_lt.mp hlarge)
    rw [roundSig_zpow (by norm_num)] at hmono
    have : (10 : ℚ) ^ (10 : ℤ) ≤ 150 := hmono.trans hle
    norm_num at this
  refine (hx.add hy).roundSig_eq ?_
  rw [abs_of_nonneg hnonneg]
  exact hsmall.trans_le (by norm_num)

/-- **A reservation keeps the ledger sound.** -/
theorem Reserved.sound {c : UsageCall} (hr : Reserved c date now u u') (h : u.Sound) :
    u'.Sound where
  call := by
    intro row hrow
    rw [hr.calls] at hrow
    rcases (mem_rows_insertOnce (r := c.row date now) hr.fresh).mp hrow with hrow | rfl
    · obtain ⟨hreserved, hactual, hnodup, hperiods⟩ := h.call row hrow
      refine ⟨hreserved, hactual, hnodup, fun p hp => ?_⟩
      obtain ⟨b, hb⟩ := hperiods p hp
      exact hr.kept _ b hb
    · exact ⟨⟨hr.amount.1.le, hr.amount.2⟩, fun a ha => (by cases ha),
        ⟨by simp [UsageCall.row, UsageCall.limits], UsageCall.periods_nodup c date now⟩, hr.opened⟩
  budget := by
    intro k b' hb'
    obtain ⟨b, hb, hmax, hcase⟩ := hr.budget k b' hb'
    refine ⟨?_, hmax ▸ hb.elim (fun hb => (h.budget k b hb).2) (fun hb => hb.2.2)⟩
    rcases hcase with ⟨_, _, _, hfits, _⟩ | ⟨_, rfl, hb⟩
    · exact hfits
    · exact (h.budget k b' hb).1

theorem Reserved.counted {c : UsageCall} (hr : Reserved c date now u u') (k : String × Period) :
    u'.counted k
      = u.counted k + if k.1 = c.tenant ∧ k.2 ∈ (c.row date now).periods then c.amount else 0 := by
  unfold UsageLedger.counted
  rw [hr.calls, sumOf_insertOnce (r := c.row date now) hr.fresh]
  congr 1
  exact if_congr (and_congr_left (fun _ => eq_comm)) rfl rfl

/-- **A reservation keeps the sums**, and leaves every period it touches within
its maximum. -/
theorem Reserved.balanced {c : UsageCall} (hr : Reserved c date now u u') (h : u.Sound)
    (hb : u.Balanced) : u'.Balanced := by
  intro k b' hb'
  obtain ⟨b, hfound, hmax, hcase⟩ := hr.budget k b' hb'
  have hbase : OnGrid 18 b.reserved ∧ b.reserved = u.counted k ∧ b.maximum ≤ 150 := by
    rcases hfound with hfound | ⟨hnone, hzero, hle⟩
    · exact ⟨(h.budget k b hfound).1.1, hb k b hfound, (h.budget k b hfound).2⟩
    · exact ⟨hzero ▸ (by decide +kernel), hzero.trans (h.counted_eq_zero hnone).symm, hle⟩
  obtain ⟨hgrid, hcounted, hle⟩ := hbase
  rw [hr.counted]
  rcases hcase with ⟨htenant, hperiod, hreserved, _, hwithin⟩ | ⟨hother, rfl, _⟩
  · rw [if_pos ⟨htenant, hperiod⟩, hreserved, ← hcounted]
    refine defaultAdd_eq hgrid hr.amount.2.1 ?_ ?_
    · rw [hcounted]
      exact add_nonneg (h.counted_nonneg k) hr.amount.1.le
    · rw [← hreserved]
      exact hwithin.trans (hmax ▸ hle)
  · rw [if_neg hother, add_zero]
    exact hcounted

theorem counted_completed {call : String} {c : ModelCall}
    (hc : u.calls.find? (tenant, call) = some c) (hnone : c.actual = none)
    (hcalls : u'.calls = u.calls.update (tenant, call) (ModelCall.completed actual) (fun _ => rfl))
    (k : String × Period) : u'.counted k
      = u.counted k + if k.1 = tenant ∧ k.2 ∈ c.periods then actual - c.reserved else 0 := by
  have htenant : c.tenantId = tenant := congrArg Prod.fst (key_of_find? hc)
  unfold counted
  rw [hcalls]
  refine (sumOf_update hc _ _ _ _).trans ?_
  have hcounts : Counts k c ↔ k.1 = tenant ∧ k.2 ∈ c.periods := by
    unfold Counts
    rw [htenant, eq_comm]
  have hcharge : charge c = c.reserved := by
    unfold charge
    rw [hnone, getD_none]
  rw [hcharge, if_congr (show Counts k (ModelCall.completed actual c) ↔ _ from hcounts) rfl rfl,
    if_congr hcounts rfl rfl]
  show _ + ite _ actual 0 = _
  split_ifs <;> ring

/-- **A completion keeps the ledger sound.** -/
theorem Sound.complete (h : u.Sound) {call : String}
    (hcomplete : u.complete tenant call actual = .ok u') : u'.Sound := by
  obtain rfl | ⟨c, hc, hnone, hnonneg, hfits, hcalls, hbudgets⟩ := complete_eq_ok hcomplete
  · exact h
  have hbudgets := hbudgets (h.call c (mem_of_find? hc)).2.2.1.2
  constructor
  · intro row hrow
    rw [hcalls] at hrow
    obtain ⟨old, hold, rfl⟩ := mem_rows_update.mp hrow
    obtain ⟨hreserved, hactual, hnodup, hperiods⟩ := h.call old hold
    have hkept : ∀ p ∈ old.periods, ∃ b, u'.budgets.find? (old.tenantId, p) = some b := by
      intro p hp
      obtain ⟨b, hb⟩ := hperiods p hp
      rw [(hbudgets _).1, hb]
      exact ⟨_, rfl⟩
    split_ifs
    · exact ⟨hreserved, fun a ha => (some.inj ha) ▸ ⟨hnonneg, hfits⟩, hnodup, hkept⟩
    · exact ⟨hreserved, hactual, hnodup, hkept⟩
  · intro k b' hb'
    rw [(hbudgets k).1] at hb'
    obtain ⟨b, hb, rfl⟩ := map_eq_some_iff.mp hb'
    split_ifs with hk
    · exact ⟨(hbudgets k).2 b hb hk.1 hk.2, (h.budget k b hb).2⟩
    · exact h.budget k b hb

/-- **A completion keeps the sums**, if its arithmetic is exact. -/
theorem Balanced.complete (hb : u.Balanced) (h : u.Sound) {call : String}
    (hcomplete : u.complete tenant call actual = .ok u')
    (hexact : u.Unrounded (.complete tenant call actual)) : u'.Balanced := by
  obtain rfl | ⟨c, hc, hnone, hnonneg, hfits, hcalls, hbudgets⟩ := complete_eq_ok hcomplete
  · exact hb
  obtain ⟨hdelta, hsums⟩ := hexact hnonneg hfits c hc hnone
  intro k b' hb'
  rw [(hbudgets (h.call c (mem_of_find? hc)).2.2.1.2 k).1] at hb'
  obtain ⟨b, hfound, rfl⟩ := map_eq_some_iff.mp hb'
  rw [counted_completed hc hnone hcalls, ← hb k b hfound]
  split_ifs with hk
  · have hsum : Exact (b.reserved + (actual - c.reserved)) := by
      refine hsums k.2 hk.2 b ?_
      rw [← hk.1]
      exact hfound
    show roundSig 28 (b.reserved + roundSig 28 (actual - c.reserved)) = _
    rw [show roundSig 28 (actual - c.reserved) = actual - c.reserved from hdelta]
    exact hsum
  · rw [add_zero]

theorem step_cases (u : UsageLedger) (l : Label) : step u l = u
    ∨ (∃ c date now, l = .reserve c date now ∧ Reserved c date now u (step u l))
    ∨ ∃ tenant call actual, l = .complete tenant call actual
      ∧ u.complete tenant call actual = .ok (step u l) := by
  cases l with
  | reserve c date now =>
    cases h : u.reserve c date now with
    | error => exact .inl (by simp [step, h])
    | ok p =>
      obtain ⟨row, u'⟩ := p
      have hstep : step u (.reserve c date now) = u' := by simp [step, h]
      exact .inr (.inl ⟨c, date, now, rfl, hstep ▸ (reserve_eq_ok h).1⟩)
  | complete tenant call actual =>
    cases h : u.complete tenant call actual with
    | error => exact .inl (by simp [step, h])
    | ok u' =>
      have hstep : step u (.complete tenant call actual) = u' := by simp [step, h]
      exact .inr (.inr ⟨tenant, call, actual, rfl, hstep ▸ h⟩)

theorem Sound.step (h : u.Sound) (l : Label) : (step u l).Sound := by
  rcases step_cases u l with hsame | ⟨c, date, now, _, hr⟩ | ⟨tenant, call, actual, _, hc⟩
  · rw [hsame]
    exact h
  · exact hr.sound h
  · exact h.complete hc

theorem Balanced.step (hb : u.Balanced) (h : u.Sound) {l : Label} (hl : u.Unrounded l) :
    (step u l).Balanced := by
  rcases step_cases u l with hsame | ⟨c, date, now, _, hr⟩ | ⟨tenant, call, actual, rfl, hc⟩
  · rw [hsame]
    exact hb
  · exact hr.balanced h hb
  · exact hb.complete h hc hl

theorem sound_init : init.Sound := by
  constructor
  · intro c hc
    cases hc
  · intro k b hb
    cases hb

/-- **The sums hold over every run whose arithmetic is exact.** -/
theorem balanced_after {ls : List Label} (h : Machine.Meets step Unrounded init ls) :
    (after ls).Balanced := by
  refine (inv_run_of_meets (fun u => u.Sound ∧ u.Balanced)
    (fun u l hu hl => ⟨hu.1.step l, hu.2.step hu.1 hl⟩) ⟨sound_init, ?_⟩ h).2
  intro k b hb
  cases hb

/-! ## Costs within their reservation -/

variable (u)

/-- No call cost more than was reserved for it. -/
def Modest : Prop :=
  ∀ c ∈ u.calls.rows, ∀ a ∈ c.actual, a ≤ c.reserved

/-- No period has more reserved than its maximum. -/
def Within : Prop :=
  ∀ k b, u.budgets.find? k = some b → b.reserved ≤ b.maximum

variable {u}

/-- A completion within the reservation is exact, where the periods are within
their maxima. -/
theorem unrounded_of_le (h : u.Sound) (hb : u.Balanced) (hw : u.Within) {call : String}
    (hle : ∀ c, u.calls.find? (tenant, call) = some c → c.actual = none → actual ≤ c.reserved) :
    u.Unrounded (.complete tenant call actual) := by
  intro hnonneg hfits c hc hnone
  have hle := hle c hc hnone
  have hmem := mem_of_find? hc
  obtain ⟨⟨hreserved, hcfits⟩, _, ⟨hsome, _⟩, hperiods⟩ := h.call c hmem
  have hdelta : OnGrid 18 (actual - c.reserved) := hfits.1.sub hcfits.1
  -- the reservation is part of the sum of each period of the call
  have hpart : ∀ p ∈ c.periods, ∀ b, u.budgets.find? (tenant, p) = some b →
      c.reserved ≤ b.reserved ∧ b.reserved ≤ 150 := by
    intro p hp b hfound
    refine ⟨?_, (hw _ b hfound).trans (h.budget _ b hfound).2⟩
    have hcharge : charge c = c.reserved := by
      unfold charge
      rw [hnone, getD_none]
    rw [hb _ b hfound, ← hcharge]
    refine le_sumOf (fun r hr _ => h.charge_nonneg hr) hmem ⟨?_, hp⟩
    exact congrArg Prod.fst (key_of_find? hc)
  refine ⟨?_, fun p hp b hfound => ?_⟩
  · obtain ⟨p, hp⟩ := exists_mem_of_ne_nil _ hsome
    obtain ⟨b, hfound⟩ := hperiods p hp
    rw [show c.tenantId = tenant from congrArg Prod.fst (key_of_find? hc)] at hfound
    obtain ⟨hpart, hmax⟩ := hpart p hp b hfound
    refine hdelta.roundSig_eq ?_
    rw [abs_of_nonpos (by linarith)]
    calc -(actual - c.reserved) ≤ 150 := by linarith
      _ < 10 ^ 28 / 10 ^ 18 := by norm_num
  · obtain ⟨hpart, hmax⟩ := hpart p hp b hfound
    refine ((h.budget _ b hfound).1.1.add hdelta).roundSig_eq ?_
    rw [abs_of_nonneg (by linarith)]
    calc b.reserved + (actual - c.reserved) ≤ 150 := by linarith
      _ < 10 ^ 28 / 10 ^ 18 := by norm_num

/-- **What holds as long as no cost exceeds its reservation**: the sums are
exact, and no period is above its maximum. -/
theorem within_step (hs : u.Sound) (h : u.Modest → u.Balanced ∧ u.Within) (l : Label)
    (hmodest : (step u l).Modest) : (step u l).Balanced ∧ (step u l).Within := by
  rcases step_cases u l with hsame | ⟨c, date, now, _, hr⟩ | ⟨tenant, call, actual, rfl, hc⟩
  · rw [hsame] at hmodest ⊢
    exact h hmodest
  · obtain ⟨hb, hw⟩ := h (fun row hrow => hmodest row (by
      rw [hr.calls]
      exact (mem_rows_insertOnce (r := c.row date now) hr.fresh).mpr (.inl hrow)))
    refine ⟨hr.balanced hs hb, fun k b' hb' => ?_⟩
    obtain ⟨b, _, _, ⟨_, _, _, _, hwithin⟩ | ⟨_, rfl, hfound⟩⟩ := hr.budget k b' hb'
    · exact hwithin
    · exact hw k b' hfound
  · obtain hsame | ⟨c, hfind, hnone, hnonneg, hfits, hcalls, hbudgets⟩ := complete_eq_ok hc
    · rw [hsame] at hmodest ⊢
      exact h hmodest
    -- the completed call is modest, and so is every other
    have hcompleted : (step u (.complete tenant call actual)).calls.find? (tenant, call)
        = some (c.completed actual) := by
      rw [hcalls]
      exact find?_update_self hfind
    have hle : actual ≤ c.reserved := hmodest _ (mem_of_find? hcompleted) actual rfl
    have hmodest₀ : u.Modest := by
      intro row hrow a ha
      by_cases hkey : row.key = (tenant, call)
      · obtain rfl := some.inj ((hkey ▸ find?_of_mem hrow).symm.trans hfind)
        rw [hnone] at ha
        cases ha
      · refine hmodest row ?_ a ha
        rw [hcalls]
        exact mem_rows_update.mpr ⟨row, hrow, if_neg hkey⟩
    obtain ⟨hb, hw⟩ := h hmodest₀
    have hexact := unrounded_of_le hs hb hw (fun c' hc' _ =>
      some.inj (hfind.symm.trans hc') ▸ hle)
    refine ⟨hb.complete hs hc hexact, fun k b' hb' => ?_⟩
    obtain ⟨hdelta, hsums⟩ := hexact hnonneg hfits c hfind hnone
    rw [(hbudgets (hs.call c (mem_of_find? hfind)).2.2.1.2 k).1] at hb'
    obtain ⟨b, hfound, rfl⟩ := map_eq_some_iff.mp hb'
    split_ifs with hk
    · have hsum : Exact (b.reserved + (actual - c.reserved)) := by
        refine hsums k.2 hk.2 b ?_
        rw [← hk.1]
        exact hfound
      show roundSig 28 (b.reserved + roundSig 28 (actual - c.reserved)) ≤ b.maximum
      rw [show roundSig 28 (actual - c.reserved) = actual - c.reserved from hdelta,
        show roundSig 28 (b.reserved + (actual - c.reserved)) = _ from hsum]
      exact (by linarith [hw k b hfound] : b.reserved + (actual - c.reserved) ≤ b.maximum)
    · exact hw k b hfound

theorem within_after (ls : List Label) (h : (after ls).Modest) : (after ls).Within := by
  have hinit : init.Balanced ∧ init.Within := by
    constructor <;> intro k b hb <;> cases hb
  have hinv := inv_run (fun u : UsageLedger => u.Sound ∧ (u.Modest → u.Balanced ∧ u.Within))
    (fun u l hu => ⟨hu.1.step l, within_step hu.1 hu.2 l⟩) ⟨sound_init, fun _ => hinit⟩ ls
  exact (hinv.2 h).2

/-! ## The ledger over every run -/

variable {k : String × String}

theorem kept_step {c : ModelCall} (hc : u.calls.find? k = some c) (l : Label) :
    ∃ c', (step u l).calls.find? k = some c' ∧ c'.periods = c.periods ∧ c'.reserved = c.reserved := by
  rcases step_cases u l with hsame | ⟨call, date, now, _, hr⟩ | ⟨tenant, call, actual, rfl, hcomplete⟩
  · rw [hsame]
    exact ⟨c, hc, rfl, rfl⟩
  · rw [hr.calls]
    exact ⟨c, find?_insertOnce_of_find? hc, rfl, rfl⟩
  · obtain hsame | ⟨_, _, _, _, _, hcalls, _⟩ := complete_eq_ok hcomplete
    · rw [hsame]
      exact ⟨c, hc, rfl, rfl⟩
    · rw [hcalls]
      by_cases hk : k = (tenant, call)
      · subst hk
        exact ⟨c.completed actual, find?_update_self hc, rfl, rfl⟩
      · exact ⟨c, (Table.find?_update _ _ _ _ _).trans ((if_neg hk).trans hc), rfl, rfl⟩

theorem kept_run {c : ModelCall} (hc : u.calls.find? k = some c) (ls : List Label) :
    ∃ c', (Machine.run step u ls).calls.find? k = some c'
      ∧ c'.periods = c.periods ∧ c'.reserved = c.reserved := by
  induction ls generalizing u c with
  | nil => exact ⟨c, hc, rfl, rfl⟩
  | cons l ls ih =>
    obtain ⟨c₁, hc₁, hperiods, hreserved⟩ := kept_step hc l
    obtain ⟨c₂, hc₂, hperiods₂, hreserved₂⟩ := ih hc₁
    exact ⟨c₂, hc₂, hperiods₂.trans hperiods, hreserved₂.trans hreserved⟩

/-- **The budgets over every run** whose completions are exact: a period
reserves the sum, over the calls counted in it, of the actual cost where it is
known and of the reservation elsewhere; a call is counted in the day, the month
and the run of its reservation, and stays so; no period exceeds its maximum as
long as no cost exceeds its reservation; and a reservation that fails leaves
the ledger. -/
theorem budgets_after (ls : List Label) (h : Machine.Meets step Unrounded init ls) :
    (∀ b ∈ (after ls).budgets.rows, b.reserved = (after ls).calls.sumOf
      (fun c => c.tenantId = b.tenantId ∧ b.period ∈ c.periods) (fun c => c.actual.getD c.reserved))
    ∧ (∀ c date now row u', (after ls).reserve c date now = .ok (row, u') →
      row.periods = [.day date, .month date.year date.month, .run c.run]
      ∧ ∀ ls', ∃ row', (after (ls ++ .reserve c date now :: ls')).calls.find? (c.tenant, c.call)
        = some row' ∧ row'.periods = row.periods ∧ row'.reserved = row.reserved)
    ∧ ((∀ c ∈ (after ls).calls.rows, ∀ a ∈ c.actual, a ≤ c.reserved) →
      ∀ b ∈ (after ls).budgets.rows, b.reserved ≤ b.maximum)
    ∧ ∀ c date now e, (after ls).reserve c date now = .error e →
      after (ls ++ [.reserve c date now]) = after ls := by
  refine ⟨fun b hb => balanced_after h _ b (find?_of_mem hb), ?_,
    fun hmodest b hb => within_after ls hmodest _ b (find?_of_mem hb), ?_⟩
  · intro c date now row u' hreserve
    obtain ⟨hr, rfl⟩ := reserve_eq_ok hreserve
    refine ⟨rfl, fun ls' => ?_⟩
    have hstep : step (after ls) (.reserve c date now) = u' := by simp [step, hreserve]
    have hfound : u'.calls.find? (c.tenant, c.call) = some (c.row date now) := by
      rw [hr.calls]
      exact find?_insertOnce_self (r := c.row date now) hr.fresh
    rw [show after (ls ++ .reserve c date now :: ls') = Machine.run step u' ls' by
      rw [← hstep]
      exact run_append _ _ _ _]
    exact kept_run hfound ls'
  · intro c date now e herror
    rw [show after (ls ++ [.reserve c date now]) = step (after ls) (.reserve c date now) from
      run_concat _ _ _ _]
    simp [step, herror]

namespace Sample

/-- A reservation of twenty cents for a call. -/
def call : UsageCall :=
  ⟨"t", "run", "call", "hash", 1 / 5, 1, 5, 150⟩

/-- It is reserved, and completed for an amount. -/
def completedFor (actual : ℚ) : List Label :=
  [.reserve call ⟨2026, 1, 2⟩ 0, .complete "t" "call" actual]

end Sample

theorem budgets_after_completed :
    ∃ b ∈ (after (Sample.completedFor (1 / 10))).budgets.rows, b.reserved = 1 / 10
      ∧ b.reserved = (after (Sample.completedFor (1 / 10))).calls.sumOf
        (fun c => c.tenantId = b.tenantId ∧ b.period ∈ c.periods)
        (fun c => c.actual.getD c.reserved) := by
  obtain ⟨b, hb, hreserved⟩ : ∃ b ∈ (after (Sample.completedFor (1 / 10))).budgets.rows,
      b.reserved = 1 / 10 := by decide +kernel
  exact ⟨b, hb, hreserved,
    (budgets_after (Sample.completedFor (1 / 10)) (by decide +kernel)).1 b hb⟩

/-- **A cost of twenty-nine digits is rounded**: the sum of the day loses the
last one. -/
theorem budget_rounded : ¬ ∀ b ∈ (after (Sample.completedFor
      (99999999999500000000000000001 / 10 ^ 18))).budgets.rows,
    b.reserved = (after (Sample.completedFor (99999999999500000000000000001 / 10 ^ 18))).calls.sumOf
      (fun c => c.tenantId = b.tenantId ∧ b.period ∈ c.periods)
      (fun c => c.actual.getD c.reserved) := by
  decide +kernel

end UsageLedger

end Qt
