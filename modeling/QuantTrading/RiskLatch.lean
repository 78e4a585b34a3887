import QuantTrading.Runs

/-!
# The latch on the risk mode

Many operations write the mode of an account, and all but one write it one
way: towards forbidding more. `set_mode` is the exception. What a stop or a
mark has latched in `risk_state` no operation at all takes back.

The decision to send is made in a transaction in front of the call of the
adapter, and may be outdated by the time of the call. What holds is that it
was right in the state in which it was made, and that nothing but the call
follows it (`Presend`).
-/

namespace Qt

open Except List Table Function
open Machine

variable {env : Env} {time : ℕ} {db db' : DB} {tx : Transaction}

/-- A mode that forbids as much as `HALTED` is `HALTED`, and one that forbids
something is not `ACTIVE`. -/
theorem RiskMode.latched_of_severity {m m' : RiskMode} (h : m.severity ≤ m'.severity) :
    (m = .halted → m' = .halted) ∧ (m ≠ .active → m' ≠ .active) := by
  revert h
  cases m <;> cases m' <;> decide

/-! ## Latched reasons -/

/-- The risk state of an account is of its tenant. -/
def DB.Tenanted (db : DB) : Prop :=
  ∀ id state, db.riskState.find? id = some state →
    ∃ a, db.accounts.find? id = some a ∧ a.tenantId = state.tenantId

/-- **A commit keeps what is latched**, and whose it is. -/
theorem Commit.riskState (h : Commit env time db tx db') (ht : db.Tenanted) :
    db'.Tenanted ∧ ∀ id state, db.riskState.find? id = some state →
      ∃ state', db'.riskState.find? id = some state'
        ∧ state.latchedReasons ⊆ state'.latchedReasons := by
  -- an account keeps its tenant
  have hkept : ∀ id tenant, (∃ a, db.accounts.find? id = some a ∧ a.tenantId = tenant) →
      ∃ a, db'.accounts.find? id = some a ∧ a.tenantId = tenant := by
    rintro id tenant ⟨a, ha, rfl⟩
    obtain ⟨a', ha', hfrozen, _⟩ := h.account ha
    exact ⟨a', ha', (congrArg Account.tenantId hfrozen :)⟩
  have hsame : db'.riskState = db.riskState → db'.Tenanted ∧ ∀ id state,
      db.riskState.find? id = some state → ∃ state', db'.riskState.find? id = some state'
        ∧ state.latchedReasons ⊆ state'.latchedReasons := by
    intro heq
    refine ⟨fun id state hs => hkept id _ (ht id state (heq ▸ hs)), fun id state hs => ?_⟩
    exact ⟨state, heq ▸ hs, List.Subset.refl _⟩
  cases h with
  | aside h =>
    rcases h.riskState with heq | ⟨a, row, ha, heq, htenant, hlatched⟩
    · exact hsame heq
    -- the row of the account is there after the insertion, and is replaced
    obtain ⟨found, hfound⟩ : ∃ found, (db.riskState.insertOnce row).find? row.key = some found := by
      rw [find?_insertOnce]
      cases hold : db.riskState.find? row.key with
      | none => exact ⟨row, if_pos ⟨rfl, rfl⟩⟩
      | some old => exact ⟨old, if_neg (fun h => by cases h.1)⟩
    have hfind : ∀ id, db'.riskState.find? id
        = if id = row.accountId then some row else db.riskState.find? id := by
      intro id
      rw [heq, find?_replace hfound, find?_insertOnce]
      by_cases hid : id = row.accountId
      · rw [if_pos hid]
        exact if_pos hid
      · rw [if_neg hid]
        exact (if_neg hid).trans (if_neg (fun hk => hid hk.2.symm))
    have hrow : row.tenantId = a.tenantId := by
      rcases htenant with htenant | ⟨old, hold, htenant⟩
      · exact htenant
      · obtain ⟨b, hb, htb⟩ := ht _ old hold
        obtain rfl : a = b := Option.some.inj (ha.symm.trans hb)
        exact htenant.trans htb.symm
    refine ⟨fun id state hs => ?_, fun id state hs => ?_⟩
    · rw [hfind] at hs
      split_ifs at hs with hid
      · cases hs
        exact hkept id _ ⟨a, hid ▸ ha, hrow.symm⟩
      · exact hkept id _ (ht id state hs)
    · rw [hfind]
      split_ifs with hid
      · refine ⟨row, rfl, hlatched state (hid ▸ hs) ?_⟩
        obtain ⟨b, hb, htb⟩ := ht id state hs
        obtain rfl : a = b := Option.some.inj (ha.symm.trans (hid ▸ hb))
        exact htb.symm
      · exact ⟨state, hs, List.Subset.refl _⟩
  | fund => exact hsame rfl
  | reopen => exact hsame rfl
  | reserve => exact hsame rfl
  | move => exact hsame rfl
  | fill => exact hsame rfl

namespace System

variable {id : String}

/-- **Latched reasons stay latched**, whatever the run does. -/
theorem latched_of_run (env : Env) (ls ls' : List Label) {state : RiskState}
    (hs : (after env ls).db.riskState.find? id = some state) :
    ∃ state', (after env (ls ++ ls')).db.riskState.find? id = some state'
      ∧ state.latchedReasons ⊆ state'.latchedReasons := by
  have hempty : DB.empty.Tenanted := fun _ _ h => by cases h
  have htenanted : (after env ls).db.Tenanted :=
    inv_after DB.Tenanted hempty (fun h ht => (h.riskState ht).1) ls
  exact row_of_run (R := fun s s' => s.latchedReasons ⊆ s'.latchedReasons) (·.riskState.find? id)
    DB.Tenanted (fun _ => List.Subset.refl _) (fun _ _ _ => List.Subset.trans)
    (fun h ht => (h.riskState ht).imp_right (· id)) ls ls' htenanted hs

/-! ## Modes -/

/-- The step does not commit a `set_mode` of the account. -/
def Automatic (env : Env) (id : String) (s : System) (l : Label) : Prop :=
  ∀ p ∈ commits env s l, p.1.setsMode ≠ some id

/-- **Without `set_mode` an account forbids no less than before.** -/
theorem severity_of_run (env : Env) (ls ls' : List Label) {a : Account}
    (ha : (after env ls).db.accounts.find? id = some a)
    (hauto : Meets (step env) (Automatic env id) (after env ls) ls') :
    ∃ a', (after env (ls ++ ls')).db.accounts.find? id = some a'
      ∧ a.mode.severity ≤ a'.mode.severity := by
  have hrun := inv_run_of_meets (fun s : System => s.Held ∧ ∃ a', s.db.accounts.find? id = some a'
      ∧ a.mode.severity ≤ a'.mode.severity) ?_ ⟨held_after env ls, a, ha, le_rfl⟩ hauto
  · unfold after at hrun ⊢
    rw [run_append]
    exact hrun.2
  · rintro s l ⟨hs, a', ha', hle⟩ hC
    refine ⟨hs.step l, ?_⟩
    cases h : commits env s l with
    | none =>
      rw [db_of_commits_none h]
      exact ⟨a', ha', hle⟩
    | some p =>
      obtain ⟨a'', ha'', _, hmode⟩ := (commit_of_commits hs h).account ha'
      exact ⟨a'', ha'', hle.trans (hmode (hC p h))⟩

/-! ## The decision in front of a send -/

/-- The run committed the fence in front of a send, and its task has done
nothing since. -/
def Presend (env : Env) (ls : List Label) (tid : ℕ) (c : SubmitCall) (row : Order) : Prop :=
  ∃ before l between time market a, ls = before ++ l :: between
    ∧ commits env (after env before) l = some (.submitPresend c row market, time)
    ∧ (∀ k, (after env (before ++ l :: between.take k)).tasks tid = .submitSend c row)
    ∧ (after env (before ++ [l])).db.accounts.find? row.payload.intent.accountId = some a
    ∧ a.mode ≠ .halted ∧ (row.payload.intent.side = .buy → a.mode = .active)

variable {c : SubmitCall} {row : Order}

variable {t : Task}

theorem committed_submitSend {outcome : Outcome} (h : t.committed time outcome = .submitSend c row) :
    (∃ market, t = .submitPresend c row market) ∧ outcome = .fence .clear := by
  unfold Task.committed at h
  split at h
  all_goals first
  | cases h
    done
  | (split at h <;> cases h)
    done
  | skip
  cases h
  exact ⟨⟨_, rfl⟩, rfl⟩

theorem Quiet.submitSend {u : Task} (h : Quiet t u) (hu : u = .submitSend c row) :
    t = .submitSend c row := by
  cases h with
  | stay => exact hu
  | crash => cases hu
  | start op => cases op <;> cases hu
  | raised e =>
    unfold Task.raised at hu
    split at hu <;> cases hu
  | replied r =>
    unfold Task.replied at hu
    split at hu
    all_goals first
    | cases hu
      done
    | (split at hu <;> cases hu)
      done
    | exact hu
  | advance =>
    unfold Task.advance at hu
    split at hu
    · cases hu
    · cases hu
    · exact hu

theorem after_concat (env : Env) (ls : List Label) (l : Label) :
    after env (ls ++ [l]) = step env (after env ls) l := run_concat _ _ _ _

variable {tid : ℕ}

/-- A task about to send passed the fence, in a mode that allows the send. -/
theorem presend_of_submitSend (env : Env) (ls : List Label)
    (h : (after env ls).tasks tid = .submitSend c row) : Presend env ls tid c row := by
  induction ls using List.reverseRecOn with
  | nil => cases h
  | append_singleton ls l ih =>
    -- the task stood there already, or this step brought it there
    have hkept : (after env ls).tasks tid = .submitSend c row →
        Presend env (ls ++ [l]) tid c row := by
      intro hbefore
      obtain ⟨before, l₀, between, time, market, a, rfl, hcommits, hstays, ha, hmode⟩ := ih hbefore
      refine ⟨before, l₀, between ++ [l], time, market, a, by simp, hcommits, fun k => ?_, ha, hmode⟩
      by_cases hk : k ≤ between.length
      · rw [take_append_of_le_length hk]
        exact hstays k
      · rw [take_of_length_le (by simp; omega)]
        simpa using h
    rw [after_concat] at h
    have hstep := steps env (after env ls) l
    generalize hs' : step env (after env ls) l = s' at h hstep
    cases hstep with
    | @quiet _ i t ht =>
      refine hkept ?_
      by_cases hi : tid = i
      · subst hi
        refine ht.submitSend ?_
        rwa [show ((after env ls).setTask tid t).tasks tid = t from update_self _ _ _] at h
      · rwa [show ((after env ls).setTask i t).tasks tid = (after env ls).tasks tid from
          update_of_ne hi _ _] at h
    | @send i time c' row' ht =>
      refine hkept ?_
      have h' : Function.update (after env ls).tasks i (.submitAwait c' row') tid
        = .submitSend c row := h
      by_cases hi : tid = i
      · rw [hi, update_self] at h'
        cases h'
      · rwa [update_of_ne hi] at h'
    | @commit i time tx outcome db' hnext hexec =>
      have h' : Function.update (after env ls).tasks i
        (((after env ls).tasks i).committed time outcome) tid = .submitSend c row := h
      by_cases hi : tid = i
      · subst hi
        rw [update_self] at h'
        obtain ⟨⟨market, ht⟩, rfl⟩ := committed_submitSend h'
        rw [ht] at hnext
        cases hnext
        have hheld := held_after env ls tid
        rw [ht] at hheld
        obtain ⟨⟨fence, db₁⟩, hfence, hout⟩ := of_bind hexec
        cases hout
        obtain ⟨a, o, located, _, hfrozen, _, _, hclear⟩ := submitPresend_spec hheld hfence
        obtain ⟨rfl, _, hmode, hbuy⟩ := hclear rfl
        have hpayload : o.payload = row.payload := (congrArg Order.payload hfrozen :)
        have hfaithful := (admitted_after env ls o (mem_of_find? located.order)).faithful
        have hcommits : commits env (after env ls) (.run tid time)
            = some (.submitPresend c row market, time) :=
          commits_of_exec (by rw [ht]; rfl) hexec
        refine ⟨ls, .run tid time, [], time, market, a, rfl, hcommits, fun k => ?_, ?_, hmode, ?_⟩
        · rw [take_nil, after_concat, hs']
          exact h
        · rw [after_concat, hs', ← hpayload, hfaithful.accountId, ← located.accountId]
          exact located.account
        · rw [← hpayload]
          exact hbuy
      · rw [update_of_ne hi] at h'
        exact hkept h'

/-- Every send on record was begun by a task that passed the fence. -/
theorem presend_of_sent (env : Env) (ls : List Label) {intent : OrderIntent}
    (h : Entry.sent tid intent ∈ (after env ls).log) :
    ∃ before time between c row, ls = before ++ .run tid time :: between
      ∧ row.payload.intent = intent ∧ (after env before).tasks tid = .submitSend c row
      ∧ Presend env before tid c row := by
  induction ls using List.reverseRecOn with
  | nil => cases h
  | append_singleton ls l ih =>
    have hold : Entry.sent tid intent ∈ (after env ls).log → ∃ before time between c row,
        ls ++ [l] = before ++ .run tid time :: between ∧ row.payload.intent = intent
          ∧ (after env before).tasks tid = .submitSend c row ∧ Presend env before tid c row := by
      intro hmem
      obtain ⟨before, time, between, c, row, rfl, hrest⟩ := ih hmem
      exact ⟨before, time, between ++ [l], c, row, by simp, hrest⟩
    rw [after_concat] at h
    have hstep := steps env (after env ls) l
    generalize step env (after env ls) l = s' at h hstep
    cases hstep with
    | quiet => exact hold h
    | commit i time =>
      rcases mem_append.mp h with h | h
      · exact hold h
      · cases mem_singleton.mp h
    | @send i time c row ht =>
      rcases mem_append.mp h with h | h
      · exact hold h
      · cases mem_singleton.mp h
        exact ⟨ls, time, [], c, row, rfl, rfl, ht, presend_of_submitSend env ls ht⟩

/-- **The latch.** Without a `set_mode` of the account, no step takes it out of
`HALTED`, or back to `ACTIVE`; what is latched stays latched; and every send
was decided in a committed state in which the account was not halted, and
active if the send buys. -/
theorem risk_latches (env : Env) (ls ls' : List Label) :
    (∀ id a, (after env ls).db.accounts.find? id = some a →
      Meets (step env) (Automatic env id) (after env ls) ls' →
      ∃ a', (after env (ls ++ ls')).db.accounts.find? id = some a'
        ∧ (a.mode = .halted → a'.mode = .halted) ∧ (a.mode ≠ .active → a'.mode ≠ .active))
    ∧ (∀ id state, (after env ls).db.riskState.find? id = some state →
      ∃ state', (after env (ls ++ ls')).db.riskState.find? id = some state'
        ∧ state.latchedReasons ⊆ state'.latchedReasons)
    ∧ ∀ tid intent, Entry.sent tid intent ∈ (after env ls).log →
      ∃ before time between c row, ls = before ++ .run tid time :: between
        ∧ row.payload.intent = intent ∧ (after env before).tasks tid = .submitSend c row
        ∧ Presend env before tid c row := by
  refine ⟨fun id a ha hauto => ?_, fun id state => latched_of_run env ls ls',
    fun tid intent => presend_of_sent env ls⟩
  obtain ⟨a', ha', hseverity⟩ := severity_of_run env ls ls' ha hauto
  exact ⟨a', ha', RiskMode.latched_of_severity hseverity⟩

end System

end Qt
