import QuantTrading.Lib.Machine
import QuantTrading.Persistence

/-!
# The ledger of trials

`TrialLedger` of `qt.agent_hub.trial_ledger`: every trial of a search is recorded before its
holdout may be looked at, and the look itself, or the refusal of it, is put on record.

Both calls are transactions that begin with the write lock, so any interleaving of workers is
a sequence of calls. An unlock marks every trial of its snapshot, and the trial it was asked
for is one of them: from there on the snapshot has a trial that is unlocked, which is what
both calls look for. A recording that finds one is refused, unless it is a replay, and so is
an unlock (`Sound.unlocked`).

The digest of a registration is a parameter, that takes different payloads to different
digests. Identifiers that `uuid4` supplies come with a call.
-/

namespace Qt.Trials

open Except List Table Machine Option

/-! ## Trials -/

/-- The exceptions of the ledger. -/
inductive TrialError
  | valueError (message : String)
  | keyError (message : String)
  | permissionError (message : String)
  | integrityError (constraint : String)
deriving DecidableEq, Repr

/-- A trial as it is handed in; what is missing is `none`. -/
structure Trial where
  trialId : Option String
  snapshotId : Option String
  strategySpecHash : Option String
  paramsHash : Option String
  costModelHash : Option String
  splitScheme : Option String
  arm : Option String
  isSharpe : Option ℚ
  oosSharpe : Option ℚ
  oosReturn : Option ℚ
  oosMdd : Option ℚ
  pathRef : Option String
  proposer : Option String
  holdoutSealed : Option Bool
  holdoutUnlockedAt : Option ℚ
  status : Option String

/-- **The immutable part** of a row. -/
structure Immutable where
  trialId : String
  tenantId : String
  snapshotId : String
  strategySpecHash : String
  paramsHash : String
  costModelHash : String
  splitScheme : String
  arm : String
  isSharpe : Option ℚ
  oosSharpe : Option ℚ
  oosReturn : Option ℚ
  oosMdd : Option ℚ
  pathRef : Option String
  proposer : String
deriving DecidableEq

/-- A row of `trial_ledger`. A row of an older file has no digest. -/
structure TrialRow (D : Type) where
  immutable : Immutable
  status : String
  registrationSha256 : Option D
  holdoutSealed : Bool
  holdoutUnlockedAt : Option ℚ
  createdAt : ℚ

def TrialRow.trialId {D : Type} (row : TrialRow D) : String := row.immutable.trialId

/-- A row of `holdout_audit`. -/
structure HoldoutAudit where
  auditId : String
  tenantId : String
  snapshotId : String
  trialId : String
  actorId : String
  reason : String
  action : String
  createdAt : ℚ

/-- **`TrialLedger`.** -/
structure TrialLedger (D : Type) where
  trials : Table (TrialRow.trialId (D := D))
  audits : Table HoldoutAudit.auditId

def TrialLedger.start {D : Type} : TrialLedger D := ⟨.empty, .empty⟩

/-- `value or default`, of a string. -/
def orDefault (value : Option String) (default : String) : String :=
  (value.filter (· ≠ "")).getD default

/-- `trial.get("trial_id") or uuid.uuid4().hex`. -/
def Trial.id (trial : Trial) (newId : String) : String := orDefault trial.trialId newId

/-- The immutable part of a trial, with its defaults. -/
def Trial.immutable (trial : Trial) (tenantId trialId : String) : Immutable where
  trialId := trialId
  tenantId := tenantId
  snapshotId := orDefault trial.snapshotId "unspecified"
  strategySpecHash := orDefault trial.strategySpecHash ""
  paramsHash := orDefault trial.paramsHash ""
  costModelHash := orDefault trial.costModelHash ""
  splitScheme := orDefault trial.splitScheme "walk_forward"
  arm := orDefault trial.arm "hypothesis"
  isSharpe := trial.isSharpe
  oosSharpe := trial.oosSharpe
  oosReturn := trial.oosReturn
  oosMdd := trial.oosMdd
  pathRef := trial.pathRef
  proposer := orDefault trial.proposer "agent_hub"

def statuses : List String := ["submitted", "completed", "failed", "aborted", "rejected"]

/-- The status of a trial that may be recorded: one that is sealed. -/
def Trial.validate (trial : Trial) : Except TrialError String := do
  raiseIf (trial.holdoutUnlockedAt ≠ none ∨ trial.holdoutSealed = some false)
    (.valueError "holdout_unlock_requires_authorized_service")
  raiseIf (trial.status.getD "completed" ∉ statuses) (.valueError "invalid_trial_status")
  return trial.status.getD "completed"

/-! ## Calls -/

section Calls

variable {D : Type} [DecidableEq D] (sha256 : Immutable × String → D) (s : TrialLedger D)

def TrialLedger.Unlocked (tenantId snapshotId : String) : Prop :=
  ∃ row ∈ s.trials.rows, row.immutable.tenantId = tenantId ∧
    row.immutable.snapshotId = snapshotId ∧ row.holdoutUnlockedAt ≠ none
deriving Decidable

/-- The digest of a row, which is taken of what is stored where there is none. -/
def TrialRow.digest (row : TrialRow D) : D :=
  row.registrationSha256.getD (sha256 (row.immutable, row.status))

/-- The row of a new trial. -/
def Trial.row (trial : Trial) (tenantId trialId status : String) (now : ℚ) : TrialRow D where
  immutable := trial.immutable tenantId trialId
  status := status
  registrationSha256 := some (sha256 (trial.immutable tenantId trialId, status))
  holdoutSealed := true
  holdoutUnlockedAt := none
  createdAt := now

def TrialLedger.record (tenantId : String) (trial : Trial) (newId : String) (now : ℚ)
    (s : TrialLedger D) : Except TrialError (TrialRow D × TrialLedger D) := do
  let status ← trial.validate
  match s.trials.find? (trial.id newId) with
  | some existing =>
    raiseIf (existing.digest sha256 ≠ sha256 (trial.immutable tenantId (trial.id newId), status))
      (.valueError "trial_identity_payload_conflict")
    return (existing, s)
  | none =>
    raiseIf (s.Unlocked tenantId (trial.immutable tenantId (trial.id newId)).snapshotId)
      (.valueError "snapshot_frozen_after_holdout_unlock")
    let row := trial.row sha256 tenantId (trial.id newId) status now
    return (row, { s with trials := s.trials.insertOnce row })

/-- A call of `unlock_holdout`. -/
structure UnlockCall where
  tenantId : String
  trialId : String
  actorId : String
  permissions : List String
  reason : String
  auditId : String
  now : ℚ

variable (call : UnlockCall)

/-- The caller may unlock, and says why. -/
def UnlockCall.Permitted : Prop :=
  "holdout:unlock" ∈ call.permissions ∧ call.actorId ≠ "" ∧ call.reason.toList.all isSpace = false
deriving Decidable

variable (snapshotId : String)

/-- What speaks against an unlock. -/
def unlockError (s : TrialLedger D) : Option String :=
  if ¬ call.Permitted then some "holdout_unlock_permission_or_reason_required"
  else if s.Unlocked call.tenantId snapshotId then some "holdout_already_unlocked"
  else none

/-- The audit record of an attempt. -/
def UnlockCall.audit (error : Option String) : HoldoutAudit where
  auditId := call.auditId
  tenantId := call.tenantId
  snapshotId := snapshotId
  trialId := call.trialId
  actorId := call.actorId
  reason := call.reason
  action := error.getD "unlocked"
  createdAt := call.now

/-- The update of an unlock: every trial of the snapshot. -/
def unlockRows (tenantId snapshotId : String) (now : ℚ) (t : Table (TrialRow.trialId (D := D))) :
    Table (TrialRow.trialId (D := D)) :=
  t.updateWhere
    (fun row => row.immutable.tenantId = tenantId ∧ row.immutable.snapshotId = snapshotId)
    (fun row => { row with holdoutSealed := false, holdoutUnlockedAt := some now }) fun _ => rfl

def TrialLedger.trial? (tenantId trialId : String) (s : TrialLedger D) : Option (TrialRow D) :=
  (s.trials.find? trialId).filter fun row => row.immutable.tenantId = tenantId

/-- An attempt is put on record. -/
def TrialLedger.putOnRecord (s : TrialLedger D) : TrialLedger D :=
  { s with audits := s.audits.insertOnce (call.audit snapshotId (unlockError call snapshotId s)) }

/-- An attempt on a snapshot. The audit of a refusal is committed before it is raised. -/
def TrialLedger.attempt (s : TrialLedger D) : Except TrialError ℚ × TrialLedger D :=
  match unlockError call snapshotId s with
  | some refusal => (.error (.permissionError refusal), s.putOnRecord call snapshotId)
  | none =>
    (.ok call.now,
      { s.putOnRecord call snapshotId with
        trials := unlockRows call.tenantId snapshotId call.now s.trials })

/-- **`unlock_holdout`.** -/
def TrialLedger.unlock (call : UnlockCall) (s : TrialLedger D) :
    Except TrialError ℚ × TrialLedger D :=
  match s.trial? call.tenantId call.trialId with
  | none => (.error (.keyError "trial_not_found"), s)
  | some existing =>
    if s.audits.find? call.auditId ≠ none then
      (.error (.integrityError "holdout_audit.audit_id"), s)
    else s.attempt call existing.immutable.snapshotId

inductive Call
  | record (tenantId : String) (trial : Trial) (newId : String) (now : ℚ)
  | unlock (call : UnlockCall)

/-- **A step**: an exception rolls a recording back. -/
def step : Call → TrialLedger D
  | .record tenantId trial newId now =>
    match s.record sha256 tenantId trial newId now with
    | .ok (_, s') => s'
    | .error _ => s
  | .unlock call => (s.unlock call).2

/-- The ledger after a run. -/
def after (calls : List Call) : TrialLedger D := Machine.run (step sha256) .start calls

end Calls

/-! ## What is asked -/

section Law

variable {D : Type} [DecidableEq D] {sha256 : Immutable × String → D}

/-- What a later ledger has kept: every trial with what is immutable of it, the population of
a snapshot that was unlocked, and the audit records in their order. -/
structure Kept (s s' : TrialLedger D) : Prop where
  trials : ∀ row ∈ s.trials.rows, ∃ row' ∈ s'.trials.rows, row'.immutable = row.immutable ∧
    row'.status = row.status ∧ row'.registrationSha256 = row.registrationSha256 ∧
      row'.createdAt = row.createdAt
  unlocked : ∀ tenantId snapshotId, s.Unlocked tenantId snapshotId → s'.Unlocked tenantId snapshotId
  frozen : ∀ tenantId snapshotId, s.Unlocked tenantId snapshotId → ∀ row' ∈ s'.trials.rows,
    row'.immutable.tenantId = tenantId → row'.immutable.snapshotId = snapshotId →
      ∃ row ∈ s.trials.rows, row.immutable = row'.immutable
  audits : s.audits.rows <+: s'.audits.rows

/-- The audit ids of a run. `uuid4` does not repeat them. -/
def auditIds (calls : List Call) : List String :=
  calls.filterMap fun
    | .record .. => none
    | .unlock call => some call.auditId

/-- **An attempt is audited**: one record more, which says what came of it. -/
def Audited (call : UnlockCall) (s : TrialLedger D) : Prop :=
  ∀ existing ∈ s.trial? call.tenantId call.trialId,
    (s.unlock call).2.audits.rows = s.audits.rows ++ [call.audit existing.immutable.snapshotId
        (unlockError call existing.immutable.snapshotId s)] ∧
      ((s.unlock call).1 = .ok call.now ↔ unlockError call existing.immutable.snapshotId s = none)

/-- **A replay** of a trial that is recorded: it returns the row when the payload is the same,
and is refused when it is not. Nothing changes. -/
def Replays (sha256 : Immutable × String → D) (s : TrialLedger D) : Prop :=
  ∀ row ∈ s.trials.rows, ∀ tenantId trial newId now status,
    trial.id newId = row.trialId → trial.validate = .ok status →
      s.record sha256 tenantId trial newId now =
        if trial.immutable tenantId row.trialId = row.immutable ∧ status = row.status then
          .ok (row, s)
        else .error (.valueError "trial_identity_payload_conflict")

/-- **The law of the ledger**, for a run and the states in it. -/
structure Law (sha256 : Immutable × String → D) (calls : List Call) : Prop where
  once : (after sha256 calls).audits.rows.Pairwise fun a b => a.action = "unlocked" →
    b.action = "unlocked" → (a.tenantId, a.snapshotId) ≠ (b.tenantId, b.snapshotId)
  kept : ∀ before later, calls = before ++ later → Kept (after sha256 before) (after sha256 calls)
  recorded : ∀ tenantId trial newId now row s',
    (after sha256 calls).record sha256 tenantId trial newId now = .ok (row, s') →
      row ∈ s'.trials.rows ∧ row.immutable = trial.immutable tenantId (trial.id newId) ∧
        trial.validate = .ok row.status
  frozen : ∀ tenantId trial newId now row s',
    (after sha256 calls).record sha256 tenantId trial newId now = .ok (row, s') →
      (after sha256 calls).Unlocked tenantId row.immutable.snapshotId → s' = after sha256 calls
  replays : Replays sha256 (after sha256 calls)
  audited : ∀ before call later, calls = before ++ .unlock call :: later →
    Audited call (after sha256 before)
  granted : ∀ call now, ((after sha256 calls).unlock call).1 = .ok now →
    ∃ existing ∈ (after sha256 calls).trial? call.tenantId call.trialId,
      ¬ (after sha256 calls).Unlocked call.tenantId existing.immutable.snapshotId ∧
        ((after sha256 calls).unlock call).2.Unlocked call.tenantId existing.immutable.snapshotId

/-! ## What a call does -/

variable {newId : String} {now : ℚ} {row : TrialRow D} {s s' : TrialLedger D} {tenantId : String}
  {trial : Trial}

/-- **The ways of a recording**: a replay, or a new row. -/
theorem record_eq_ok (h : s.record sha256 tenantId trial newId now = .ok (row, s')) :
    ∃ status, trial.validate = .ok status ∧ (s.trials.find? (trial.id newId) = some row ∧ s' = s ∧
          row.digest sha256 = sha256 (trial.immutable tenantId (trial.id newId), status) ∨
        s.trials.find? (trial.id newId) = none ∧
          ¬ s.Unlocked tenantId (trial.immutable tenantId (trial.id newId)).snapshotId ∧
          row = trial.row sha256 tenantId (trial.id newId) status now ∧
          s' = { s with trials := s.trials.insertOnce row }) := by
  obtain ⟨status, hstatus, h⟩ := of_bind h
  refine ⟨status, hstatus, ?_⟩
  split at h
  · rename_i existing hfind
    obtain ⟨hdigest, h⟩ := of_raiseIf h
    obtain ⟨rfl, rfl⟩ := Prod.mk.inj (ok.inj h)
    exact .inl ⟨hfind, rfl, not_ne_iff.mp hdigest⟩
  · rename_i hfind
    obtain ⟨hlocked, h⟩ := of_raiseIf h
    obtain ⟨rfl, rfl⟩ := Prod.mk.inj (ok.inj h)
    exact .inr ⟨hfind, hlocked, rfl, rfl⟩

/-- **The ways of an unlock.** -/
inductive Unlocks (call : UnlockCall) (s : TrialLedger D) :
    Except TrialError ℚ × TrialLedger D → Prop
  | missing (absent : s.trial? call.tenantId call.trialId = none) :
      Unlocks call s (.error (.keyError "trial_not_found"), s)
  | collided (taken : s.audits.find? call.auditId ≠ none) :
      Unlocks call s (.error (.integrityError "holdout_audit.audit_id"), s)
  | refused (existing : TrialRow D) (refusal : String)
      (found : s.trial? call.tenantId call.trialId = some existing)
      (fresh : s.audits.find? call.auditId = none)
      (refuses : unlockError call existing.immutable.snapshotId s = some refusal) :
      Unlocks call s (.error (.permissionError refusal),
        s.putOnRecord call existing.immutable.snapshotId)
  | granted (existing : TrialRow D) (found : s.trial? call.tenantId call.trialId = some existing)
      (fresh : s.audits.find? call.auditId = none)
      (grants : unlockError call existing.immutable.snapshotId s = none) :
      Unlocks call s (.ok call.now,
        { s.putOnRecord call existing.immutable.snapshotId with
          trials := unlockRows call.tenantId existing.immutable.snapshotId call.now s.trials })

omit [DecidableEq D] in
theorem unlocks (call : UnlockCall) (s : TrialLedger D) : Unlocks call s (s.unlock call) := by
  unfold TrialLedger.unlock
  split
  · rename_i habsent
    exact .missing habsent
  rename_i existing hfound
  split_ifs with htaken
  · exact .collided htaken
  · have hfresh := not_ne_iff.mp htaken
    unfold TrialLedger.attempt
    split
    · rename_i refusal hrefuses
      exact .refused existing refusal hfound hfresh hrefuses
    · rename_i hgrants
      exact .granted existing hfound hfresh hgrants

variable {call : UnlockCall}

omit [DecidableEq D] in
theorem rows_putOnRecord (hfresh : s.audits.find? call.auditId = none) (snapshotId : String) :
    (s.putOnRecord call snapshotId).audits.rows =
      s.audits.rows ++ [call.audit snapshotId (unlockError call snapshotId s)] :=
  rows_insertOnce hfresh

omit [DecidableEq D] in
theorem trial?_eq_some {trialId : String} (h : s.trial? tenantId trialId = some row) :
    row ∈ s.trials.rows ∧ row.immutable.tenantId = tenantId := by
  obtain ⟨hfind, htenant⟩ := Option.filter_eq_some_iff.mp h
  exact ⟨mem_of_find? hfind, of_decide_eq_true htenant⟩

variable {snapshotId : String}

omit [DecidableEq D] in
theorem unlockError_eq_none (h : unlockError call snapshotId s = none) :
    ¬ s.Unlocked call.tenantId snapshotId := by
  unfold unlockError at h
  split_ifs at h with hpermitted hunlocked
  exact hunlocked

omit [DecidableEq D] in
theorem ne_unlocked_of_refusal {refusal : String}
    (h : unlockError call snapshotId s = some refusal) :
    refusal ≠ "unlocked" := by
  unfold unlockError at h
  split_ifs at h
  · obtain rfl := some.inj h
    decide
  · obtain rfl := some.inj h
    decide

/-! ## What a call keeps -/

omit [DecidableEq D] in
theorem Kept.refl (s : TrialLedger D) : Kept s s where
  trials := fun row hrow => ⟨row, hrow, rfl, rfl, rfl, rfl⟩
  unlocked := fun _ _ h => h
  frozen := fun _ _ _ row hrow _ _ => ⟨row, hrow, rfl⟩
  audits := prefix_rfl

omit [DecidableEq D] in
theorem Kept.trans {s'' : TrialLedger D} (h : Kept s s') (h' : Kept s' s'') : Kept s s'' where
  trials := by
    intro row hrow
    obtain ⟨row', hrow', himmutable, hstatus, hsha, hcreated⟩ := h.trials row hrow
    obtain ⟨row'', hrow'', himmutable', hstatus', hsha', hcreated'⟩ := h'.trials row' hrow'
    exact ⟨row'', hrow'', himmutable'.trans himmutable, hstatus'.trans hstatus, hsha'.trans hsha,
      hcreated'.trans hcreated⟩
  unlocked := fun tenantId snapshotId hs =>
    h'.unlocked tenantId snapshotId (h.unlocked tenantId snapshotId hs)
  frozen := by
    intro tenantId snapshotId hs row'' hrow'' htenant hsnapshot
    obtain ⟨row', hrow', heq⟩ := h'.frozen tenantId snapshotId (h.unlocked tenantId snapshotId hs)
      row'' hrow'' htenant hsnapshot
    obtain ⟨row, hrow, heq'⟩ := h.frozen tenantId snapshotId hs row' hrow' (heq ▸ htenant)
      (heq ▸ hsnapshot)
    exact ⟨row, hrow, heq'.trans heq⟩
  audits := h.audits.trans h'.audits

theorem kept_record (h : s.record sha256 tenantId trial newId now = .ok (row, s')) : Kept s s' := by
  obtain ⟨status, -, ⟨-, rfl, -⟩ | ⟨hfree, hlocked, rfl, rfl⟩⟩ := record_eq_ok h
  · exact Kept.refl _
  have hmem : ∀ r, r ∈ (s.trials.insertOnce
      (trial.row sha256 tenantId (trial.id newId) status now)).rows ↔ _ :=
    fun r => mem_rows_insertOnce hfree
  refine ⟨fun r hr => ⟨r, (hmem r).mpr (.inl hr), rfl, rfl, rfl, rfl⟩, ?_, ?_, prefix_rfl⟩
  · rintro tenant snapshot ⟨r, hr, hunlocked⟩
    exact ⟨r, (hmem r).mpr (.inl hr), hunlocked⟩
  · intro tenant snapshot hunlocked r hr htenant hsnapshot
    obtain hr | rfl := (hmem r).mp hr
    · exact ⟨r, hr, rfl⟩
    · -- the new trial is of another snapshot
      obtain rfl : tenantId = tenant := htenant
      exact absurd (hsnapshot ▸ hunlocked) hlocked

variable {t : Table (TrialRow.trialId (D := D))}

omit [DecidableEq D] in
theorem mem_unlockRows {row' : TrialRow D} :
    row' ∈ (unlockRows tenantId snapshotId now t).rows ↔ ∃ row ∈ t.rows,
      (if row.immutable.tenantId = tenantId ∧ row.immutable.snapshotId = snapshotId then
        { row with holdoutSealed := false, holdoutUnlockedAt := some now } else row) = row' :=
  mem_map

omit [DecidableEq D] in
/-- A row after an unlock is the row before, except for its holdout. -/
theorem exists_unlockRows (tenantId snapshotId : String) (now : ℚ) (h : row ∈ t.rows) :
    ∃ row' ∈ (unlockRows tenantId snapshotId now t).rows, row'.immutable = row.immutable ∧
      row'.status = row.status ∧ row'.registrationSha256 = row.registrationSha256 ∧
      row'.createdAt = row.createdAt ∧
      (row.holdoutUnlockedAt ≠ none ∨
        row.immutable.tenantId = tenantId ∧ row.immutable.snapshotId = snapshotId →
          row'.holdoutUnlockedAt ≠ none) := by
  refine ⟨_, mem_unlockRows.mpr ⟨row, h, rfl⟩, ?_⟩
  split_ifs with hsnapshot
  · exact ⟨rfl, rfl, rfl, rfl, fun _ => by simp⟩
  · exact ⟨rfl, rfl, rfl, rfl, fun hor => hor.resolve_right hsnapshot⟩

omit [DecidableEq D] in
theorem kept_unlock (call : UnlockCall) (s : TrialLedger D) : Kept s (s.unlock call).2 := by
  cases hunlocks : s.unlock call with
  | mk result s' =>
    have hways := unlocks call s
    rw [hunlocks] at hways
    cases hways with
    | missing => exact Kept.refl s
    | collided => exact Kept.refl s
    | refused existing refusal _ hfresh _ =>
      refine ⟨(Kept.refl s).trials, (Kept.refl s).unlocked, (Kept.refl s).frozen, ?_⟩
      rw [rows_putOnRecord hfresh]
      exact prefix_append _ _
    | granted existing _ hfresh _ =>
      refine ⟨fun row hrow => ?_, ?_, ?_, ?_⟩
      · obtain ⟨row', hrow', himmutable, hstatus, hsha, hcreated, -⟩ := exists_unlockRows _ _ _ hrow
        exact ⟨row', hrow', himmutable, hstatus, hsha, hcreated⟩
      · rintro tenantId snapshotId ⟨row, hrow, htenant, hsnapshot, hunlocked⟩
        obtain ⟨row', hrow', himmutable, -, -, -, hunlocked'⟩ := exists_unlockRows _ _ _ hrow
        exact ⟨row', hrow', himmutable ▸ htenant, himmutable ▸ hsnapshot,
          hunlocked' (.inl hunlocked)⟩
      · intro tenantId snapshotId _ row' hrow' _ _
        obtain ⟨row, hrow, rfl⟩ := mem_unlockRows.mp hrow'
        refine ⟨row, hrow, ?_⟩
        split_ifs <;> rfl
      · show s.audits.rows <+: (s.putOnRecord call existing.immutable.snapshotId).audits.rows
        rw [rows_putOnRecord hfresh]
        exact prefix_append _ _

theorem kept_step (s : TrialLedger D) (call : Call) : Kept s (step sha256 s call) := by
  cases call with
  | record tenantId trial newId now =>
    show Kept s (match s.record sha256 tenantId trial newId now with
      | .ok (_, s') => s'
      | .error _ => s)
    split
    · rename_i h
      exact kept_record h
    · exact Kept.refl s
  | unlock call => exact kept_unlock call s

theorem kept_run (s : TrialLedger D) (calls : List Call) :
    Kept s (Machine.run (step sha256) s calls) :=
  rel_run (fun _ => True) Kept (fun _ _ _ => trivial) Kept.refl (fun _ _ _ => Kept.trans)
    (fun s call _ => kept_step s call) trivial calls

/-! ## What holds of every ledger -/

/-- **The invariant.** -/
structure Sound (sha256 : Immutable × String → D) (s : TrialLedger D) : Prop where
  digest : ∀ row ∈ s.trials.rows, row.registrationSha256 = some (sha256 (row.immutable, row.status))
  unlocked : ∀ audit ∈ s.audits.rows, audit.action = "unlocked" →
    s.Unlocked audit.tenantId audit.snapshotId
  once : s.audits.rows.Pairwise fun a b => a.action = "unlocked" → b.action = "unlocked" →
    (a.tenantId, a.snapshotId) ≠ (b.tenantId, b.snapshotId)

omit [DecidableEq D] in
theorem sound_start : Sound sha256 .start where
  digest := fun _ hrow => absurd hrow not_mem_nil
  unlocked := fun _ haudit => absurd haudit not_mem_nil
  once := .nil

theorem sound_record (hs : Sound sha256 s)
    (h : s.record sha256 tenantId trial newId now = .ok (row, s')) : Sound sha256 s' := by
  have hkept := kept_record h
  obtain ⟨status, -, ⟨-, rfl, -⟩ | ⟨hfree, -, rfl, rfl⟩⟩ := record_eq_ok h
  · exact hs
  refine ⟨fun r hr => ?_, fun audit haudit haction => ?_, hs.once⟩
  · obtain hr | rfl := (mem_rows_insertOnce hfree).mp hr
    · exact hs.digest r hr
    · rfl
  · exact hkept.unlocked _ _ (hs.unlocked audit haudit haction)

omit [DecidableEq D] in
theorem unlocked_granted {existing : TrialRow D}
    (hfound : s.trial? call.tenantId call.trialId = some existing) (audits) :
    (⟨unlockRows call.tenantId existing.immutable.snapshotId call.now s.trials, audits⟩ :
      TrialLedger D).Unlocked call.tenantId existing.immutable.snapshotId := by
  obtain ⟨hrow, htenant⟩ := trial?_eq_some hfound
  obtain ⟨row', hrow', himmutable, -, -, -, hunlocked⟩ :=
    exists_unlockRows call.tenantId existing.immutable.snapshotId call.now hrow
  exact ⟨row', hrow', himmutable ▸ htenant, himmutable ▸ rfl, hunlocked (.inr ⟨htenant, rfl⟩)⟩

omit [DecidableEq D] in
theorem sound_unlock (call : UnlockCall) (hs : Sound sha256 s) :
    Sound sha256 (s.unlock call).2 := by
  have hkept := kept_unlock call s
  cases hunlocks : s.unlock call with
  | mk result s' =>
    have hways := unlocks call s
    rw [hunlocks] at hways hkept
    cases hways with
    | missing => exact hs
    | collided => exact hs
    | refused existing refusal _ hfresh hrefuses =>
      have haction : (call.audit existing.immutable.snapshotId
          (unlockError call existing.immutable.snapshotId s)).action ≠ "unlocked" := by
        rw [hrefuses]
        exact ne_unlocked_of_refusal hrefuses
      refine ⟨hs.digest, fun audit haudit haction' => ?_, ?_⟩
      · rw [rows_putOnRecord hfresh] at haudit
        refine (mem_append.mp haudit).elim (hs.unlocked audit · haction') fun haudit => ?_
        exact absurd (mem_singleton.mp haudit ▸ haction') haction
      · rw [rows_putOnRecord hfresh]
        refine pairwise_append.mpr ⟨hs.once, pairwise_singleton _ _, ?_⟩
        intro a _ b hb _ hunlocked
        exact absurd (mem_singleton.mp hb ▸ hunlocked) haction
    | granted existing hfound hfresh hgrants =>
      have hlocked := unlockError_eq_none hgrants
      have haudits := rows_putOnRecord hfresh existing.immutable.snapshotId
      refine ⟨fun row' hrow' => ?_, fun audit haudit haction => ?_, ?_⟩
      · obtain ⟨row, hrow, rfl⟩ := mem_unlockRows.mp hrow'
        split_ifs
        · exact hs.digest row hrow
        · exact hs.digest row hrow
      · have haudit : audit ∈ (s.putOnRecord call existing.immutable.snapshotId).audits.rows :=
          haudit
        rw [haudits] at haudit
        obtain haudit | haudit := mem_append.mp haudit
        · exact hkept.unlocked _ _ (hs.unlocked audit haudit haction)
        · obtain rfl := mem_singleton.mp haudit
          exact unlocked_granted hfound _
      · show (s.putOnRecord call existing.immutable.snapshotId).audits.rows.Pairwise _
        rw [haudits]
        refine pairwise_append.mpr ⟨hs.once, pairwise_singleton _ _, ?_⟩
        intro a ha b hb hunlocked _ heq
        obtain rfl := mem_singleton.mp hb
        obtain ⟨htenant, hsnapshot⟩ := Prod.mk.inj heq
        have hbefore := hs.unlocked a ha hunlocked
        rw [htenant, hsnapshot] at hbefore
        exact hlocked hbefore

theorem sound_step (hs : Sound sha256 s) (call : Call) : Sound sha256 (step sha256 s call) := by
  cases call with
  | record tenantId trial newId now =>
    show Sound sha256 (match s.record sha256 tenantId trial newId now with
      | .ok (_, s') => s'
      | .error _ => s)
    split
    · rename_i h
      exact sound_record hs h
    · exact hs
  | unlock call => exact sound_unlock call hs

theorem sound_after (sha256 : Immutable × String → D) (calls : List Call) :
    Sound sha256 (after sha256 calls) :=
  inv_run (Sound sha256) (fun _ call hs => sound_step hs call) sound_start calls

theorem Sound.replays (hs : Sound sha256 s) (hinjective : sha256.Injective) : Replays sha256 s := by
  intro row hrow tenantId trial newId now status hid hstatus
  have hfind : s.trials.find? (trial.id newId) = some row := hid ▸ find?_of_mem hrow
  have hdigest : row.digest sha256 = sha256 (row.immutable, row.status) := by
    unfold TrialRow.digest
    rw [hs.digest row hrow]
    rfl
  unfold TrialLedger.record
  rw [hstatus, ok_bind]
  simp only [hfind]
  rw [hdigest, hid]
  by_cases heq : trial.immutable tenantId row.trialId = row.immutable ∧ status = row.status
  · rw [if_pos heq, heq.1, heq.2, raiseIf_bind_of_not (by simp)]
    rfl
  · have hne : sha256 (row.immutable, row.status) ≠
        sha256 (trial.immutable tenantId row.trialId, status) := fun hdigest =>
      have hsame := Prod.mk.inj (hinjective hdigest)
      heq ⟨hsame.1.symm, hsame.2.symm⟩
    rw [if_neg heq, raiseIf, if_pos hne]
    rfl

/-! ## Audits -/

theorem auditId_mem (sha256 : Immutable × String → D) (calls : List Call) :
    ∀ audit ∈ (after sha256 calls).audits.rows, audit.auditId ∈ auditIds calls := by
  induction calls using List.reverseRecOn with
  | nil => exact fun _ haudit => absurd haudit not_mem_nil
  | append_singleton calls call ih =>
    intro audit haudit
    rw [auditIds, filterMap_append]
    have hold : ∀ rest, audit ∈ (after sha256 calls).audits.rows →
        audit.auditId ∈ auditIds calls ++ rest :=
      fun rest haudit => mem_append_left rest (ih audit haudit)
    rw [after, run_concat] at haudit
    change audit ∈ (step sha256 (after sha256 calls) call).audits.rows at haudit
    cases call with
    | record tenantId trial newId now =>
      refine hold _ ?_
      simp only [step] at haudit
      split at haudit
      · rename_i h
        obtain ⟨status, -, ⟨-, rfl, -⟩ | ⟨-, -, -, rfl⟩⟩ := record_eq_ok h
        · exact haudit
        · exact haudit
      · exact haudit
    | unlock call =>
      simp only [step] at haudit
      have hways := unlocks call (after sha256 calls)
      generalize (after sha256 calls).unlock call = result at haudit hways
      cases hways with
      | missing => exact hold _ haudit
      | collided => exact hold _ haudit
      | refused existing refusal hfound hfresh hrefuses =>
        rw [rows_putOnRecord hfresh] at haudit
        refine (mem_append.mp haudit).elim (hold _) fun haudit => ?_
        obtain rfl := mem_singleton.mp haudit
        exact mem_append_right _ (mem_singleton.mpr rfl)
      | granted existing hfound hfresh hgrants =>
        change audit ∈
          ((after sha256 calls).putOnRecord call existing.immutable.snapshotId).audits.rows at haudit
        rw [rows_putOnRecord hfresh] at haudit
        refine (mem_append.mp haudit).elim (hold _) fun haudit => ?_
        obtain rfl := mem_singleton.mp haudit
        exact mem_append_right _ (mem_singleton.mpr rfl)

omit [DecidableEq D] in
/-- **An attempt with an id that is not taken is audited.** -/
theorem audited_of_fresh (hfresh : s.audits.find? call.auditId = none) : Audited call s := by
  intro existing hfound
  have hways := unlocks call s
  generalize s.unlock call = result at hways ⊢
  cases hways with
  | missing habsent => exact nomatch habsent.symm.trans hfound
  | collided htaken => exact absurd hfresh htaken
  | refused existing' refusal hfound' _ hrefuses =>
    obtain rfl := some.inj (hfound'.symm.trans hfound)
    exact ⟨rows_putOnRecord hfresh _, by simp [hrefuses]⟩
  | granted existing' hfound' _ hgrants =>
    obtain rfl := some.inj (hfound'.symm.trans hfound)
    exact ⟨rows_putOnRecord hfresh _, by simp [hgrants]⟩

theorem trial_ledger (sha256 : Immutable × String → D) (hinjective : sha256.Injective)
    (calls : List Call) (hids : (auditIds calls).Nodup) : Law sha256 calls where
  once := (sound_after sha256 calls).once
  kept := by
    rintro before later rfl
    rw [after, after, run_append]
    exact kept_run _ later
  recorded := by
    intro tenantId trial newId now row s' h
    have hs := sound_after sha256 calls
    obtain ⟨status, hstatus, ⟨hfind, rfl, hdigest⟩ | ⟨hfree, -, rfl, rfl⟩⟩ := record_eq_ok h
    · have hrow := mem_of_find? hfind
      have hstored : row.digest sha256 = sha256 (row.immutable, row.status) := by
        unfold TrialRow.digest
        rw [hs.digest row hrow]
        rfl
      obtain ⟨himmutable, hstatus'⟩ := Prod.mk.inj (hinjective (hstored.symm.trans hdigest))
      exact ⟨hrow, himmutable, hstatus' ▸ hstatus⟩
    · exact ⟨mem_of_find? (find?_insertOnce_self hfree), rfl, hstatus⟩
  frozen := by
    intro tenantId trial newId now row s' h hunlocked
    obtain ⟨status, -, ⟨-, rfl, -⟩ | ⟨-, hlocked, rfl, -⟩⟩ := record_eq_ok h
    · rfl
    · exact absurd hunlocked hlocked
  replays := (sound_after sha256 calls).replays hinjective
  audited := by
    rintro before call later rfl
    refine audited_of_fresh (find?_eq_none_iff.mpr fun htaken => ?_)
    obtain ⟨audit, haudit, hid⟩ := mem_map.mp htaken
    have hmem := auditId_mem sha256 before audit haudit
    rw [auditIds, filterMap_append] at hids
    exact (nodup_append.mp hids).2.2 _ (hid ▸ hmem) _ mem_cons_self rfl
  granted := by
    intro call now h
    have hways := unlocks call (after sha256 calls)
    generalize (after sha256 calls).unlock call = result at h hways ⊢
    cases hways with
    | missing => exact nomatch h
    | collided => exact nomatch h
    | refused => exact nomatch h
    | granted existing hfound hfresh hgrants =>
      exact ⟨existing, hfound, unlockError_eq_none hgrants, unlocked_granted hfound _⟩

end Law

/-! ## A run -/

/-- A trial of a snapshot, with everything else as the ledger supplies it. -/
def sampleTrial (trialId : String) : Trial :=
  ⟨some trialId, some "snap", none, none, none, none, none, some (1 / 2), none, none, none, none,
    none, none, none, none⟩

/-- An unlock by an authorized service. -/
def sampleUnlock (auditId : String) : UnlockCall :=
  ⟨"alpha", "t1", "validator", ["holdout:unlock"], "final evaluation", auditId, 100⟩

/-- A trial is recorded, its holdout is unlocked and asked for again, and another trial comes
too late. -/
def sampleCalls : List Call :=
  [.record "alpha" (sampleTrial "t1") "" 1, .unlock (sampleUnlock "a1"),
    .unlock (sampleUnlock "a2"), .record "alpha" (sampleTrial "t2") "" 2]

/-- The law of the run, with payloads for their own digests. -/
theorem trial_ledger_sample : Law (id : Immutable × String → Immutable × String) sampleCalls :=
  trial_ledger id Function.injective_id sampleCalls (by decide)

example : (after (id : Immutable × String → Immutable × String) sampleCalls).audits.rows.map
    HoldoutAudit.action = ["unlocked", "holdout_already_unlocked"] := by decide +kernel

end Qt.Trials
