import QuantTrading.Lib.Firsts
import QuantTrading.Lib.Machine
import QuantTrading.Persistence

/-!
# Approvals

`qt.agent_hub.approvals` and what it is for: the worker asks for an approval instead of
submitting an intent, and the owner's answer either submits the intent or does not.

`decide` reads the row in one statement and writes it in another, and the write asks
nothing of the row. Between the two another answer may be written, or the approval may
expire: of two answers the later stays on the row while both are acted on, so that an
intent is submitted through an approval that was rejected (`reject_then_submit`). A run
keeps its approvals final exactly when every write finds the row as it was read, not
decided, and not expired yet (`approvals_final`).

Every statement is a step, and so is everything a caller does between two of them.
-/

namespace Qt.Approvals

open Except List Table Machine

/-! ## Rows -/

inductive RiskTier | read | write | funds | irreversible
deriving DecidableEq, Repr

inductive Decision | once | «class» | reject
deriving DecidableEq, Repr

/-- A row of `approvals`. -/
structure Approval where
  id : String
  tenantId : String
  runId : String
  effectId : Option String
  riskTier : RiskTier
  payload : String
  requestedBy : String
  expiresAt : ℚ
  decidedBy : Option String
  decision : Option Decision
  signature : String
  createdAt : ℚ
deriving DecidableEq

/-- What is done with payloads `P`. -/
structure ApprovalCodec (P : Type) where
  /-- `json.dumps`, which raises for a number that is not finite. -/
  dumps : P → Except Exc String
  /-- `json.loads`. -/
  loads : String → P
  /-- The digest of a text. -/
  sha256 : String → String
  /-- `intent.get("idempotency_key")`, if the payload is a dictionary and has a key that is
  not empty. -/
  idempotencyKey : P → Option String
  /-- `effect_id` of an execution key. -/
  effectId : String → String

/-- The columns of a request. -/
structure Request (P : Type) where
  tenantId : String
  runId : String
  payload : P
  riskTier : RiskTier
  ttlSeconds : ℤ
  requestedBy : String
  effectId : Option String

/-- An answer that is given. -/
structure Answer where
  tenantId : String
  approvalId : String
  decision : Decision
  decidedBy : String
deriving DecidableEq

/-! ## The system -/

/-- A call of `decide_approval`, by what it has done. -/
inductive DecideCall
  | idle
  /-- The clock was read. -/
  | started (answer : Answer) (now : ℚ)
  /-- The row was read, and passed the checks. -/
  | selected (answer : Answer) (row : Approval)
  /-- The decision was written. -/
  | decided (answer : Answer) (row : Approval)
  /-- The call has ended, with an item or with a status and a detail. -/
  | ended (reply : Except (ℕ × String) Approval)
deriving DecidableEq

/-- The worker at an intent, by what it has done. -/
inductive WorkerCall (P : Type)
  | idle
  /-- The pending approvals were read, and none was open. -/
  | looked (request : Request P)
  /-- The worker waits for an approval. -/
  | awaiting (approvalId : String)

/-- **A decision that was recorded**: an `UPDATE` that found its row. -/
structure Recorded where
  approvalId : String
  decision : Decision
  time : ℚ
deriving DecidableEq

/-- **An intent that was submitted**, through an approval or by the worker itself. -/
structure Submitted (P : Type) where
  via : Option String
  idempotencyKey : String
  intent : P
deriving DecidableEq

variable {P : Type}

/-- The table, the callers, the clock, and what was recorded and submitted. -/
structure System (P : Type) where
  approvals : Table Approval.id
  deciders : ℕ → DecideCall
  workers : ℕ → WorkerCall P
  clock : ℚ
  recorded : List Recorded
  submitted : List (Submitted P)

/-- Nobody has asked for anything. -/
def System.init : System P := ⟨.empty, fun _ => .idle, fun _ => .idle, 0, [], []⟩

/-! ## Statements -/

variable (codec : ApprovalCodec P)

/-- **`request`**: the row that is inserted. -/
def Request.row (r : Request P) (id : String) (now now' : ℚ) : Except Exc Approval := do
  let encoded ← codec.dumps r.payload
  return {
    id
    tenantId := r.tenantId
    runId := r.runId
    effectId := r.effectId
    riskTier := r.riskTier
    payload := encoded
    requestedBy := r.requestedBy
    expiresAt := now + (max 30 r.ttlSeconds : ℤ)
    decidedBy := none
    decision := none
    signature := codec.sha256 encoded
    createdAt := now' }

/-- The insertion of a request; one that raises inserts nothing. -/
def System.insert (r : Request P) (id : String) (now now' : ℚ) (s : System P) : System P :=
  match r.row codec id now now' with
  | .ok row => { s with approvals := s.approvals.insertOnce row }
  | .error _ => s

/-- `pending`: the approvals of a tenant without a decision, the newest first. -/
def System.pending (tenant : String) (s : System P) : List Approval :=
  ((s.approvals.rows.filter fun r => r.tenantId = tenant ∧ r.decision = none).orderBy
    fun r => OrderDual.toDual r.createdAt).take 100

/-- The checks of `decide` on the row it has read. -/
def checkRow (now : ℚ) (row : Option Approval) : Except Exc Approval :=
  match row with
  | none => .error (.keyError "approval_not_found")
  | some row => do
    raiseIf (row.decision ≠ none) (.valueError "approval_already_decided")
    raiseIf (row.expiresAt ≤ now) (.valueError "approval_expired_checkpoint")
    return row

/-- What `decide_approval` answers to an exception. -/
def httpError : Exc → ℕ × String
  | .keyError _ => (404, "approval not found")
  | .valueError message => (409, message)
  | _ => (500, "Internal Server Error")

/-- The `SELECT` of `decide`, and its checks. -/
def DecideCall.select (answer : Answer) (now : ℚ) (s : System P) : DecideCall :=
  match checkRow now ((s.approvals.find? answer.approvalId).filter
      (·.tenantId = answer.tenantId)) with
  | .error e => .ended (.error (httpError e))
  | .ok row => .selected answer row

variable (a : Answer)

/-- The row of an answer. -/
def Answer.IsFor (r : Approval) : Prop :=
  r.tenantId = a.tenantId ∧ r.id = a.approvalId
deriving Decidable

/-- A row with its decision. -/
def Approval.decide (r : Approval) : Approval :=
  { r with decision := some a.decision, decidedBy := some a.decidedBy }

@[simp] theorem Approval.id_decide (r : Approval) : (r.decide a).id = r.id := rfl

variable (s : System P)

/-- **The `UPDATE` of `decide`**, which asks for the id alone. -/
def System.update : System P :=
  { s with
    approvals := s.approvals.updateWhere a.IsFor (·.decide a) (Approval.id_decide a)
    recorded := if s.approvals.rows.any a.IsFor
      then s.recorded ++ [⟨a.approvalId, a.decision, s.clock⟩] else s.recorded }

/-- What `decide_approval` submits for a decision. -/
def Answer.submissions (row : Approval) : List (Submitted P) :=
  if a.decision = .reject then []
  else match codec.idempotencyKey (codec.loads row.payload) with
    | some key => [⟨some row.id, key, codec.loads row.payload⟩]
    | none => []

/-- The request of the worker for an intent. -/
def executionRequest (tenant runId key : String) (intent : P) : Request P where
  tenantId := tenant
  runId := runId
  payload := intent
  riskTier := .funds
  ttlSeconds := 3600
  requestedBy := "execute"
  effectId := some (codec.effectId key)

/-! ## Steps -/

/-- The statements and what callers do between them, with what the host answers: the ids
that `uuid4` draws, and the readings of the clock that are not compared with a row later. -/
inductive Label (P : Type)
  | tick (now : ℚ)
  | request (request : Request P) (id : String) (now now' : ℚ)
  | start (k : ℕ) (answer : Answer)
  | select (k : ℕ)
  | update (k : ℕ)
  | submit (k : ℕ)
  /-- `_submit_persisted_intent` with its reading of the pending approvals. -/
  | execute (w : ℕ) (tenant runId key : String) (intent : P) (now : ℚ)
  | ask (w : ℕ) (id : String) (now now' : ℚ)
  /-- Every caller is gone. -/
  | crash

/-- The deciders after one of them has moved. -/
def System.setDecider (s : System P) (k : ℕ) (c : DecideCall) : System P :=
  { s with deciders := Function.update s.deciders k c }

/-- The workers after one of them has moved. -/
def System.setWorker (w : ℕ) (c : WorkerCall P) : System P :=
  { s with workers := Function.update s.workers w c }

variable (requireExecutionApproval : Bool)

/-- **`_submit_persisted_intent`**, up to the insertion of a request. -/
def execute (w : ℕ) (tenant runId key : String) (intent : P) (now : ℚ) (s : System P) : System P :=
  if requireExecutionApproval then
    match (s.pending tenant).find? fun item =>
        item.effectId = some (codec.effectId key) ∧ ¬ item.expiresAt ≤ now with
    | some item => s.setWorker w (.awaiting item.id)
    | none => s.setWorker w (.looked (executionRequest codec tenant runId key intent))
  else { s with submitted := s.submitted ++ [⟨none, key, intent⟩] }

/-- `decide` begins: it reads the clock. -/
def start (k : ℕ) (answer : Answer) (s : System P) : System P :=
  match s.deciders k with
  | .idle | .ended _ => s.setDecider k (.started answer s.clock)
  | _ => s

/-- `decide` reads its row. -/
def select (k : ℕ) (s : System P) : System P :=
  match s.deciders k with
  | .started answer now => s.setDecider k (DecideCall.select answer now s)
  | _ => s

/-- `decide` writes its decision. -/
def update (k : ℕ) (s : System P) : System P :=
  match s.deciders k with
  | .selected answer row => (s.update answer).setDecider k (.decided answer row)
  | _ => s

/-- `decide_approval` submits what was approved, and ends. -/
def submit (k : ℕ) (s : System P) : System P :=
  match s.deciders k with
  | .decided answer row =>
    ({ s with submitted := s.submitted ++ answer.submissions codec row }).setDecider k
      (.ended (.ok (row.decide answer)))
  | _ => s

/-- The worker inserts its request. -/
def ask (w : ℕ) (id : String) (now now' : ℚ) (s : System P) : System P :=
  match s.workers w with
  | .looked r => (s.insert codec r id now now').setWorker w (.awaiting id)
  | _ => s

def step (s : System P) : Label P → System P
  | .tick now => { s with clock := now }
  | .request r id now now' => s.insert codec r id now now'
  | .start k answer => Approvals.start k answer s
  | .select k => Approvals.select k s
  | .update k => Approvals.update k s
  | .submit k => Approvals.submit codec k s
  | .execute w tenant runId key intent now =>
    Approvals.execute codec requireExecutionApproval w tenant runId key intent now s
  | .ask w id now now' => Approvals.ask codec w id now now' s
  | .crash => { s with deciders := fun _ => .idle, workers := fun _ => .idle }

/-- The system after a run. -/
def after (ls : List (Label P)) : System P :=
  Machine.run (step codec requireExecutionApproval) .init ls

/-! ## What is final -/

/-- **Approvals are final**: no approval has two decisions recorded, the one that is
recorded stays on its row and was recorded before the row expired; an intent that needs
an approval is submitted through one that has a decision other than a rejection, and none
is submitted through one that was ever rejected. -/
structure Final (requireExecutionApproval : Bool) (s : System P) : Prop where
  once : (s.recorded.map Recorded.approvalId).Nodup
  kept : ∀ w ∈ s.recorded, ∃ r ∈ s.approvals.find? w.approvalId, r.decision = some w.decision
  open_ : ∀ w ∈ s.recorded, ∀ r ∈ s.approvals.find? w.approvalId, w.time < r.expiresAt
  approved : requireExecutionApproval → ∀ o ∈ s.submitted, ∃ w ∈ s.recorded,
    o.via = some w.approvalId ∧ w.decision ≠ .reject
  rejected : ∀ w ∈ s.recorded, w.decision = .reject → ∀ o ∈ s.submitted, o.via ≠ some w.approvalId

/-- **The write finds its row as it was read**: without a decision, and not expired. -/
def Undisturbed (s : System P) : Label P → Prop
  | .update k => ∀ answer row, s.deciders k = .selected answer row →
    ∀ r ∈ s.approvals.find? answer.approvalId, r.decision = none ∧ s.clock < r.expiresAt
  | _ => True

/-- The caller's row is in the table, but for its decision. -/
def System.Holds (answer : Answer) (row : Approval) : Prop :=
  row.id = answer.approvalId ∧ row.tenantId = answer.tenantId ∧
    ∃ r ∈ s.approvals.find? row.id, r.tenantId = row.tenantId

/-- A decision is recorded. -/
def System.Has (id : String) (decision : Decision) : Prop :=
  ∃ w ∈ s.recorded, w.approvalId = id ∧ w.decision = decision

/-- **What holds in every run**: what a caller holds is in the table, a decision on a row
is recorded and a recorded decision is on a row, and what is submitted was decided. -/
structure Sound (requireExecutionApproval : Bool) (s : System P) : Prop where
  selected : ∀ k answer row, s.deciders k = .selected answer row → s.Holds answer row
  decided : ∀ k answer row, s.deciders k = .decided answer row →
    row.id = answer.approvalId ∧ s.Has row.id answer.decision
  rows : ∀ r ∈ s.approvals.rows, ∀ d, r.decision = some d → s.Has r.id d
  recorded : ∀ w ∈ s.recorded, ∃ r ∈ s.approvals.find? w.approvalId, r.decision ≠ none
  submitted : ∀ o ∈ s.submitted, match o.via with
    | none => requireExecutionApproval = false
    | some id => ∃ d, d ≠ .reject ∧ s.Has id d

section Steps

variable {codec : ApprovalCodec P} {requireExecutionApproval : Bool} {s : System P}

/-- A request is inserted under a free id, without a decision, or not at all. -/
theorem insert_cases (codec : ApprovalCodec P) (r : Request P) (id : String) (now now' : ℚ)
    (s : System P) : s.insert codec r id now now' = s ∨ ∃ row : Approval, row.decision = none ∧
      s.approvals.find? row.id = none ∧
        s.insert codec r id now now' = { s with approvals := s.approvals.insertOnce row } := by
  unfold System.insert
  cases hrow : r.row codec id now now' with
  | error => exact .inl rfl
  | ok row =>
    obtain ⟨encoded, _, h⟩ := of_bind hrow
    have hnone : row.decision = none := (ok.inj h) ▸ rfl
    cases hfree : s.approvals.find? row.id with
    | none => exact .inr ⟨row, hnone, hfree, rfl⟩
    | some r =>
      refine .inl ?_
      show { s with approvals := s.approvals.insertOnce row } = s
      rw [insertOnce_of_find? hfree]

variable {a : Answer} {id : String}

theorem find?_update {r : Approval} (h : s.approvals.find? id = some r) :
    (s.update a).approvals.find? id = some (if a.IsFor r then r.decide a else r) := by
  show (s.approvals.updateWhere a.IsFor (·.decide a) (Approval.id_decide a)).find? id = _
  rw [find?_updateWhere, h]
  rfl

theorem expiresAt_ite (a : Answer) (r : Approval) :
    (if a.IsFor r then r.decide a else r).expiresAt = r.expiresAt := by
  split_ifs <;> rfl

theorem tenantId_ite (a : Answer) (r : Approval) :
    (if a.IsFor r then r.decide a else r).tenantId = r.tenantId := by
  split_ifs <;> rfl

variable {row : Approval}

/-- **The write of a caller is recorded**: its row is there. -/
theorem recorded_update (h : s.Holds a row) :
    (s.update a).recorded = s.recorded ++ [⟨a.approvalId, a.decision, s.clock⟩] := by
  obtain ⟨hid, htenant, r, hr, hrow⟩ := h
  refine if_pos (any_eq_true.mpr ⟨r, mem_of_find? hr, decide_eq_true ?_⟩)
  exact ⟨hrow.trans htenant, (key_of_find? hr).trans hid⟩

theorem System.Has.mono {s s' : System P} {d : Decision} (h : s.Has id d)
    (hsub : s.recorded ⊆ s'.recorded) : s'.Has id d :=
  h.imp fun _ hw => ⟨hsub hw.1, hw.2⟩

theorem holds_of_select {a' : Answer} {now : ℚ} (h : DecideCall.select a' now s = .selected a row) :
    s.Holds a row := by
  unfold DecideCall.select at h
  split at h
  · cases h
  · next q hcheck =>
    obtain ⟨rfl, rfl⟩ := DecideCall.selected.inj h
    cases hfound : (s.approvals.find? a'.approvalId).filter (·.tenantId = a'.tenantId) with
    | none =>
      rw [hfound] at hcheck
      cases hcheck
    | some r =>
      rw [hfound] at hcheck
      obtain rfl := ok.inj (of_raiseIf (of_raiseIf hcheck).2).2
      obtain ⟨hr, htenant⟩ := Option.filter_eq_some_iff.mp hfound
      have hid := key_of_find? hr
      exact ⟨hid, of_decide_eq_true htenant, r, hid ▸ hr, rfl⟩

/-- What is submitted for a decision is submitted through its approval. -/
theorem via_of_mem_submissions {o : Submitted P} (h : o ∈ a.submissions codec row) :
    o.via = some row.id ∧ a.decision ≠ .reject := by
  unfold Answer.submissions at h
  split_ifs at h with hreject
  · cases h
  · split at h
    · rw [mem_singleton.mp h]
      exact ⟨rfl, hreject⟩
    · cases h

variable (h : Sound requireExecutionApproval s)
include h

theorem Sound.setDecider {k : ℕ} {c : DecideCall}
    (hselected : ∀ a row, c = .selected a row → s.Holds a row)
    (hdecided : ∀ a row, c = .decided a row → row.id = a.approvalId ∧ s.Has row.id a.decision) :
    Sound requireExecutionApproval (s.setDecider k c) where
  selected k' a row hk' := by
    replace hk' : Function.update s.deciders k c k' = .selected a row := hk'
    rw [Function.update_apply] at hk'
    split_ifs at hk'
    · exact hselected a row hk'
    · exact h.selected k' a row hk'
  decided k' a row hk' := by
    replace hk' : Function.update s.deciders k c k' = .decided a row := hk'
    rw [Function.update_apply] at hk'
    split_ifs at hk'
    · exact hdecided a row hk'
    · exact h.decided k' a row hk'
  rows := h.rows
  recorded := h.recorded
  submitted := h.submitted

theorem Sound.insert (codec : ApprovalCodec P) (r : Request P) (id : String) (now now' : ℚ) :
    Sound requireExecutionApproval (s.insert codec r id now now') := by
  rcases insert_cases codec r id now now' s with heq | ⟨row, hnone, hfree, heq⟩
  · rwa [heq]
  · rw [heq]
    refine ⟨fun k a q hq => ?_, h.decided, fun q hq d hd => ?_, fun w hw => ?_, h.submitted⟩
    · obtain ⟨hid, htenant, r, hr, hrow⟩ := h.selected k a q hq
      exact ⟨hid, htenant, r, find?_insertOnce_of_find? hr, hrow⟩
    · rcases (mem_rows_insertOnce hfree).mp hq with hold | rfl
      · exact h.rows q hold d hd
      · rw [hnone] at hd
        cases hd
    · obtain ⟨r, hr, hne⟩ := h.recorded w hw
      exact ⟨r, find?_insertOnce_of_find? hr, hne⟩

theorem Sound.update (hholds : s.Holds a row) :
    Sound requireExecutionApproval (s.update a) := by
  have hrecorded := recorded_update hholds
  have hsub : s.recorded ⊆ (s.update a).recorded := by
    rw [hrecorded]
    exact subset_append_left _ _
  refine ⟨fun k b q hq => ?_, fun k b q hq => ?_, fun q hq d hd => ?_, fun w hw => ?_,
    fun o ho => ?_⟩
  · obtain ⟨hid, htenant, r, hr, hrow⟩ := h.selected k b q hq
    exact ⟨hid, htenant, _, find?_update hr, (tenantId_ite a r).trans hrow⟩
  · exact (h.decided k b q hq).imp_right fun hhas => hhas.mono hsub
  · obtain ⟨r, hr, rfl⟩ := mem_map.mp hq
    by_cases hfor : a.IsFor r
    · rw [if_pos hfor] at hd ⊢
      refine ⟨⟨a.approvalId, a.decision, s.clock⟩, ?_, hfor.2.symm, Option.some.inj hd⟩
      rw [hrecorded]
      exact mem_append_right _ (mem_singleton_self _)
    · rw [if_neg hfor] at hd ⊢
      exact (h.rows r hr d hd).mono hsub
  · have hdecided : ∀ {id : String} {r : Approval}, s.approvals.find? id = some r →
        r.decision ≠ none ∨ a.IsFor r →
          ∃ r' ∈ (s.update a).approvals.find? id, r'.decision ≠ none := by
      intro id r hr hne
      refine ⟨_, find?_update hr, ?_⟩
      split_ifs with hfor
      · exact Option.some_ne_none _
      · exact hne.resolve_right hfor
    rw [hrecorded] at hw
    rcases mem_append.mp hw with hold | hnew
    · obtain ⟨r, hr, hne⟩ := h.recorded w hold
      exact hdecided hr (.inl hne)
    · obtain rfl := mem_singleton.mp hnew
      obtain ⟨hid, htenant, r, hr, hrow⟩ := hholds
      exact hdecided (hid ▸ hr) (.inr ⟨hrow.trans htenant, (key_of_find? hr).trans hid⟩)
  · have hold := h.submitted o ho
    split
    · next hvia => simpa only [hvia] using hold
    · next id hvia =>
      rw [hvia] at hold
      exact hold.imp fun d hd => ⟨hd.1, hd.2.mono hsub⟩

theorem Sound.step (l : Label P) :
    Sound requireExecutionApproval (step codec requireExecutionApproval s l) := by
  cases l with
  | tick now => exact ⟨h.selected, h.decided, h.rows, h.recorded, h.submitted⟩
  | request r id now now' => exact h.insert codec r id now now'
  | start k answer =>
    show Sound _ (Approvals.start k answer s)
    unfold Approvals.start
    split
    · exact h.setDecider (fun _ _ hc => (by cases hc)) (fun _ _ hc => (by cases hc))
    · exact h.setDecider (fun _ _ hc => (by cases hc)) (fun _ _ hc => (by cases hc))
    · exact h
  | select k =>
    show Sound _ (Approvals.select k s)
    unfold Approvals.select
    split
    · next answer now _ =>
      refine h.setDecider (fun a row hc => ?_) (fun a row hc => ?_)
      · exact holds_of_select hc
      · unfold DecideCall.select at hc
        split at hc <;> cases hc
    · exact h
  | update k =>
    show Sound _ (Approvals.update k s)
    unfold Approvals.update
    split
    · next answer row hk =>
      have hholds := h.selected k answer row hk
      refine (h.update hholds).setDecider (fun _ _ hc => (by cases hc)) fun a q hc => ?_
      cases hc
      refine ⟨hholds.1, ⟨row.id, answer.decision, s.clock⟩, ?_, rfl, rfl⟩
      rw [recorded_update hholds, hholds.1]
      exact mem_append_right _ (mem_singleton_self _)
    · exact h
  | submit k =>
    show Sound _ (Approvals.submit codec k s)
    unfold Approvals.submit
    split
    · next answer row hk =>
      have hsubmitted : Sound requireExecutionApproval
          { s with submitted := s.submitted ++ answer.submissions codec row } := by
        refine ⟨h.selected, h.decided, h.rows, h.recorded, fun o ho => ?_⟩
        rcases mem_append.mp ho with hold | hnew
        · exact h.submitted o hold
        · obtain ⟨hvia, hne⟩ := via_of_mem_submissions hnew
          rw [hvia]
          exact ⟨answer.decision, hne, (h.decided k answer row hk).2⟩
      exact hsubmitted.setDecider (fun _ _ hc => (by cases hc)) fun _ _ hc => (by cases hc)
    · exact h
  | execute w tenant runId key intent now =>
    show Sound _ (Approvals.execute codec requireExecutionApproval w tenant runId key intent now s)
    unfold Approvals.execute
    split_ifs with hrequire
    · split
      · exact ⟨h.selected, h.decided, h.rows, h.recorded, h.submitted⟩
      · exact ⟨h.selected, h.decided, h.rows, h.recorded, h.submitted⟩
    · refine ⟨h.selected, h.decided, h.rows, h.recorded, fun o ho => ?_⟩
      rcases mem_append.mp ho with hold | hnew
      · exact h.submitted o hold
      · obtain rfl := mem_singleton.mp hnew
        exact Bool.eq_false_of_not_eq_true hrequire
  | ask w id now now' =>
    show Sound _ (Approvals.ask codec w id now now' s)
    unfold Approvals.ask
    split
    · next r _ =>
      have hinsert := h.insert codec r id now now'
      exact ⟨hinsert.selected, hinsert.decided, hinsert.rows, hinsert.recorded, hinsert.submitted⟩
    · exact h
  | crash =>
    exact ⟨fun _ _ _ hc => (by cases hc), fun _ _ _ hc => (by cases hc), h.rows, h.recorded,
      h.submitted⟩

end Steps

/-! ## Final approvals -/

section Final

variable {codec : ApprovalCodec P} {requireExecutionApproval : Bool} {s : System P}

/-- **What an undisturbed write keeps**: one decision for an approval, on its row, before it
expired. -/
structure Core (s : System P) : Prop where
  once : (s.recorded.map Recorded.approvalId).Nodup
  kept : ∀ w ∈ s.recorded, ∃ r ∈ s.approvals.find? w.approvalId,
    r.decision = some w.decision ∧ w.time < r.expiresAt

/-- Together with what holds in every run, that is all. -/
theorem Core.final (h : Core s) (hs : Sound requireExecutionApproval s) :
    Final requireExecutionApproval s where
  once := h.once
  kept w hw := (h.kept w hw).imp fun _ hr => ⟨hr.1, hr.2.1⟩
  open_ w hw r hr := by
    obtain ⟨r', hr', _, htime⟩ := h.kept w hw
    obtain rfl := Option.mem_unique hr hr'
    exact htime
  approved hrequire o ho := by
    have hsubmitted := hs.submitted o ho
    split at hsubmitted
    · exact absurd (hsubmitted.symm.trans hrequire) (by decide)
    · next id hvia =>
      obtain ⟨d, hd, w, hw, rfl, rfl⟩ := hsubmitted
      exact ⟨w, hw, hvia, hd⟩
  rejected w hw hreject o ho hvia := by
    have hsubmitted := hs.submitted o ho
    rw [hvia] at hsubmitted
    obtain ⟨d, hd, w', hw', hid, rfl⟩ := hsubmitted
    obtain rfl := inj_on_of_nodup_map h.once hw' hw hid
    exact hd hreject

theorem Core.insert (h : Core s) (codec : ApprovalCodec P) (r : Request P) (id : String)
    (now now' : ℚ) : Core (s.insert codec r id now now') := by
  rcases insert_cases codec r id now now' s with heq | ⟨row, _, _, heq⟩
  · rwa [heq]
  · rw [heq]
    refine ⟨h.once, fun w hw => ?_⟩
    obtain ⟨q, hq, hkept⟩ := h.kept w hw
    exact ⟨q, find?_insertOnce_of_find? hq, hkept⟩

/-- **An undisturbed write.** -/
theorem Core.update (h : Core s) (hs : Sound requireExecutionApproval s) {a : Answer}
    {row : Approval} (hholds : s.Holds a row)
    (hfree : ∀ r ∈ s.approvals.find? a.approvalId, r.decision = none ∧ s.clock < r.expiresAt) :
    Core (s.update a) := by
  have hrecorded := recorded_update hholds
  have hnew : ∀ w ∈ s.recorded, w.approvalId ≠ a.approvalId := by
    intro w hw hid
    obtain ⟨r, hr, hne⟩ := hs.recorded w hw
    exact hne (hfree r (hid ▸ hr)).1
  constructor
  · rw [hrecorded, map_append]
    refine nodup_append.mpr ⟨h.once, nodup_singleton _, fun id hid id' hid' => ?_⟩
    obtain ⟨w, hw, rfl⟩ := mem_map.mp hid
    rw [mem_singleton.mp hid']
    exact hnew w hw
  · intro w hw
    rw [hrecorded] at hw
    rcases mem_append.mp hw with hold | hlast
    · obtain ⟨r, hr, hkept⟩ := h.kept w hold
      have hother : ¬ a.IsFor r := fun hfor =>
        hnew w hold ((key_of_find? hr).symm.trans hfor.2)
      refine ⟨r, ?_, hkept⟩
      rw [find?_update hr, if_neg hother]
      rfl
    · obtain rfl := mem_singleton.mp hlast
      obtain ⟨hid, htenant, r, hr, hrow⟩ := hholds
      have hfor : a.IsFor r := ⟨hrow.trans htenant, (key_of_find? hr).trans hid⟩
      refine ⟨r.decide a, ?_, rfl, (hfree r (hid ▸ hr)).2⟩
      rw [find?_update (hid ▸ hr), if_pos hfor]
      rfl

variable {l : Label P}

/-- **A step keeps what is final**, if a write finds its row as it was read. -/
theorem Core.step (h : Core s) (hs : Sound requireExecutionApproval s) (hl : Undisturbed s l) :
    Core (step codec requireExecutionApproval s l) := by
  have hsame : ∀ s' : System P, s'.recorded = s.recorded → s'.approvals = s.approvals →
      Core s' := by
    intro s' hrecorded happrovals
    exact ⟨hrecorded ▸ h.once, by rw [hrecorded, happrovals]; exact h.kept⟩
  cases l with
  | tick now => exact hsame _ rfl rfl
  | request r id now now' => exact h.insert codec r id now now'
  | start k answer =>
    show Core (Approvals.start k answer s)
    unfold Approvals.start
    split <;> exact hsame _ rfl rfl
  | select k =>
    show Core (Approvals.select k s)
    unfold Approvals.select
    split <;> exact hsame _ rfl rfl
  | update k =>
    show Core (Approvals.update k s)
    unfold Approvals.update
    split
    · next answer row hk =>
      have hupdate := h.update hs (hs.selected k answer row hk) (hl answer row hk)
      exact ⟨hupdate.once, hupdate.kept⟩
    · exact h
  | submit k =>
    show Core (Approvals.submit codec k s)
    unfold Approvals.submit
    split <;> exact hsame _ rfl rfl
  | execute w tenant runId key intent now =>
    show Core (Approvals.execute codec requireExecutionApproval w tenant runId key intent now s)
    unfold Approvals.execute
    split_ifs
    · split <;> exact hsame _ rfl rfl
    · exact hsame _ rfl rfl
  | ask w id now now' =>
    show Core (Approvals.ask codec w id now now' s)
    unfold Approvals.ask
    split
    · next r _ =>
      have hinsert := h.insert codec r id now now'
      exact ⟨hinsert.once, hinsert.kept⟩
    · exact h
  | crash => exact hsame _ rfl rfl

theorem sound_after (codec : ApprovalCodec P) (requireExecutionApproval : Bool)
    (ls : List (Label P)) :
    Sound requireExecutionApproval (after codec requireExecutionApproval ls) :=
  inv_run _ (fun _ l h => h.step l)
    ⟨fun _ _ _ h => (by cases h), fun _ _ _ h => (by cases h), fun _ h => (by cases h),
      fun _ h => (by cases h), fun _ h => (by cases h)⟩ ls

/-- A run whose writes are undisturbed is final at its end. -/
theorem final_after {ls : List (Label P)}
    (h : Machine.Meets (step codec requireExecutionApproval) Undisturbed .init ls) :
    Final requireExecutionApproval (after codec requireExecutionApproval ls) := by
  have hinv := inv_run_of_meets (C := Undisturbed)
    (fun s => Sound requireExecutionApproval s ∧ Core s)
    (fun s l hs hl => ⟨hs.1.step l, hs.2.step hs.1 hl⟩)
    ⟨sound_after codec requireExecutionApproval [], nodup_nil, fun _ hw => (by cases hw)⟩ h
  exact hinv.2.final hinv.1

/-- **A write that is disturbed is not final**: the approval has a decision, or has expired. -/
theorem undisturbed_of_final (hs : Sound requireExecutionApproval s)
    (h : Final requireExecutionApproval (step codec requireExecutionApproval s l)) :
    Undisturbed s l := by
  cases l with
  | update k =>
    intro answer row hk r hr
    have hholds := hs.selected k answer row hk
    have hstep : step codec requireExecutionApproval s (.update k)
        = (s.update answer).setDecider k (.decided answer row) := by
      show Approvals.update k s = _
      unfold Approvals.update
      rw [hk]
    rw [hstep] at h
    have hrecorded := recorded_update hholds
    have hnew : (⟨answer.approvalId, answer.decision, s.clock⟩ : Recorded)
        ∈ (s.update answer).recorded := by
      rw [hrecorded]
      exact mem_append_right _ (mem_singleton_self _)
    constructor
    · by_contra hdecided
      obtain ⟨d, hd⟩ := Option.ne_none_iff_exists'.mp hdecided
      obtain ⟨w, hw, hid, _⟩ := hs.rows r (mem_of_find? hr) d hd
      have honce : ((s.update answer).recorded.map Recorded.approvalId).Nodup := h.once
      rw [hrecorded, map_append] at honce
      exact (nodup_append.mp honce).2.2 _ (mem_map_of_mem hw) _
        (mem_singleton_self _) (hid.trans (key_of_find? hr))
    · have htime := h.open_ _ hnew _ (find?_update hr)
      rwa [expiresAt_ite] at htime
  | tick | request | start | select | submit | execute | ask | crash => trivial

end Final

/-- **Approvals are final in every state of a run** exactly when every write of the run finds
its approval without a decision and not expired. -/
theorem approvals_final (codec : ApprovalCodec P) (requireExecutionApproval : Bool)
    (ls : List (Label P)) : (∀ ls', ls' <+: ls →
        Final requireExecutionApproval (after codec requireExecutionApproval ls')) ↔
      Machine.Meets (step codec requireExecutionApproval) Undisturbed .init ls := by
  constructor
  · induction ls using List.reverseRecOn with
    | nil => exact fun _ => trivial
    | append_singleton ls l ih =>
      intro h
      refine meets_append.mpr
        ⟨ih fun ls' hls' => h ls' (hls'.trans (prefix_append ls [l])), ?_, trivial⟩
      have hlast := h (ls ++ [l]) (prefix_refl _)
      unfold after at hlast
      rw [run_concat] at hlast
      exact undisturbed_of_final (sound_after codec requireExecutionApproval ls) hlast
  · rintro h ls' ⟨rest, rfl⟩
    exact final_after (meets_append.mp h).1

/-- A codec of intents that are their keys. -/
def keyCodec : ApprovalCodec String where
  dumps key := .ok key
  loads key := key
  sha256 text := text
  idempotencyKey key := some key
  effectId key := key

/-- **Two answers at once**: both have read the row, the rejection is written, then the
approval. -/
def rejectThenSubmit : List (Label String) :=
  [.request ⟨"t", "r", "k", .funds, 3600, "execute", none⟩ "a" 0 0,
    .start 0 ⟨"t", "a", .reject, "owner"⟩, .start 1 ⟨"t", "a", .once, "owner"⟩,
    .select 0, .select 1, .update 0, .update 1, .submit 0, .submit 1]

/-- **An intent is submitted through an approval that was rejected.** -/
theorem reject_then_submit :
    ((after keyCodec true rejectThenSubmit).recorded.map fun w => (w.approvalId, w.decision))
        = [("a", .reject), ("a", .once)] ∧
      (after keyCodec true rejectThenSubmit).submitted.map Submitted.via = [some "a"] ∧
      ¬ Final true (after keyCodec true rejectThenSubmit) := by
  have hrecorded : ((after keyCodec true rejectThenSubmit).recorded.map
      fun w => (w.approvalId, w.decision)) = [("a", .reject), ("a", .once)] := by
    decide +kernel
  refine ⟨hrecorded, by decide +kernel, fun h => ?_⟩
  have honce : (((after keyCodec true rejectThenSubmit).recorded.map
      fun w => (w.approvalId, w.decision)).map Prod.fst).Nodup := by
    rw [map_map]
    exact h.once
  rw [hrecorded] at honce
  exact absurd honce (by decide)

end Qt.Approvals
