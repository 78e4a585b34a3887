import Mathlib.Data.List.DropRight
import QuantTrading.MonitorStore

/-!
# Claims of the outbox

What a claim of a notification rests on. A positive one needs a snapshot that the running
process has persisted and that is fresh at the claim, and a decision of its event that is
the latest that is stored and not expired. Where that is a candidate, no assessment of the
event since the revision of the notification was anything else: the barrier is the last
revision that was, as long as no assessment of another id has come in between
(`Remembers`). Where it is a confirmation, it is the one of the notification.

A key is claimed with ever greater numbers of attempts, and not at all after a send of it
was interrupted (`Sent`). A row is pending after a claim only if the sender of that claim
has written so, which it does when it was refused.

The retention sets the bounds of this: a decision that it has dropped is not the latest any
more (`stored_or_retired`), and a key whose row it has deleted begins anew.
-/

namespace Qt.BtcMonitor.Storage

open Except List Table Option Machine

/-! ## What is asked -/

variable (persisted : List Persisted)

/-- The revisions of an assessment do not decrease. -/
def Increasing : Prop :=
  persisted.Pairwise fun p q => ∀ a ∈ p.snapshot.assessment, ∀ b ∈ q.snapshot.assessment,
    a.assessmentId = b.assessmentId → a.revision ≤ b.revision

instance (persisted : List Persisted) : Decidable (Increasing persisted) := by
  unfold Increasing
  infer_instance

/-- The persists since an id was taken up last. -/
def streak (id : String) (persisted : List Persisted) : List Persisted :=
  persisted.rtakeWhile fun p => p.snapshot.assessmentId = some id

/-- **Every assessment** of an id from a revision on is a candidate, since the id was taken
up, and it is the id of the last one. -/
structure Uninterrupted (persisted : List Persisted) (id : String) (revision : ℤ) : Prop where
  last : ∃ p, persisted.getLast? = some p ∧ p.snapshot.assessmentId = some id
  candidates : ∀ p ∈ streak id persisted, ∀ a ∈ p.snapshot.assessment,
    revision ≤ a.revision → a.state = some "CANDIDATE"

variable (cfg : StoreConfig)

/-- **The retention drops a decision** in a step: it is too old, or the table is full of
decisions that are not older. -/
def Retires (h : Service) (op : Op) (row : DecisionRow) : Prop :=
  ∃ snapshot notifications disk now mono, op = .persist snapshot notifications disk now mono ∧
    (row.createdAt < now - cfg.retentionSeconds ∨
      cfg.maxDecisions ≤ (step cfg h op).store.decisions.rows.length ∧
        ∀ kept ∈ (step cfg h op).store.decisions.rows, row.createdAt ≤ kept.createdAt)

/-- **The latest revision** of an event: it is stored, no later one is, and each later one that
was stored has been dropped. -/
structure LatestIn (cfg : StoreConfig) (ops : List Op) (row : DecisionRow) : Prop where
  stored : row ∈ (after cfg ops).store.decisions.rows
  latest : ∀ row' ∈ (after cfg ops).store.decisions.rows, row'.eventId = row.eventId →
    row'.revision ≤ row.revision
  retired : ∀ before later, ops = before ++ later →
    ∀ row' ∈ (after cfg before).store.decisions.rows, row'.eventId = row.eventId →
      row.revision < row'.revision →
      ∃ pre op post, later = pre ++ op :: post ∧ Retires cfg (after cfg (before ++ pre)) op row'

/-- **What the claim of a positive notification rests on.** -/
structure Supported (cfg : StoreConfig) (ops : List Op) (item : OutboxRow) (now mono : ℚ) :
    Prop where
  fresh : ∃ p, (after cfg ops).persisted.getLast? = some p ∧ p.snapshot.Fresh cfg now mono p.mono
  decision : ∃ row, LatestIn cfg ops row ∧ row.eventId = item.eventId ∧ now < row.expiresAt ∧
    (row.status = "CANDIDATE" ∧ item.revision ≤ row.revision ∧
        Uninterrupted (after cfg ops).persisted item.eventId item.revision ∨
      row.status = "CONFIRMED" ∧ row.revision = item.revision)

/-- A send and a later one: the attempts of a key increase, and a key that was interrupted
is not claimed. -/
def SendEvent.Before : SendEvent → SendEvent → Prop
  | claimed _ n, claimed _ m => n < m
  | interrupted _, claimed _ _ => False
  | _, interrupted _ => True

/-- Sends of one key that was not pruned are in order. -/
def InOrder (pruned : List Key) (e e' : SendEvent) : Prop :=
  e.key = e'.key → e.key ∉ pruned → e.Before e'

/-! ## Decisions that are stored -/

variable {cfg} {now : ℚ}

/-- What a record of a decision leaves: every row that was there, and rows of events that
have a name. -/
theorem recordDecision_spec {t t' : Table DecisionRow.key} {d : Decision}
    (h : recordDecision cfg now t d = .ok t') : (∀ row ∈ t.rows, row ∈ t'.rows) ∧
      ((∀ row ∈ t.rows, row.eventId ≠ "") → ∀ row ∈ t'.rows, row.eventId ≠ "") := by
  unfold recordDecision at h
  split at h
  · obtain rfl := ok.inj h
    exact ⟨fun _ hrow => hrow, fun hnamed => hnamed⟩
  · rename_i eventId hid
    obtain ⟨-, h⟩ := of_raiseIf h
    obtain rfl := ok.inj h
    refine ⟨fun row hrow => mem_of_find?
      (find?_insertOnce_of_find? (find?_of_mem hrow)), fun hnamed row hrow => ?_⟩
    have hne : eventId ≠ "" := by
      intro hempty
      simp [Decision.id?, truthy, hempty] at hid
    cases hfree : t.find? (d.row cfg eventId now).key with
    | none =>
      exact ((mem_rows_insertOnce hfree).mp hrow).elim (hnamed row) fun he => he ▸ hne
    | some old =>
      rw [insertOnce_of_find? hfree] at hrow
      exact hnamed row hrow

theorem recordDecisions_spec {t t' : Table DecisionRow.key} {decisions : List Decision}
    (h : decisions.foldlM (recordDecision cfg now) t = .ok t') : (∀ row ∈ t.rows, row ∈ t'.rows) ∧
      ((∀ row ∈ t.rows, row.eventId ≠ "") → ∀ row ∈ t'.rows, row.eventId ≠ "") := by
  refine foldlM_inv (P := fun u : Table DecisionRow.key => (∀ row ∈ t.rows, row ∈ u.rows) ∧
      ((∀ row ∈ t.rows, row.eventId ≠ "") → ∀ row ∈ u.rows, row.eventId ≠ ""))
    (fun u d _ u' hu hd => ?_) ⟨fun _ hrow => hrow, fun hnamed => hnamed⟩ h
  obtain ⟨hkeeps, hnames⟩ := recordDecision_spec hd
  exact ⟨fun row hrow => hkeeps row (hu.1 row hrow), fun hnamed => hnames (hu.2 hnamed)⟩

variable {row : DecisionRow}

theorem mem_retainDecisions {t : Table DecisionRow.key} : row ∈ (retainDecisions cfg now t).rows ↔
      row ∈ (dropDecisions cfg now t).rows ∧ row ∈ newest cfg (dropDecisions cfg now t) := by
  simp [retainDecisions]

theorem mem_of_mem_newest {t : Table DecisionRow.key} (h : row ∈ newest cfg t) : row ∈ t.rows := by
  simpa using mem_of_mem_take h

/-- **The retention of decisions**: a row that it drops is too old, or the table is full of
rows that are not older. -/
theorem retainDecisions_spec (cfg : StoreConfig) (now : ℚ) {t : Table DecisionRow.key}
    (hrow : row ∈ t.rows) (hdropped : row ∉ (retainDecisions cfg now t).rows) :
    row.createdAt < now - cfg.retentionSeconds ∨
      cfg.maxDecisions ≤ (retainDecisions cfg now t).rows.length ∧
        ∀ kept ∈ (retainDecisions cfg now t).rows, row.createdAt ≤ kept.createdAt := by
  refine or_iff_not_imp_left.mpr fun hold => ?_
  have hmem : row ∈ (dropDecisions cfg now t).rows := by
    simpa [dropDecisions, hrow] using not_lt.mp hold
  have hnot : row ∉ newest cfg (dropDecisions cfg now t) := fun hnew =>
    hdropped (mem_retainDecisions.mpr ⟨hmem, hnew⟩)
  generalize hd : dropDecisions cfg now t = d at hmem hnot
  have hperm : (d.rows.reverse.orderBy fun row => -row.createdAt).Perm d.rows :=
    (orderBy_perm _ _).trans d.rows.reverse_perm
  have hsplit := take_append_drop cfg.maxDecisions
    (d.rows.reverse.orderBy fun row => -row.createdAt)
  -- the row comes after the newest ones
  have hrest : row ∈ (d.rows.reverse.orderBy fun row => -row.createdAt).drop cfg.maxDecisions := by
    have hordered := hperm.mem_iff.mpr hmem
    rw [← hsplit] at hordered
    exact (mem_append.mp hordered).resolve_left hnot
  constructor
  · have hlength : (newest cfg d).length = cfg.maxDecisions := by
      have hpos := length_pos_of_mem hrest
      rw [length_drop] at hpos
      exact length_take_of_le (by omega)
    have hnodup : (newest cfg d).Nodup :=
      (hperm.nodup_iff.mpr d.nodup.of_map).sublist (take_sublist _ _)
    rw [← hlength]
    refine (subperm_of_subset hnodup fun r hr => ?_).length_le
    exact mem_retainDecisions.mpr (hd ▸ ⟨mem_of_mem_newest hr, hr⟩)
  · intro kept hkept
    have hkept := hd ▸ (mem_retainDecisions.mp hkept).2
    have hordered := pairwise_orderBy (fun row : DecisionRow => -row.createdAt) d.rows.reverse
    rw [← hsplit] at hordered
    exact neg_le_neg_iff.mp ((pairwise_append.mp hordered).2.2 kept hkept row hrest)

/-! ## A persist that is committed -/

/-- **What a transaction leaves.** -/
structure Committed (cfg : StoreConfig) (snapshot : Snapshot) (notifications : List Notification)
    (now : ℚ) (s s' : SnapshotStore) : Prop where
  decisions : ∃ recorded, snapshot.decisions.foldlM (recordDecision cfg now) s.decisions =
    .ok recorded ∧ s'.decisions = retainDecisions cfg now recorded
  outbox : ∃ queued, notifications.foldlM (queueNotification now) s.outbox = .ok queued ∧
    retainOutbox cfg now queued = .ok s'.outbox
  savedAssessmentId : s'.savedAssessmentId = snapshot.assessmentId
  savedBarrier : s'.savedBarrier = some (snapshot.assessmentId, s.barrierRevision snapshot)
  latestAssessmentId : s'.latestAssessmentId = snapshot.assessmentId
  assessmentBarrierRevision : s'.assessmentBarrierRevision = s.barrierRevision snapshot

variable {notifications : List Notification} {snapshot : Snapshot}

theorem commit_spec {s s' : SnapshotStore} (h : s.commit cfg snapshot notifications now = .ok s') :
    Committed cfg snapshot notifications now s s' := by
  obtain ⟨-, h⟩ := of_raiseIf h
  obtain ⟨recorded, hrecorded, h⟩ := of_bind h
  obtain ⟨queued, hqueued, h⟩ := of_bind h
  obtain ⟨kept, hkept, h⟩ := of_bind h
  obtain rfl := ok.inj h
  exact ⟨⟨recorded, hrecorded, rfl⟩, ⟨queued, hqueued, hkept⟩, rfl, rfl, rfl, rfl⟩

/-- **The ways of a persist**: it raises and has written nothing, or it is committed, and
exported or not. -/
inductive Persists (cfg : StoreConfig) (snapshot : Snapshot) (notifications : List Notification)
    (now mono : ℚ) (h : Service) : Service → Prop
  | raised : Persists cfg snapshot notifications now mono h { h with store := h.store.fail }
  | committed (s : SnapshotStore) (exported : Bool)
      (spec : Committed cfg snapshot notifications now h.store s) :
      Persists cfg snapshot notifications now mono h
        { h with
          store := if exported then s.project snapshot mono else s.fail
          persisted := h.persisted ++ [⟨snapshot, now, mono⟩]
          pruned := h.pruned ++ Service.gone h.store.outbox s.outbox }

theorem persists (cfg : StoreConfig) (snapshot : Snapshot) (notifications : List Notification)
    (disk : Disk) (now mono : ℚ) (h : Service) : Persists cfg snapshot notifications now mono h
      (h.persist cfg snapshot notifications disk now mono) := by
  unfold Service.persist
  split
  · exact .raised
  split
  · exact .raised
  · rename_i s hs
    have hcommitted : Persists cfg snapshot notifications now mono h _ :=
      .committed s (decide (disk ≠ .exportFails)) (commit_spec hs)
    by_cases hdisk : disk = .exportFails
    · simpa [hdisk] using hcommitted
    · simpa [hdisk] using hcommitted

/-! ## What is remembered -/

theorem streak_concat (id : String) (persisted : List Persisted) (p : Persisted) :
    streak id (persisted ++ [p]) =
      if p.snapshot.assessmentId = some id then streak id persisted ++ [p] else [] := by
  unfold streak
  rw [rtakeWhile_concat]
  simp only [decide_eq_true_eq]

/-- The id that a persist had last. -/
def lastAssessmentId : Option String :=
  persisted.getLast?.bind fun p => p.snapshot.assessmentId

variable {persisted} {p : Persisted}

theorem lastAssessmentId_of_mem_streak {id : String} (h : p ∈ streak id persisted) :
    lastAssessmentId persisted = some id := by
  cases persisted using List.reverseRecOn with
  | nil => simp [streak] at h
  | append_singleton persisted last =>
    rw [streak_concat] at h
    split_ifs at h with hlast
    · simpa [lastAssessmentId] using hlast
    · simp at h

theorem mem_of_mem_streak {id : String} (h : p ∈ streak id persisted) : p ∈ persisted :=
  (rtakeWhile_suffix _ _).subset h

theorem assessmentId_of_mem_streak {id : String} (h : p ∈ streak id persisted) :
    p.snapshot.assessmentId = some id := by
  simpa using mem_rtakeWhile_imp h

/-- **What the store remembers of the persists.** The barrier is not below an assessment of the
streak that was no candidate. -/
structure Remembers (h : Service) : Prop where
  named : ∀ row ∈ h.store.decisions.rows, row.eventId ≠ ""
  savedAssessmentId : h.store.savedAssessmentId = h.store.latestAssessmentId
  savedBarrier : h.store.savedBarrier =
      some (h.store.latestAssessmentId, h.store.assessmentBarrierRevision) ∨
    h.store.savedBarrier = none ∧ h.store.assessmentBarrierRevision = 0
  last : h.store.latestAssessmentId = lastAssessmentId h.persisted
  projection : h.store.failed = false → ∀ p ∈ h.store.latestProjection,
    ∃ q, h.persisted.getLast? = some q ∧ q.snapshot = p ∧ q.mono = h.store.latestPersistMono
  barrier : ∀ id, id ≠ "" → Increasing h.persisted → ∀ p ∈ streak id h.persisted,
    ∀ a ∈ p.snapshot.assessment, a.state ≠ some "CANDIDATE" →
      a.revision ≤ h.store.assessmentBarrierRevision

theorem remembers_start : Remembers Service.start where
  named := fun _ hrow => nomatch hrow
  savedAssessmentId := rfl
  savedBarrier := .inr ⟨rfl, rfl⟩
  last := rfl
  projection := fun _ _ hp => nomatch hp
  barrier := fun _ _ _ _ hp => absurd (mem_of_mem_streak hp) (by simp [Service.start])

theorem barrierRevision_eq {a : Decision} (ha : snapshot.assessment = some a) {id : String}
    (hid : snapshot.assessmentId = some id) (hne : id ≠ "") (s : SnapshotStore) :
    s.barrierRevision snapshot =
      if a.state ≠ some "CANDIDATE" then a.revision
      else if some id = s.latestAssessmentId then s.assessmentBarrierRevision else 0 := by
  have hassessmentId : a.assessmentId = some id := by
    simpa [Snapshot.assessmentId, ha] using hid
  have htruthy : (truthy a.assessmentId).isSome = true := by
    simp [truthy, hassessmentId, hne]
  unfold SnapshotStore.barrierRevision
  by_cases hstate : a.state = some "CANDIDATE"
  · simp [ha, hid, hstate, Option.filter]
  · simp [ha, htruthy, hstate, Option.filter]

variable {h : Service}

theorem barrier_committed (hs : Remembers h) {mono : ℚ} {id : String} (hne : id ≠ "")
    (hincreasing : Increasing (h.persisted ++ [⟨snapshot, now, mono⟩]))
    (hp : p ∈ streak id (h.persisted ++ [⟨snapshot, now, mono⟩])) {a : Decision}
    (ha : a ∈ p.snapshot.assessment) (hstate : a.state ≠ some "CANDIDATE") :
    a.revision ≤ h.store.barrierRevision snapshot := by
  obtain ⟨hbefore, -, hafter⟩ := pairwise_append.mp hincreasing
  rw [streak_concat] at hp
  split_ifs at hp with hid
  swap
  · simp at hp
  obtain ⟨b, hb⟩ : ∃ b, snapshot.assessment = some b :=
    ne_none_iff_exists'.mp fun hnone => by simp [Snapshot.assessmentId, hnone] at hid
  rw [barrierRevision_eq hb hid hne]
  have hidb : b.assessmentId = some id := by simpa [Snapshot.assessmentId, hb] using hid
  refine (mem_append.mp hp).elim (fun hp => ?_) fun hp => ?_
  · -- an assessment before this one
    have hlast : some id = h.store.latestAssessmentId :=
      (hs.last.trans (lastAssessmentId_of_mem_streak hp)).symm
    have hida : a.assessmentId = some id := by
      have hid := assessmentId_of_mem_streak hp
      simpa [Snapshot.assessmentId, mem_def.mp ha] using hid
    split_ifs
    · exact hafter p (mem_of_mem_streak hp) _ (mem_singleton.mpr rfl) a ha b hb
        (hida.trans hidb.symm)
    · exact hs.barrier id hne hbefore p hp a ha hstate
  · obtain rfl := mem_singleton.mp hp
    obtain rfl : b = a := some.inj (hb.symm.trans ha)
    rw [if_pos hstate]

variable {h' : Service}

theorem remembers_persist {mono : ℚ} (hs : Remembers h)
    (hp : Persists cfg snapshot notifications now mono h h') : Remembers h' := by
  cases hp with
  | raised =>
    exact ⟨hs.named, hs.savedAssessmentId, hs.savedBarrier, hs.last,
      (fun hfailed => nomatch hfailed), hs.barrier⟩
  | committed s exported spec =>
    obtain ⟨recorded, hrecorded, hdecisions⟩ := spec.decisions
    have hnamed : ∀ row ∈ s.decisions.rows, row.eventId ≠ "" := by
      intro row hrow
      rw [hdecisions] at hrow
      have hrow := (mem_retainDecisions.mp hrow).1
      exact (recordDecisions_spec hrecorded).2 hs.named row (mem_rows_deleteWhere.mp hrow).1
    have hlast : s.latestAssessmentId =
        lastAssessmentId (h.persisted ++ [⟨snapshot, now, mono⟩]) := by
      simpa [lastAssessmentId] using spec.latestAssessmentId
    have hsaved : s.savedAssessmentId = s.latestAssessmentId :=
      spec.savedAssessmentId.trans spec.latestAssessmentId.symm
    have hsavedBarrier : s.savedBarrier =
        some (s.latestAssessmentId, s.assessmentBarrierRevision) := by
      rw [spec.savedBarrier, spec.latestAssessmentId, spec.assessmentBarrierRevision]
    have hbarrier : ∀ id, id ≠ "" → Increasing (h.persisted ++ [⟨snapshot, now, mono⟩]) →
        ∀ p ∈ streak id (h.persisted ++ [⟨snapshot, now, mono⟩]), ∀ a ∈ p.snapshot.assessment,
          a.state ≠ some "CANDIDATE" → a.revision ≤ s.assessmentBarrierRevision := by
      intro id hne hincreasing p hp a ha hstate
      rw [spec.assessmentBarrierRevision]
      exact barrier_committed hs hne hincreasing hp ha hstate
    cases exported with
    | true =>
      refine ⟨hnamed, hsaved, .inl hsavedBarrier, hlast, fun _ p hp => ?_, hbarrier⟩
      exact ⟨⟨snapshot, now, mono⟩, getLast?_concat, some.inj hp, rfl⟩
    | false =>
      exact ⟨hnamed, hsaved, .inl hsavedBarrier, hlast, (fun hfailed => nomatch hfailed), hbarrier⟩

theorem remembers_restart (hs : Remembers h) : Remembers h.restart where
  named := hs.named
  savedAssessmentId := rfl
  savedBarrier := by
    show h.store.savedBarrier = some (h.store.savedAssessmentId, _) ∨ _
    rcases hs.savedBarrier with hsaved | ⟨hsaved, -⟩
    · left
      simp [Service.restart, SnapshotStore.restart, hsaved, hs.savedAssessmentId]
    · exact .inr ⟨hsaved, by simp [Service.restart, SnapshotStore.restart, hsaved]⟩
  last := hs.savedAssessmentId.trans hs.last
  projection := fun _ _ hp => nomatch hp
  barrier := by
    have hbarrier : h.restart.store.assessmentBarrierRevision =
        h.store.assessmentBarrierRevision := by
      rcases hs.savedBarrier with hsaved | ⟨hsaved, hzero⟩
      · simp [Service.restart, SnapshotStore.restart, hsaved, hs.savedAssessmentId]
      · simp [Service.restart, SnapshotStore.restart, hsaved, hzero]
    rw [hbarrier]
    exact hs.barrier

/-- A step of a sender is not about decisions. -/
structure Sends (h h' : Service) : Prop where
  decisions : h'.store.decisions = h.store.decisions
  savedAssessmentId : h'.store.savedAssessmentId = h.store.savedAssessmentId
  savedBarrier : h'.store.savedBarrier = h.store.savedBarrier
  latestAssessmentId : h'.store.latestAssessmentId = h.store.latestAssessmentId
  assessmentBarrierRevision : h'.store.assessmentBarrierRevision = h.store.assessmentBarrierRevision
  latestProjection : h'.store.latestProjection = h.store.latestProjection
  latestPersistMono : h'.store.latestPersistMono = h.store.latestPersistMono
  failed : h'.store.failed = h.store.failed
  persisted : h'.persisted = h.persisted
  pruned : h'.pruned = h.pruned

theorem Sends.refl (h : Service) : Sends h h := ⟨rfl, rfl, rfl, rfl, rfl, rfl, rfl, rfl, rfl, rfl⟩

theorem Sends.remembers (hsends : Sends h h') (hs : Remembers h) : Remembers h' where
  named := by rw [hsends.decisions]; exact hs.named
  savedAssessmentId := by
    rw [hsends.savedAssessmentId, hsends.latestAssessmentId, hs.savedAssessmentId]
  savedBarrier := by
    rw [hsends.savedBarrier, hsends.latestAssessmentId, hsends.assessmentBarrierRevision]
    exact hs.savedBarrier
  last := by rw [hsends.latestAssessmentId, hsends.persisted, hs.last]
  projection := by
    rw [hsends.failed, hsends.latestProjection, hsends.latestPersistMono, hsends.persisted]
    exact hs.projection
  barrier := by
    rw [hsends.persisted, hsends.assessmentBarrierRevision]
    exact hs.barrier

/-- **The ways of a step**: a persist, a start, or a step of a sender. -/
inductive Steps (cfg : StoreConfig) (h : Service) : Op → Service → Prop
  | persist (snapshot : Snapshot) (notifications : List Notification) (disk : Disk) (now mono : ℚ)
      (h' : Service) (persists : Persists cfg snapshot notifications now mono h h') :
      Steps cfg h (.persist snapshot notifications disk now mono) h'
  | restart : Steps cfg h .restart h.restart
  | sends (op : Op) (h' : Service) (sends : Sends h h') : Steps cfg h op h'

theorem sends_ite {p : Prop} [Decidable p] (hsends : Sends h h') :
    Sends h (if p then h' else h) := by
  split_ifs
  · exact hsends
  · exact Sends.refl h

theorem sends_request {f : Service → Service} (hsends : Sends h (f h)) : Sends h (h.request f) := by
  unfold Service.request
  split_ifs
  · exact Sends.refl h
  · exact hsends

variable (item : OutboxRow)

theorem sends_writeOff (status : OutboxStatus) (errorCode : Option String) (h : Service) :
    Sends h (h.writeOff item status errorCode) :=
  sends_ite ⟨rfl, rfl, rfl, rfl, rfl, rfl, rfl, rfl, rfl, rfl⟩

variable (cfg)

theorem steps (h : Service) (op : Op) : Steps cfg h op (step cfg h op) := by
  cases op with
  | persist snapshot notifications disk now mono =>
    show Steps cfg h _ (h.request _)
    unfold Service.request
    split_ifs
    · exact .sends _ _ (Sends.refl h)
    · exact .persist _ _ _ _ _ _ (persists cfg snapshot notifications disk now mono h)
  | fetch limit now mono =>
    exact .sends _ _ (sends_request ⟨rfl, rfl, rfl, rfl, rfl, rfl, rfl, rfl, rfl, rfl⟩)
  | obsolete item => exact .sends _ _ (sends_request (sends_writeOff item _ _ h))
  | attemptLimit item =>
    exact .sends _ _ (sends_ite (sends_request (sends_writeOff item _ _ h)))
  | claim item now due mono =>
    exact .sends _ _ (sends_request (sends_ite ⟨rfl, rfl, rfl, rfl, rfl, rfl, rfl, rfl, rfl, rfl⟩))
  | answer item answer now =>
    exact .sends _ _ (sends_request (sends_ite ⟨rfl, rfl, rfl, rfl, rfl, rfl, rfl, rfl, rfl, rfl⟩))
  | cancelled item =>
    exact .sends _ _ (sends_ite ⟨rfl, rfl, rfl, rfl, rfl, rfl, rfl, rfl, rfl, rfl⟩)
  | restart => exact .restart

theorem remembers_after (ops : List Op) : Remembers (after cfg ops) := by
  refine inv_run Remembers (fun h op hs => ?_) remembers_start ops
  cases steps cfg h op with
  | persist snapshot notifications disk now mono h' hp => exact remembers_persist hs hp
  | restart => exact remembers_restart hs
  | sends op h' hsends => exact hsends.remembers hs

/-- **A decision is stored until the retention drops it.** -/
theorem stored_or_retired (before later : List Op)
    (hrow : row ∈ (after cfg before).store.decisions.rows) :
    row ∈ (after cfg (before ++ later)).store.decisions.rows ∨
      ∃ pre op post, later = pre ++ op :: post ∧
        Retires cfg (after cfg (before ++ pre)) op row := by
  induction later using List.reverseRecOn with
  | nil => exact .inl (by simpa using hrow)
  | append_singleton later op ih =>
    obtain hstored | ⟨pre, op', post, rfl, hretires⟩ := ih
    swap
    · exact .inr ⟨pre, op', post ++ [op], by simp, hretires⟩
    by_cases hkept : row ∈ (after cfg (before ++ (later ++ [op]))).store.decisions.rows
    · exact .inl hkept
    right
    refine ⟨later, op, [], rfl, ?_⟩
    rw [← append_assoc, after, run_concat] at hkept
    change row ∉ (step cfg (after cfg (before ++ later)) op).store.decisions.rows at hkept
    have hsteps := steps cfg (after cfg (before ++ later)) op
    generalize hnext : step cfg (after cfg (before ++ later)) op = next at hkept hsteps
    cases hsteps with
    | persist snapshot notifications disk now mono h' hp =>
      refine ⟨snapshot, notifications, disk, now, mono, rfl, ?_⟩
      rw [hnext]
      cases hp with
      | raised => exact absurd hstored hkept
      | committed s exported spec =>
        obtain ⟨recorded, hrecorded, hdecisions⟩ := spec.decisions
        have hstore : (if exported then s.project snapshot mono else s.fail).decisions =
            retainDecisions cfg now recorded := by
          cases exported <;> exact hdecisions
        rw [hstore] at hkept ⊢
        exact retainDecisions_spec cfg now ((recordDecisions_spec hrecorded).1 row hstored) hkept
    | restart => exact absurd hstored hkept
    | sends op h' hsends => exact absurd (hsends.decisions ▸ hstored) hkept

/-! ## What is sent -/

variable {f : OutboxRow → OutboxRow} {key : Key} {t : Table OutboxRow.key}

theorem mem_updateWhere_pending {p : OutboxRow → Prop} [DecidablePred p] {row : OutboxRow}
    (hstatus : ∀ r, (f r).status ≠ .pending)
    (hrow : row ∈ t.rows.map fun r => if p r then f r else r) (hpending : row.status = .pending) :
    row ∈ t.rows := by
  obtain ⟨old, hold, rfl⟩ := mem_map.mp hrow
  split_ifs at hpending ⊢
  · exact absurd hpending (hstatus old)
  · exact hold

theorem isSome_find?_updateWhere {p : OutboxRow → Prop} [DecidablePred p]
    (hf : ∀ r, (f r).key = r.key) (h : (t.find? key).isSome) :
    ((t.updateWhere p f hf).find? key).isSome := by
  rw [find?_updateWhere, isSome_map]
  exact h

theorem isSome_find?_update {k : Key} (hf : ∀ r, (f r).key = r.key)
    (h : (t.find? key).isSome) : ((t.update k f hf).find? key).isSome := by
  rw [Table.find?_update]
  split_ifs with hkey
  · rw [isSome_map, ← hkey]
    exact h
  · exact h

/-- The key has not been interrupted, and no claim of it was for more than `attempts`. -/
def AtMost (sends : List SendEvent) (key : Key) (attempts : ℕ) : Prop :=
  ∀ e ∈ sends, e.key = key → ∃ n ≤ attempts, e = .claimed key n

/-- **What holds of the sends of keys that were not pruned.** A row that is pending is not in
flight, and counts every claim of it. -/
structure Sent (h : Service) : Prop where
  recorded : ∀ e ∈ h.sends, e.key ∉ h.pruned → (h.store.outbox.find? e.key).isSome
  claimed : ∀ item ∈ h.inFlight, .claimed item.key (item.attempts + 1) ∈ h.sends
  inFlight : ∀ item ∈ h.inFlight, item.key ∉ h.pruned → AtMost h.sends item.key (item.attempts + 1)
  pending : ∀ row ∈ h.store.outbox.rows, row.status = .pending → row.key ∉ h.pruned →
    (∀ item ∈ h.inFlight, item.key ≠ row.key) ∧ AtMost h.sends row.key row.attempts
  once : h.inFlight.Pairwise fun i j => i.key = j.key → i.key ∈ h.pruned
  order : h.sends.Pairwise (InOrder h.pruned)

theorem sent_start : Sent Service.start where
  recorded := fun _ he => nomatch he
  claimed := fun _ hitem => nomatch hitem
  inFlight := fun _ hitem => nomatch hitem
  pending := fun _ hrow => nomatch hrow
  once := .nil
  order := .nil

theorem Sent.fresh (hs : Sent h) (hkey : key ∉ h.pruned) (hfind : h.store.outbox.find? key = none) :
    (∀ item ∈ h.inFlight, item.key ≠ key) ∧ ∀ e ∈ h.sends, e.key ≠ key := by
  have hnone : ∀ e ∈ h.sends, e.key ≠ key := by
    rintro e he rfl
    have hsome := hs.recorded e he hkey
    rw [hfind] at hsome
    cases hsome
  exact ⟨fun item hitem => hnone _ (hs.claimed item hitem), hnone⟩

/-- **A change of the outbox that makes no row pending**, except rows of new keys. -/
theorem Sent.congr (hs : Sent h) (hinFlight : h'.inFlight = h.inFlight)
    (hsends : h'.sends = h.sends) (hpruned : h.pruned ⊆ h'.pruned)
    (hkeeps : ∀ key ∉ h'.pruned, (h.store.outbox.find? key).isSome →
      (h'.store.outbox.find? key).isSome)
    (hpending : ∀ row ∈ h'.store.outbox.rows, row.status = .pending → row ∈ h.store.outbox.rows ∨
      h.store.outbox.find? row.key = none) :
    Sent h' where
  recorded := fun e he hkey => by
    rw [hsends] at he
    exact hkeeps e.key hkey (hs.recorded e he fun hold => hkey (hpruned hold))
  claimed := by
    rw [hinFlight, hsends]
    exact hs.claimed
  inFlight := fun item hitem hkey => by
    rw [hinFlight] at hitem
    rw [hsends]
    exact hs.inFlight item hitem fun hold => hkey (hpruned hold)
  pending := fun row hrow hstatus hkey => by
    have hkey : row.key ∉ h.pruned := fun hold => hkey (hpruned hold)
    rw [hinFlight, hsends]
    refine (hpending row hrow hstatus).elim (fun hold => hs.pending row hold hstatus hkey)
      fun hfind => ?_
    obtain ⟨hflight, hnone⟩ := hs.fresh hkey hfind
    exact ⟨hflight, fun e he hek => absurd hek (hnone e he)⟩
  once := by
    rw [hinFlight]
    exact hs.once.imp fun h hkey => hpruned (h hkey)
  order := by
    rw [hsends]
    exact hs.order.imp fun h hkey hunpruned => h hkey fun hold => hunpruned (hpruned hold)

variable {t' : Table OutboxRow.key} {n : Notification}

theorem queueNotification_spec (h : queueNotification now t n = .ok t') :
    ∀ row ∈ t'.rows, row ∈ t.rows ∨ t.find? row.key = none := by
  unfold queueNotification at h
  split at h
  · cases h
  · rename_i eventId _
    obtain ⟨-, h⟩ := of_raiseIf h
    obtain rfl := ok.inj h
    intro row hrow
    cases hfree : t.find? (n.row eventId now).key with
    | none =>
      obtain hrow | rfl := (mem_rows_insertOnce hfree).mp hrow
      · exact .inl hrow
      · exact .inr hfree
    | some old =>
      rw [insertOnce_of_find? hfree] at hrow
      exact .inl hrow

theorem queueNotification_keeps (h : queueNotification now t n = .ok t')
    (hkey : t'.find? key = none) : t.find? key = none := by
  unfold queueNotification at h
  split at h
  · cases h
  · obtain ⟨-, h⟩ := of_raiseIf h
    obtain rfl := ok.inj h
    cases hfind : t.find? key with
    | none => rfl
    | some row =>
      rw [find?_insertOnce_of_find? hfind] at hkey
      cases hkey

/-- **What is queued** has a key that was free. -/
theorem queueNotifications_spec (h : notifications.foldlM (queueNotification now) t = .ok t') :
    ∀ row ∈ t'.rows, row ∈ t.rows ∨ t.find? row.key = none := by
  have hspec := foldlM_inv (P := fun u : Table OutboxRow.key =>
      (∀ row ∈ u.rows, row ∈ t.rows ∨ t.find? row.key = none) ∧
        ∀ key, u.find? key = none → t.find? key = none)
    (fun u n _ u' hu hn => ?_) ⟨fun row hrow => .inl hrow, fun _ hkey => hkey⟩ h
  · exact hspec.1
  · refine ⟨fun row hrow => ?_, fun key hkey => hu.2 key (queueNotification_keeps hn hkey)⟩
    exact (queueNotification_spec hn row hrow).elim (hu.1 row) fun hfree => .inr (hu.2 _ hfree)

variable {cfg}

theorem mem_retainOutbox_pending (h : retainOutbox cfg now t = .ok t') {row : OutboxRow}
    (hrow : row ∈ t'.rows) (hpending : row.status = .pending) : row ∈ t.rows := by
  obtain ⟨-, h⟩ := of_raiseIf h
  obtain rfl := ok.inj h
  have hrow := (mem_rows_deleteWhere.mp (mem_rows_deleteWhere.mp hrow).1).1
  exact mem_updateWhere_pending (fun _ => by simp) hrow hpending

theorem sent_persist {mono : ℚ} (hs : Sent h)
    (hp : Persists cfg snapshot notifications now mono h h') : Sent h' := by
  cases hp with
  | raised =>
    exact hs.congr rfl rfl (List.Subset.refl _) (fun _ _ hsome => hsome) fun row hrow _ => .inl hrow
  | committed s exported spec =>
    obtain ⟨queued, hqueued, hretained⟩ := spec.outbox
    have houtbox : (if exported then s.project snapshot mono else s.fail).outbox = s.outbox := by
      cases exported <;> rfl
    refine hs.congr rfl rfl (subset_append_left _ _) (fun key hkey hsome => ?_)
      fun row hrow hpending => ?_
    · -- a key whose row is gone is pruned
      rw [houtbox]
      by_contra hnone
      refine hkey (mem_append_right _ (mem_filter.mpr ⟨?_, ?_⟩))
      · by_contra habsent
        rw [find?_eq_none_iff.mpr habsent] at hsome
        cases hsome
      · have hnone := not_isSome_iff_eq_none.mp hnone
        simpa using find?_eq_none_iff.mp hnone
    · rw [houtbox] at hrow
      exact queueNotifications_spec hqueued row (mem_retainOutbox_pending hretained hrow hpending)

theorem before_interrupted (e : SendEvent) (key : Key) : e.Before (.interrupted key) := by
  cases e <;> trivial

variable {item}

theorem mem_interrupted {known : Bool} {e : SendEvent} (he : e ∈ Service.interrupted item known) :
    known = false ∧ e = .interrupted item.key := by
  cases known with
  | true => exact nomatch he
  | false => exact ⟨rfl, mem_singleton.mp he⟩

/-- **A send is over**: a row becomes pending only if it is the one that was sent, and the
outcome is known. -/
theorem Sent.settle (hs : Sent h) (hitem : item ∈ h.inFlight) (known : Bool)
    (hkeeps : ∀ key, (h.store.outbox.find? key).isSome → (t.find? key).isSome)
    (hpending : ∀ row ∈ t.rows, row.status = .pending → row ∈ h.store.outbox.rows ∨ known = true ∧
      row.key = item.key ∧ row.attempts = item.attempts + 1) : Sent { h with
      store := { h.store with outbox := t }
      inFlight := h.inFlight.erase item
      sends := h.sends ++ Service.interrupted item known } := by
  have hothers : ∀ other ∈ h.inFlight.erase item, item.key ∉ h.pruned → other.key ≠ item.key := by
    intro other hother hkey he
    have hsymm : ∀ {i j : OutboxRow}, (i.key = j.key → i.key ∈ h.pruned) →
        j.key = i.key → j.key ∈ h.pruned := fun hij he => he.symm ▸ hij he.symm
    have honce := ((perm_cons_erase hitem).pairwise_iff hsymm).mp hs.once
    exact hkey ((pairwise_cons.mp honce).1 other hother he.symm)
  have hsub : ∀ other ∈ h.inFlight.erase item, other ∈ h.inFlight := fun _ => mem_of_mem_erase
  refine ⟨fun e he hkey => ?_, fun other hother => ?_, fun other hother hkey e he hek => ?_,
    fun row hrow hstatus hkey => ?_, hs.once.sublist erase_sublist, ?_⟩
  · refine (mem_append.mp he).elim (fun he => hkeeps _ (hs.recorded e he hkey)) fun he => ?_
    obtain ⟨-, rfl⟩ := mem_interrupted he
    exact hkeeps item.key (hs.recorded (.claimed item.key _) (hs.claimed item hitem) hkey)
  · exact mem_append_left _ (hs.claimed other (hsub other hother))
  · refine (mem_append.mp he).elim
      (fun he => hs.inFlight other (hsub other hother) hkey e he hek) fun he => ?_
    obtain ⟨-, rfl⟩ := mem_interrupted he
    have hek : item.key = other.key := hek
    exact absurd hek.symm (hothers other hother (hek ▸ hkey))
  · obtain hold | ⟨rfl, hrowKey, hattempts⟩ := hpending row hrow hstatus
    · obtain ⟨hflight, hmost⟩ := hs.pending row hold hstatus hkey
      refine ⟨fun other hother => hflight other (hsub other hother), fun e he hek => ?_⟩
      refine (mem_append.mp he).elim (fun he => hmost e he hek) fun he => ?_
      obtain ⟨-, rfl⟩ := mem_interrupted he
      exact absurd hek (hflight item hitem)
    · rw [hrowKey] at hkey
      show (∀ other ∈ h.inFlight.erase item, other.key ≠ row.key) ∧
        AtMost (h.sends ++ []) row.key row.attempts
      rw [append_nil, hrowKey, hattempts]
      exact ⟨fun other hother => hothers other hother hkey, hs.inFlight item hitem hkey⟩
  · refine pairwise_append.mpr ⟨hs.order, ?_, fun e _ e' he' _ _ => ?_⟩
    · cases known with
      | true => exact .nil
      | false => exact pairwise_singleton _ _
    · obtain ⟨-, rfl⟩ := mem_interrupted he'
      exact before_interrupted e _

theorem known_of_pending {answer : Answer} (h : (answer.report cfg item now).status = .pending) :
    answer.known = true := by
  cases answer with
  | exception => exact nomatch h
  | response => rfl

variable (cfg)

section

variable (hs : Sent h)
include hs

theorem sent_answer (item : OutboxRow) (answer : Answer) (now : ℚ) :
    Sent (h.answer cfg item answer now) := by
  unfold Service.answer
  split_ifs with hitem
  swap
  · exact hs
  refine hs.settle hitem answer.known (fun key hsome => isSome_find?_update (fun _ => by rfl) hsome)
    fun row hrow hpending => ?_
  obtain ⟨old, hold, rfl⟩ := mem_map.mp hrow
  split_ifs at hpending ⊢ with hkey
  · exact .inr ⟨known_of_pending hpending, hkey, rfl⟩
  · exact .inl hold

theorem sent_cancelled (item : OutboxRow) : Sent (h.cancelled item) := by
  unfold Service.cancelled
  split_ifs with hitem
  · exact hs.settle hitem false (fun _ hsome => hsome) fun _ hrow _ => .inl hrow
  · exact hs

/-- **A claim.** The row was pending, and counts every claim before. -/
theorem sent_claim (item : OutboxRow) (now due mono : ℚ) :
    Sent (h.claim cfg item now due mono) := by
  unfold Service.claim
  split_ifs with hclaims
  swap
  · exact hs
  obtain ⟨-, -, -, row, hrow, hpending, -, hattempts⟩ := hclaims
  have hrowKey : row.key = item.key := key_of_find? hrow
  have hfacts : item.key ∉ h.pruned →
      (∀ other ∈ h.inFlight, other.key ≠ item.key) ∧ AtMost h.sends item.key item.attempts := by
    rw [← hrowKey, ← hattempts]
    exact hs.pending row (mem_of_find? hrow) hpending
  refine ⟨fun e he hkey => ?_, fun other hother => ?_, fun other hother hkey e he hek => ?_,
    fun row' hrow' hstatus hkey => ?_, ?_, ?_⟩
  · refine isSome_find?_update (fun _ => by rfl)
      ((mem_append.mp he).elim (hs.recorded e · hkey) fun he => ?_)
    obtain rfl := mem_singleton.mp he
    exact hrow ▸ rfl
  · refine mem_append.mpr ((mem_append.mp hother).imp (hs.claimed other) fun hother => ?_)
    obtain rfl := mem_singleton.mp hother
    exact mem_singleton.mpr rfl
  · obtain hother | hother := mem_append.mp hother
    · refine (mem_append.mp he).elim (hs.inFlight other hother hkey e · hek) fun he => ?_
      obtain rfl := mem_singleton.mp he
      have hek : item.key = other.key := hek
      exact absurd hek.symm ((hfacts (hek ▸ hkey)).1 other hother)
    · obtain rfl := mem_singleton.mp hother
      obtain he | he := mem_append.mp he
      · obtain ⟨n, hn, heq⟩ := (hfacts hkey).2 e he hek
        exact ⟨n, hn.trans (Nat.le_succ _), heq⟩
      · exact ⟨_, le_rfl, mem_singleton.mp he⟩
  · obtain ⟨old, hold, rfl⟩ := mem_map.mp hrow'
    -- the row that was claimed is not pending any more
    split_ifs at hstatus hkey ⊢ with holdKey
    obtain ⟨hflight, hmost⟩ := hs.pending old hold hstatus hkey
    refine ⟨fun other hother => ?_, fun e he hek => ?_⟩
    · refine (mem_append.mp hother).elim (hflight other) fun hother => ?_
      obtain rfl := mem_singleton.mp hother
      exact fun he => holdKey he.symm
    · refine (mem_append.mp he).elim (hmost e · hek) fun he => ?_
      obtain rfl := mem_singleton.mp he
      exact absurd hek.symm holdKey
  · refine pairwise_append.mpr ⟨hs.once, pairwise_singleton _ _, fun other hother i hi => ?_⟩
    obtain rfl := mem_singleton.mp hi
    intro hkey
    by_contra hunpruned
    exact (hfacts (hkey ▸ hunpruned)).1 other hother hkey
  · refine pairwise_append.mpr ⟨hs.order, pairwise_singleton _ _, fun e he e' he' => ?_⟩
    obtain rfl := mem_singleton.mp he'
    intro hkey hunpruned
    have hkey : e.key = item.key := hkey
    rw [hkey] at hunpruned
    obtain ⟨n, hn, rfl⟩ := (hfacts hunpruned).2 e he hkey
    exact Nat.lt_succ_of_le hn

/-- **A start**: what is in flight is interrupted. -/
theorem sent_restart : Sent h.restart := by
  have hnew : ∀ e ∈ h.inFlight.flatMap fun item => Service.interrupted item false,
      ∃ item ∈ h.inFlight, e = .interrupted item.key := by
    intro e he
    obtain ⟨item, hitem, he⟩ := mem_flatMap.mp he
    exact ⟨item, hitem, (mem_interrupted he).2⟩
  refine ⟨fun e he hkey => ?_, (fun _ hitem => nomatch hitem), (fun _ hitem => nomatch hitem),
    fun row hrow hstatus hkey => ⟨(fun _ hitem => nomatch hitem), fun e he hek => ?_⟩, .nil, ?_⟩
  · refine isSome_find?_updateWhere (fun _ => by rfl)
      ((mem_append.mp he).elim (hs.recorded e · hkey) fun he => ?_)
    obtain ⟨item, hitem, rfl⟩ := hnew e he
    exact hs.recorded (.claimed item.key _) (hs.claimed item hitem) hkey
  · have hold : row ∈ h.store.outbox.rows :=
      mem_updateWhere_pending (p := fun row => row.status = .sending) (fun _ => by simp) hrow
        hstatus
    obtain ⟨hflight, hmost⟩ := hs.pending row hold hstatus hkey
    refine (mem_append.mp he).elim (hmost e · hek) fun he => ?_
    obtain ⟨item, hitem, rfl⟩ := hnew e he
    exact absurd hek (hflight item hitem)
  · have hbefore : ∀ e, ∀ e' ∈ h.inFlight.flatMap fun item => Service.interrupted item false,
        InOrder h.pruned e e' := by
      intro e e' he' _ _
      obtain ⟨item, -, rfl⟩ := hnew e' he'
      exact before_interrupted e _
    exact pairwise_append.mpr ⟨hs.order,
      pairwise_of_forall_mem_list fun e _ e' he' => hbefore e e' he',
      fun e _ e' he' => hbefore e e' he'⟩

theorem sent_fetch (limit : ℕ) (now : ℚ) (mono : Key → ℚ) :
    Sent (h.fetch cfg limit now mono) := by
  refine hs.congr rfl rfl (List.Subset.refl _)
    (fun key _ hsome =>
      isSome_find?_updateWhere (fun _ => by rfl) (isSome_find?_updateWhere (fun _ => by rfl) hsome))
    fun row hrow hpending => .inl ?_
  have hmem : row ∈ (expirePending now h.store.outbox).rows :=
    mem_updateWhere_pending (fun _ => by simp) hrow hpending
  exact mem_updateWhere_pending (fun _ => by simp) hmem hpending

theorem sent_writeOff (item : OutboxRow) {status : OutboxStatus}
    (errorCode : Option String) (hstatus : status ≠ .pending) :
    Sent (h.writeOff item status errorCode) := by
  unfold Service.writeOff
  split_ifs
  swap
  · exact hs
  refine hs.congr rfl rfl (List.Subset.refl _) (fun key _ hsome =>
      isSome_find?_update (fun _ => by rfl) hsome)
    fun row hrow hpending => .inl ?_
  obtain ⟨old, hold, rfl⟩ := mem_map.mp hrow
  split_ifs at hpending ⊢
  · exact absurd hpending hstatus
  · exact hold

theorem sent_request {f : Service → Service} (hf : Sent (f h)) :
    Sent (h.request f) := by
  unfold Service.request
  split_ifs
  · exact hs
  · exact hf

theorem sent_step (op : Op) : Sent (step cfg h op) := by
  cases op with
  | persist snapshot notifications disk now mono =>
    exact sent_request hs (sent_persist hs (persists cfg snapshot notifications disk now mono h))
  | fetch limit now mono => exact sent_request hs (sent_fetch cfg hs limit now mono)
  | obsolete item => exact sent_request hs (sent_writeOff hs item _ (by simp))
  | attemptLimit item =>
    show Sent (if _ then _ else h)
    split_ifs
    · exact sent_request hs (sent_writeOff hs item _ (by simp))
    · exact hs
  | claim item now due mono => exact sent_request hs (sent_claim cfg hs item now due mono)
  | answer item answer now => exact sent_request hs (sent_answer cfg hs item answer now)
  | cancelled item => exact sent_cancelled hs item
  | restart => exact sent_restart hs

end

theorem sent_after (ops : List Op) : Sent (after cfg ops) :=
  inv_run Sent (fun _ op hs => sent_step cfg hs op) sent_start ops

/-! ## Claims -/

/-- The latest row is a row of the event, and no other has a higher revision. -/
theorem latestRow_spec {t : Table DecisionRow.key} {eventId : String}
    (h : row ∈ latestRow t eventId) : row ∈ t.rows ∧ row.eventId = eventId ∧
      ∀ row' ∈ t.rows, row'.eventId = eventId → row'.revision ≤ row.revision := by
  obtain ⟨rest, hrest⟩ := head?_eq_some_iff.mp h
  have hmem : ∀ r, r ∈ row :: rest ↔ r ∈ t.rows ∧ r.eventId = eventId := by
    intro r
    rw [← hrest]
    simp
  obtain ⟨hrow, hid⟩ := (hmem row).mp mem_cons_self
  refine ⟨hrow, hid, fun row' hrow' hid' => ?_⟩
  have hordered := pairwise_orderBy (fun row : DecisionRow => -row.revision)
    (t.rows.filter fun row => row.eventId = eventId)
  rw [hrest] at hordered
  obtain rfl | hrow' := mem_cons.mp ((hmem row').mpr ⟨hrow', hid'⟩)
  · exact le_rfl
  · exact neg_le_neg_iff.mp ((pairwise_cons.mp hordered).1 row' hrow')

/-- **The claim of a positive notification.** -/
theorem supported_of_claims (ops : List Op) (hincreasing : Increasing (after cfg ops).persisted)
    {due mono : ℚ} (hclaims : (after cfg ops).store.Claims cfg item now due mono)
    (hpositive : item.positive = true) : Supported cfg ops item now mono := by
  have hs := remembers_after cfg ops
  obtain ⟨hlive, ⟨-, hcurrent⟩, -⟩ := hclaims
  obtain ⟨⟨p, hp, hfresh⟩, row, hrow, hunexpired, hsupports⟩ := hcurrent hpositive
  refine ⟨?_, row, ?_, ?_⟩
  · obtain ⟨q, hq, rfl, hmono⟩ := hs.projection hlive p hp
    exact ⟨q, hq, hmono ▸ hfresh⟩
  · obtain ⟨hstored, hid, hlatest⟩ := latestRow_spec hrow
    refine ⟨hstored, fun row' hrow' hid' => hlatest row' hrow' (hid'.trans hid), ?_⟩
    rintro before later rfl row' hrow' hid' hrevision
    refine (stored_or_retired cfg before later hrow').resolve_left fun hstored' => ?_
    exact absurd (hlatest row' hstored' (hid'.trans hid)) (not_le.mpr hrevision)
  · obtain ⟨hstored, hid, -⟩ := latestRow_spec hrow
    refine ⟨hid, hunexpired, ?_⟩
    unfold SnapshotStore.Supports at hsupports
    split_ifs at hsupports with hstatus
    · obtain ⟨hassessment, hbarrier, hrevision⟩ := hsupports
      refine .inl ⟨hstatus, hrevision, ?_, fun p hp a ha hle => ?_⟩
      · have hlast := hs.last.symm.trans hassessment
        exact bind_eq_some_iff.mp hlast
      · by_contra hstate
        have hne : item.eventId ≠ "" := hid ▸ hs.named row hstored
        have hbelow := hs.barrier item.eventId hne hincreasing p hp a ha hstate
        omega
    · exact .inr hsupports

/-- A week of retention, for one decision and ten notifications. -/
def smallStore : StoreConfig where
  retentionSeconds := 604800
  maxDecisions := 1
  maxOutbox := 10
  maxSnapshotBytes := 1048576
  notificationStaleSeconds := fun _ => 125
  maxFutureSeconds := 2
  maxNotificationSnapshotAge := 5
  maxAttempts := 3
  maxRetryAfter := 3600
  upper := id

/-- A snapshot of healthy sources. -/
def healthySnapshot (events : List Decision) (assessment : Option Decision) : Snapshot where
  recentEvents := events
  decision := none
  assessment := assessment
  health := some ⟨true, fun _ => some ⟨true, some 0, some 0, true⟩⟩
  publishedAt := some 1000
  encodedBytes := 4096

/-- An assessment of the grid. -/
def candidate (revision : ℤ) (expiresAt : ℚ) : Decision :=
  ⟨none, none, some "grid", revision, some "CANDIDATE", none, some expiresAt, ""⟩

def anomaly (revision : ℤ) (state : String) : Decision :=
  ⟨some "event-1", none, none, revision, some state, none, some 1100, ""⟩

def notice (eventId notificationClass : String) (positive : Bool) : Notification :=
  ⟨some eventId, none, 1, notificationClass, "BTC/USDT", 1000000, positive, 512⟩

/-- A candidate that has expired already is persisted, and then one that has not. -/
def expiredFirst : List Op :=
  [.persist (healthySnapshot [] (some (candidate 1 990))) [notice "grid" "candidate" true] .ready
      1000 0,
    .persist (healthySnapshot [] (some (candidate 2 1100))) [] .ready 1000 0]

/-- An anomaly is confirmed and then invalidated, and the snapshots go on naming both. -/
def confirmedThenInvalidated : List Op :=
  [.persist (healthySnapshot [anomaly 1 "CONFIRMED"] none) [notice "event-1" "anomaly" true] .ready
      1000 0,
    .persist (healthySnapshot [anomaly 1 "CONFIRMED", anomaly 2 "INVALIDATED"] none) [] .ready
      1000 0]

/-- A withdrawal is interrupted while it is sent, and handed over again after a week. -/
def interruptedThenPruned : List Op :=
  [.persist (healthySnapshot [] none) [notice "grid" "withdrawn" false] .ready 1000 0,
    .fetch 16 1000 fun _ => 0,
    .claim ((notice "grid" "withdrawn" false).row "grid" 1000) 1000 1000 0,
    .restart,
    .persist (healthySnapshot [] none) [] .ready 700000 0,
    .persist (healthySnapshot [] none) [notice "grid" "withdrawn" false] .ready 700000 0,
    .fetch 16 700000 fun _ => 0,
    .claim ((notice "grid" "withdrawn" false).row "grid" 700000) 700000 700000 0]

end Qt.BtcMonitor.Storage
