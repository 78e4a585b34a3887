import QuantTrading.HubStore

/-!
# Fencing of hub jobs

What holds of the jobs of the hub over any sequence of calls by any workers. A
claim hands out a token that is greater than all before it, and while the job runs
its row names the worker and the token of the last claim. Whatever ends the claim –
success, failure, deferral, expiry, cancellation – stops the job from running, so
that nobody can end it again, and only another claim lets it run.

Everything is derived from what a call can do to one row (`HubJob.Move`,
`Change`): a claim's history is read off the log, and the row is compared with it.
-/

namespace Qt

namespace Hub

open Except List Table Machine Option

variable {P R T K : Type} [DecidableEq P] [LinearOrder T]

/-! ## The history of a job -/

def HubEvent.claimOf (jobId : String) : HubEvent T → Option (String × ℕ)
  | .claimed id worker token => if id = jobId then some (worker, token) else none
  | _ => none

/-- The worker and the token by which a claim of the job was ended. -/
def HubEvent.commitOf (jobId : String) : HubEvent T → Option (String × ℕ)
  | .committed id worker token => if id = jobId then some (worker, token) else none
  | _ => none

namespace HubStore

variable (s : HubStore P R T)

def claims (jobId : String) : List (String × ℕ) :=
  s.log.filterMap (HubEvent.claimOf jobId)

/-- By whom and under which token claims of a job were ended by their workers. -/
def commits (jobId : String) : List (String × ℕ) :=
  s.log.filterMap (HubEvent.commitOf jobId)

omit [DecidableEq P] [LinearOrder T] in
theorem claims_put (row : HubJob P R T) (events : List (HubEvent T)) (id : String) :
    (s.put row events).claims id = s.claims id ++ events.filterMap (HubEvent.claimOf id) :=
  filterMap_append

omit [DecidableEq P] [LinearOrder T] in
theorem commits_put (row : HubJob P R T) (events : List (HubEvent T)) (id : String) :
    (s.put row events).commits id = s.commits id ++ events.filterMap (HubEvent.commitOf id) :=
  filterMap_append

/-- **The row agrees with the history of its job.** -/
structure Fenced (s : HubStore P R T) (r : HubJob P R T) : Prop where
  /-- The attempts stay in their budget. -/
  budget : r.attempts ≤ r.maxAttempts
  /-- The tokens of the claims increase. -/
  increasing : ((s.claims r.id).map Prod.snd).Pairwise (· < ·)
  /-- The token of the row is not below them. -/
  below : ∀ c ∈ s.claims r.id, c.2 ≤ r.leaseToken
  /-- No token ends a claim twice. -/
  once : ((s.commits r.id).map Prod.snd).Nodup
  /-- Who ends a claim has made it. -/
  owned : ∀ c ∈ s.commits r.id, c ∈ s.claims r.id
  /-- While the job runs, its last claim has not been ended. -/
  holder : r.status = .running → ∃ worker, r.workerId = some worker ∧
    (worker, r.leaseToken) ∈ s.claims r.id ∧ r.leaseToken ∉ (s.commits r.id).map Prod.snd

end HubStore

section Moves

variable {codec : HubCodec P T K} {s s' : HubStore P R T} {r r' : HubJob P R T}
  {events : List (HubEvent T)}

omit [DecidableEq P] in
theorem HubJob.Move.filterMap_eq_nil (h : r.Move r' events) {id : String} (hne : id ≠ r.id) :
    events.filterMap (HubEvent.claimOf id) = [] ∧ events.filterMap (HubEvent.commitOf id) = [] := by
  cases h <;> simp [HubEvent.claimOf, HubEvent.commitOf, hne.symm]

omit [DecidableEq P] [LinearOrder T] in
/-- A row that stays outside of running agrees with the history as before. -/
theorem HubStore.Fenced.idle (h : s.Fenced r) (hid : r'.id = r.id)
    (hbudget : r'.attempts ≤ r'.maxAttempts) (htoken : r.leaseToken ≤ r'.leaseToken)
    (hidle : r'.status ≠ .running) : (s.put r' []).Fenced r' where
  budget := hbudget
  increasing := by
    rw [HubStore.claims_put, hid]
    simpa using h.increasing
  below c hc := by
    rw [HubStore.claims_put, hid] at hc
    exact (h.below c (by simpa using hc)).trans htoken
  once := by
    rw [HubStore.commits_put, hid]
    simpa using h.once
  owned c hc := by
    rw [HubStore.commits_put, hid] at hc
    rw [HubStore.claims_put, hid]
    simpa using h.owned c (by simpa using hc)
  holder hrunning := absurd hrunning hidle

omit [DecidableEq P] [LinearOrder T] in
/-- **Ending a claim**: its worker does it, and once. -/
theorem HubStore.Fenced.ended (h : s.Fenced r) (hrunning : r.status = .running) {worker : String}
    (howner : r.workerId = some worker) (hid : r'.id = r.id)
    (hbudget : r'.attempts ≤ r'.maxAttempts) (htoken : r'.leaseToken = r.leaseToken)
    (hidle : r'.status ≠ .running) :
    (s.put r' [.committed r.id worker r.leaseToken]).Fenced r' := by
  obtain ⟨worker', howner', hclaim, hnew⟩ := h.holder hrunning
  obtain rfl := some.inj (howner.symm.trans howner')
  have hclaims : (s.put r' [.committed r.id worker r.leaseToken]).claims r'.id = s.claims r.id := by
    rw [HubStore.claims_put, hid]
    simp [HubEvent.claimOf]
  have hcommits : (s.put r' [.committed r.id worker r.leaseToken]).commits r'.id
      = s.commits r.id ++ [(worker, r.leaseToken)] := by
    rw [HubStore.commits_put, hid]
    simp [HubEvent.commitOf]
  refine ⟨hbudget, ?_, ?_, ?_, ?_, fun hr => absurd hr hidle⟩
  · rw [hclaims]
    exact h.increasing
  · rw [hclaims, htoken]
    exact h.below
  · rw [hcommits, map_append, map_singleton, ← concat_eq_append]
    exact h.once.concat hnew
  · rw [hcommits, hclaims]
    intro c hc
    rcases mem_append.mp hc with hc | hc
    · exact h.owned c hc
    · exact mem_singleton.mp hc ▸ hclaim

omit [DecidableEq P] in
/-- **A move keeps the row in agreement** with the history. -/
theorem HubJob.Move.fenced_put (hmove : r.Move r' events) (h : s.Fenced r) :
    (s.put r' events).Fenced r' := by
  have hb := h.budget
  cases hmove with
  | @claim worker leaseUntil now queued left =>
    have hclaims : (s.put (r.claimed worker leaseUntil now)
        [.claimed r.id worker (r.leaseToken + 1)]).claims r.id
          = s.claims r.id ++ [(worker, r.leaseToken + 1)] := by
      rw [HubStore.claims_put]
      simp [HubEvent.claimOf]
    have hcommits : (s.put (r.claimed worker leaseUntil now)
        [.claimed r.id worker (r.leaseToken + 1)]).commits r.id = s.commits r.id := by
      rw [HubStore.commits_put]
      simp [HubEvent.commitOf]
    constructor
    · exact left
    · show (List.map _ (HubStore.claims _ r.id)).Pairwise _
      rw [hclaims, map_append, pairwise_append]
      refine ⟨h.increasing, pairwise_singleton _ _, fun t ht t' ht' => ?_⟩
      obtain ⟨c, hc, rfl⟩ := mem_map.mp ht
      obtain rfl := mem_singleton.mp ht'
      exact Nat.lt_succ_of_le (h.below c hc)
    · show ∀ c ∈ HubStore.claims _ r.id, c.2 ≤ r.leaseToken + 1
      rw [hclaims]
      intro c hc
      rcases mem_append.mp hc with hc | hc
      · exact (h.below c hc).trans (Nat.le_succ _)
      · rw [mem_singleton.mp hc]
    · show (List.map _ (HubStore.commits _ r.id)).Nodup
      rw [hcommits]
      exact h.once
    · show ∀ c ∈ HubStore.commits _ r.id, c ∈ HubStore.claims _ r.id
      rw [hcommits, hclaims]
      exact fun c hc => mem_append_left _ (h.owned c hc)
    · intro _
      refine ⟨worker, rfl, ?_, ?_⟩
      · show (worker, r.leaseToken + 1) ∈ HubStore.claims _ r.id
        rw [hclaims]
        exact mem_append_right _ (mem_singleton.mpr rfl)
      · -- a token that ended a claim was handed out before
        show r.leaseToken + 1 ∉ List.map _ (HubStore.commits _ r.id)
        rw [hcommits]
        intro hmem
        obtain ⟨c, hc, htoken⟩ := mem_map.mp hmem
        have hle := h.below c (h.owned c hc)
        rw [htoken] at hle
        exact absurd hle (Nat.not_succ_le_self _)
  | @renew leaseUntil now running =>
    have hclaims : (s.put (r.renewed leaseUntil now) []).claims r.id = s.claims r.id := by
      rw [HubStore.claims_put]
      exact append_nil _
    have hcommits : (s.put (r.renewed leaseUntil now) []).commits r.id = s.commits r.id := by
      rw [HubStore.commits_put]
      exact append_nil _
    constructor
    · exact hb
    · exact hclaims ▸ h.increasing
    · exact hclaims ▸ h.below
    · exact hcommits ▸ h.once
    · show ∀ c ∈ HubStore.commits _ r.id, c ∈ HubStore.claims _ r.id
      rw [hcommits, hclaims]
      exact h.owned
    · show r.status = .running → ∃ worker, r.workerId = some worker ∧
        (worker, r.leaseToken) ∈ HubStore.claims _ r.id ∧
          r.leaseToken ∉ List.map _ (HubStore.commits _ r.id)
      rw [hcommits, hclaims]
      exact h.holder
  | succeed running owner => exact h.ended running owner rfl hb rfl nofun
  | fail running owner =>
    refine h.ended running owner rfl hb rfl ?_
    show (if r.Exhausted then HubStatus.deadletter else .queued) ≠ .running
    split_ifs <;> decide
  | defer running owner => exact h.ended running owner rfl ((Nat.sub_le _ 1).trans hb) rfl nofun
  | expire running =>
    refine h.idle rfl hb le_rfl ?_
    show (if r.Exhausted then HubStatus.deadletter else .queued) ≠ .running
    split_ifs <;> decide
  | cancel live => exact h.idle rfl hb (Nat.le_succ _) nofun

omit [DecidableEq P] [LinearOrder T] in
/-- What happens to another job does not concern the row. -/
theorem HubStore.Fenced.frame {q : HubJob P R T} (h : s.Fenced q)
    (hclaims : s'.claims q.id = s.claims q.id) (hcommits : s'.commits q.id = s.commits q.id) :
    s'.Fenced q where
  budget := h.budget
  increasing := hclaims ▸ h.increasing
  below := hclaims ▸ h.below
  once := hcommits ▸ h.once
  owned := by
    rw [hclaims, hcommits]
    exact h.owned
  holder := by
    rw [hclaims, hcommits]
    exact h.holder

end Moves

/-! ## The ledger -/

/-- **What holds of every ledger.** -/
structure Sound (codec : HubCodec P T K) (s : HubStore P R T) : Prop where
  rowsFenced : ∀ r ∈ s.jobs.rows, s.Fenced r
  /-- A job without a row has no history. -/
  unknown : ∀ id, s.jobs.find? id = none → s.claims id = [] ∧ s.commits id = []
  /-- An idempotency key has one job. -/
  keys : ∀ r ∈ s.jobs.rows, ∀ r' ∈ s.jobs.rows, r.tenantId = r'.tenantId →
    r.idempotencyKey = r'.idempotencyKey → r = r'
  /-- The job that a schedule made is there, under the key of its bucket. -/
  bucket : ∀ tenant scheduleId interval bucket,
    .scheduled tenant scheduleId interval bucket ∈ s.log → ∃ r ∈ s.jobs.rows, r.tenantId = tenant ∧
      r.idempotencyKey = scheduleKey codec scheduleId interval bucket
  /-- A schedule makes one job of a bucket. -/
  once : ∀ tenant scheduleId interval bucket,
    s.log.count (.scheduled tenant scheduleId interval bucket) ≤ 1

/-- **What becomes of a job**: its token does not go down, and a job that has succeeded
stays as it is. -/
structure HubJob.Later (r r' : HubJob P R T) : Prop where
  tenant : r'.tenantId = r.tenantId
  payload : r'.payloadJson = r.payloadJson
  token : r.leaseToken ≤ r'.leaseToken
  absorbed : r.status = .succeeded → r' = r

omit [DecidableEq P] [LinearOrder T] in
theorem HubJob.Later.refl (r : HubJob P R T) : r.Later r := ⟨rfl, rfl, le_rfl, fun _ => rfl⟩

omit [DecidableEq P] [LinearOrder T] in
theorem HubJob.Later.trans {r r' r'' : HubJob P R T} (h : r.Later r') (h' : r'.Later r'') :
    r.Later r'' where
  tenant := h'.tenant.trans h.tenant
  payload := h'.payload.trans h.payload
  token := h.token.trans h'.token
  absorbed hr := by
    obtain rfl := h.absorbed hr
    exact h'.absorbed hr

section Changes

variable {codec : HubCodec P T K} {s s' : HubStore P R T}

variable {events : List (HubEvent T)} {r : HubJob P R T}

variable {r' : HubJob P R T}

omit [DecidableEq P] in
theorem HubJob.Move.later (h : r.Move r' events) :
    r.Later r' ∧ r'.idempotencyKey = r.idempotencyKey := by
  have habsurd : ∀ {r' : HubJob P R T}, r.status = .running → r.status = .succeeded → r' = r :=
    fun h h' => absurd (h.symm.trans h') nofun
  cases h with
  | claim queued =>
    exact ⟨⟨rfl, rfl, Nat.le_succ _, fun h => absurd (queued.symm.trans h) nofun⟩, rfl⟩
  | renew running => exact ⟨⟨rfl, rfl, le_rfl, habsurd running⟩, rfl⟩
  | succeed running => exact ⟨⟨rfl, rfl, le_rfl, habsurd running⟩, rfl⟩
  | fail running => exact ⟨⟨rfl, rfl, le_rfl, habsurd running⟩, rfl⟩
  | defer running => exact ⟨⟨rfl, rfl, le_rfl, habsurd running⟩, rfl⟩
  | expire running => exact ⟨⟨rfl, rfl, le_rfl, habsurd running⟩, rfl⟩
  | cancel live =>
    refine ⟨⟨rfl, rfl, Nat.le_succ _, fun h => ?_⟩, rfl⟩
    rcases live with hl | hl <;> exact absurd (hl.symm.trans h) nofun

variable {id : String}

omit [DecidableEq P] in
theorem Change.later (h : Change codec s s') (hr : s.jobs.find? id = some r) :
    ∃ r', s'.jobs.find? id = some r' ∧ r.Later r' := by
  have hput : ∀ {q q' : HubJob P R T} {events : List (HubEvent T)}, s.jobs.find? q.id = some q →
      q'.id = q.id → q.Later q' → ∃ r', (s.put q' events).jobs.find? id = some r' ∧ r.Later r' := by
    intro q q' events hq hid hlater
    show ∃ r', (s.jobs.replace q').find? id = some r' ∧ r.Later r'
    rw [find?_replace (show s.jobs.find? q'.id = some q from hid.symm ▸ hq)]
    split_ifs with hk
    · have hkey : id = q.id := hk.trans hid
      obtain rfl : q = r := some.inj (hq.symm.trans (hkey ▸ hr))
      exact ⟨q', rfl, hlater⟩
    · exact ⟨r, hr, .refl r⟩
  cases h with
  | move q q' events found move => exact hput found move.id_eq move.later.1
  | requeue q now found dead _ =>
    exact hput found rfl ⟨rfl, rfl, le_rfl, fun h => by cases dead.symm.trans h⟩
  | insert c jobId now events _ _ _ _ => exact ⟨r, find?_insertOnce_of_find? hr, .refl r⟩
  | aside _ jobs => exact ⟨r, jobs ▸ hr, .refl r⟩

/-- **A row over a run.** -/
theorem later_run (codec : HubCodec P T K) (s : HubStore P R T) (ls : List (Label P R T))
    (hr : s.jobs.find? id = some r) :
    ∃ r', (Machine.run (HubStore.step codec) s ls).jobs.find? id = some r' ∧ r.Later r' := by
  have hchanges : ∀ {s s' : HubStore P R T}, Changes codec s s' → ∀ {r : HubJob P R T},
      s.jobs.find? id = some r → ∃ r', s'.jobs.find? id = some r' ∧ r.Later r' := by
    intro s s' h
    induction h with
    | refl => exact fun hr => ⟨_, hr, .refl _⟩
    | tail _ hc ih =>
      intro r hr
      obtain ⟨r₁, hr₁, hlater₁⟩ := ih hr
      obtain ⟨r₂, hr₂, hlater₂⟩ := hc.later hr₁
      exact ⟨r₂, hr₂, hlater₁.trans hlater₂⟩
  induction ls generalizing s r with
  | nil => exact ⟨r, hr, .refl r⟩
  | cons l ls ih =>
    obtain ⟨r₁, hr₁, hlater₁⟩ := hchanges (changes_step codec s l) hr
    obtain ⟨r₂, hr₂, hlater₂⟩ := ih _ hr₁
    exact ⟨r₂, hr₂, hlater₁.trans hlater₂⟩

omit [DecidableEq P] in
theorem sound_init (codec : HubCodec P T K) : Sound codec (HubStore.init : HubStore P R T) where
  rowsFenced r hr := by cases hr
  unknown _ _ := ⟨rfl, rfl⟩
  keys r hr := by cases hr
  bucket _ _ _ _ h := by cases h
  once _ _ _ _ := Nat.zero_le 1

omit [DecidableEq P] in
/-- **Writing the row of a job** keeps the ledger sound, if the row then agrees with the
history, and nothing happens to other jobs. -/
theorem Sound.put (h : Sound codec s) (found : s.jobs.find? r.id = some r) (hid : r'.id = r.id)
    (htenant : r'.tenantId = r.tenantId) (hkey : r'.idempotencyKey = r.idempotencyKey)
    (hfenced : (s.put r' events).Fenced r')
    (hothers : ∀ id, id ≠ r.id → events.filterMap (HubEvent.claimOf id) = [] ∧
      events.filterMap (HubEvent.commitOf id) = [])
    (hscheduled :
      ∀ tenant scheduleId interval bucket, .scheduled tenant scheduleId interval bucket ∉ events)
    : Sound codec (s.put r' events) := by
  have found' : s.jobs.find? r'.id = some r := hid.symm ▸ found
  have hrows : ∀ q, q ∈ (s.put r' events).jobs.rows ↔ q = r' ∨ (q ∈ s.jobs.rows ∧ q.id ≠ r'.id) :=
    fun q => mem_rows_replace found'
  have hclaims : ∀ id, id ≠ r.id → (s.put r' events).claims id = s.claims id ∧
      (s.put r' events).commits id = s.commits id := by
    intro id hne
    rw [HubStore.claims_put, HubStore.commits_put, (hothers id hne).1, (hothers id hne).2,
      append_nil, append_nil]
    exact ⟨rfl, rfl⟩
  -- every row of the new table stands for a row of the old one, with its tenant and key
  have hold : ∀ q ∈ (s.put r' events).jobs.rows, ∃ q₀ ∈ s.jobs.rows, q₀.id = q.id ∧
      q₀.tenantId = q.tenantId ∧ q₀.idempotencyKey = q.idempotencyKey := by
    intro q hq
    rcases (hrows q).mp hq with rfl | ⟨hq, _⟩
    · exact ⟨r, mem_of_find? found, hid.symm, htenant.symm, hkey.symm⟩
    · exact ⟨q, hq, rfl, rfl, rfl⟩
  constructor
  · intro q hq
    rcases (hrows q).mp hq with rfl | ⟨hq, hne⟩
    · exact hfenced
    · have hne : q.id ≠ r.id := fun he => hne (he.trans hid.symm)
      exact (h.rowsFenced q hq).frame (hclaims q.id hne).1 (hclaims q.id hne).2
  · intro id hnone
    have hne : id ≠ r'.id := by
      rintro rfl
      have hself : (s.jobs.replace r').find? r'.id = none := hnone
      rw [find?_replace_self found'] at hself
      cases hself
    have hnone' : s.jobs.find? id = none := by
      have hother : (s.jobs.replace r').find? id = none := hnone
      rwa [find?_replace found', if_neg hne] at hother
    rw [(hclaims id (hid ▸ hne)).1, (hclaims id (hid ▸ hne)).2]
    exact h.unknown id hnone'
  · intro q hq q' hq' ht hk
    obtain ⟨q₀, hq₀, hid₀, ht₀, hk₀⟩ := hold q hq
    obtain ⟨q₀', hq₀', hid₀', ht₀', hk₀'⟩ := hold q' hq'
    have hsame := h.keys q₀ hq₀ q₀' hq₀' (ht₀.trans (ht.trans ht₀'.symm))
      (hk₀.trans (hk.trans hk₀'.symm))
    have hids : q.id = q'.id := hid₀.symm.trans ((congrArg _ hsame).trans hid₀')
    exact some.inj ((find?_of_mem hq).symm.trans (hids ▸ find?_of_mem hq'))
  · intro tenant scheduleId interval bucket hmem
    rcases mem_append.mp hmem with hmem | hmem
    · obtain ⟨q, hq, ht, hk⟩ := h.bucket tenant scheduleId interval bucket hmem
      by_cases hne : q.id = r'.id
      · obtain rfl : q = r := some.inj
          ((find?_of_mem hq).symm.trans ((hne.trans hid) ▸ found))
        exact ⟨r', (hrows r').mpr (.inl rfl), htenant.trans ht, hkey.trans hk⟩
      · exact ⟨q, (hrows q).mpr (.inr ⟨hq, hne⟩), ht, hk⟩
    · exact absurd hmem (hscheduled tenant scheduleId interval bucket)
  · intro tenant scheduleId interval bucket
    show (s.log ++ events).count _ ≤ 1
    rw [count_append, count_eq_zero.mpr (hscheduled tenant scheduleId interval bucket)]
    exact h.once tenant scheduleId interval bucket

variable {now : T}

omit [DecidableEq P] in
/-- **A new job** has no history, and its key is free. -/
theorem Sound.insert (h : Sound codec s) {c : JobRequest P T} {jobId : String}
    (freshKey : s.findKey c.tenantId c.key = none) (freshId : s.jobs.find? jobId = none)
    (scheduled : events = [] ∨ ∃ scheduleId interval bucket, events =
      [.scheduled c.tenantId scheduleId interval bucket] ∧ c.key =
      scheduleKey codec scheduleId interval bucket)
    : Sound codec { s with
      jobs := s.jobs.insertOnce (c.job jobId now), log := s.log ++ events } := by
  set s' : HubStore P R T := { s with
    jobs := s.jobs.insertOnce (c.job jobId now), log := s.log ++ events } with hs'
  have hrows : ∀ q, q ∈ s'.jobs.rows ↔ q ∈ s.jobs.rows ∨ q = c.job jobId now :=
    fun q => mem_rows_insertOnce (r := c.job jobId now) freshId
  have hfree : ∀ q ∈ s.jobs.rows, q.tenantId = c.tenantId → q.idempotencyKey ≠ c.key := by
    intro q hq ht hk
    have hnone := List.find?_eq_none.mp freshKey q hq
    exact hnone (decide_eq_true ⟨ht, hk⟩)
  have hclaims : ∀ id, s'.claims id = s.claims id ∧ s'.commits id = s.commits id := by
    intro id
    have hnone : events.filterMap (HubEvent.claimOf id) = [] ∧
        events.filterMap (HubEvent.commitOf id) = [] := by
      rcases scheduled with rfl | ⟨scheduleId, interval, bucket, rfl, _⟩
      · exact ⟨rfl, rfl⟩
      · exact ⟨rfl, rfl⟩
    have hc : s'.claims id = s.claims id ++ events.filterMap (HubEvent.claimOf id) :=
      filterMap_append
    have hd : s'.commits id = s.commits id ++ events.filterMap (HubEvent.commitOf id) :=
      filterMap_append
    rw [hc, hd, hnone.1, hnone.2, append_nil, append_nil]
    exact ⟨rfl, rfl⟩
  constructor
  · intro q hq
    rcases (hrows q).mp hq with hq | rfl
    · exact (h.rowsFenced q hq).frame (hclaims q.id).1 (hclaims q.id).2
    · have hnew : s'.claims jobId = [] ∧ s'.commits jobId = [] := by
        rw [(hclaims jobId).1, (hclaims jobId).2]
        exact h.unknown jobId freshId
      refine ⟨Nat.zero_le _, ?_, ?_, ?_, ?_, nofun⟩
      · show ((s'.claims jobId).map Prod.snd).Pairwise (· < ·)
        rw [hnew.1]
        exact .nil
      · show ∀ c ∈ s'.claims jobId, c.2 ≤ 0
        rw [hnew.1]
        exact fun _ hc => by cases hc
      · show ((s'.commits jobId).map Prod.snd).Nodup
        rw [hnew.2]
        exact .nil
      · show ∀ c ∈ s'.commits jobId, c ∈ s'.claims jobId
        rw [hnew.2]
        exact fun _ hc => by cases hc
  · intro id hnone
    rw [(hclaims id).1, (hclaims id).2]
    refine h.unknown id (Option.eq_none_iff_forall_ne_some.mpr fun q hq => ?_)
    have hstill : s'.jobs.find? id = some q := find?_insertOnce_of_find? hq
    rw [hnone] at hstill
    cases hstill
  · intro q hq q' hq' ht hk
    rcases (hrows q).mp hq with hq | rfl
    · rcases (hrows q').mp hq' with hq' | rfl
      · exact h.keys q hq q' hq' ht hk
      · exact absurd hk (hfree q hq ht)
    · rcases (hrows q').mp hq' with hq' | rfl
      · exact absurd hk.symm (hfree q' hq' ht.symm)
      · rfl
  · intro tenant scheduleId interval bucket hmem
    rcases mem_append.mp hmem with hmem | hmem
    · obtain ⟨q, hq, ht, hk⟩ := h.bucket tenant scheduleId interval bucket hmem
      exact ⟨q, (hrows q).mpr (.inl hq), ht, hk⟩
    · rcases scheduled with rfl | ⟨scheduleId', interval', bucket', rfl, hkey⟩
      · cases hmem
      · obtain ⟨rfl, rfl, rfl, rfl⟩ := HubEvent.scheduled.inj (mem_singleton.mp hmem)
        exact ⟨c.job jobId now, (hrows _).mpr (.inr rfl), rfl, hkey⟩
  · intro tenant scheduleId interval bucket
    show (s.log ++ events).count _ ≤ 1
    rw [count_append]
    rcases scheduled with rfl | ⟨scheduleId', interval', bucket', rfl, hkey⟩
    · exact h.once tenant scheduleId interval bucket
    · by_cases hsame : HubEvent.scheduled tenant scheduleId interval bucket
          = .scheduled c.tenantId scheduleId' interval' bucket'
      · -- the job of an earlier event would have the key
        have hzero : s.log.count (.scheduled tenant scheduleId interval bucket) = 0 := by
          refine count_eq_zero.mpr fun hmem => ?_
          obtain ⟨rfl, rfl, rfl, rfl⟩ := HubEvent.scheduled.inj hsame
          obtain ⟨q, hq, ht, hk⟩ := h.bucket _ _ _ _ hmem
          exact hfree q hq ht (hk.trans hkey.symm)
        rw [hzero, Nat.zero_add]
        exact count_le_length
      · rw [count_singleton, if_neg (by simpa using Ne.symm hsame), Nat.add_zero]
        exact h.once tenant scheduleId interval bucket

omit [DecidableEq P] in
/-- **A change keeps the ledger sound.** -/
theorem Sound.change (h : Sound codec s) (hc : Change codec s s') : Sound codec s' := by
  cases hc with
  | move r r' events found move =>
    refine h.put found move.id_eq move.later.1.tenant move.later.2
      (move.fenced_put (h.rowsFenced r (mem_of_find? found)))
      (fun id hne => move.filterMap_eq_nil hne)
      fun tenant scheduleId interval bucket hmem => ?_
    cases move <;> simp at hmem
  | requeue r now found dead free =>
    refine h.put found rfl rfl rfl ?_ (fun _ _ => ⟨rfl, rfl⟩) fun _ _ _ _ hmem => by cases hmem
    exact (h.rowsFenced r (mem_of_find? found)).idle rfl (Nat.zero_le _) le_rfl nofun
  | insert c jobId now events freshKey freshId free scheduled =>
    exact h.insert freshKey freshId scheduled
  | aside _ jobs log cancellations =>
    have hclaims : ∀ id, s'.claims id = s.claims id ∧ s'.commits id = s.commits id := by
      intro id
      unfold HubStore.claims HubStore.commits
      rw [log]
      exact ⟨rfl, rfl⟩
    constructor
    · intro r hr
      rw [jobs] at hr
      exact (h.rowsFenced r hr).frame (hclaims r.id).1 (hclaims r.id).2
    · intro id hnone
      rw [jobs] at hnone
      rw [(hclaims id).1, (hclaims id).2]
      exact h.unknown id hnone
    · rw [jobs]
      exact h.keys
    · rw [jobs, log]
      exact h.bucket
    · rw [log]
      exact h.once

omit [DecidableEq P] in
theorem Sound.changes (h : Sound codec s) (hc : Changes codec s s') : Sound codec s' := by
  induction hc with
  | refl => exact h
  | tail _ hc ih => exact ih.change hc

theorem sound_after (codec : HubCodec P T K) (ls : List (Label P R T)) :
    Sound codec (HubStore.after codec ls) :=
  inv_run (Sound codec) (fun s l h => h.changes (changes_step codec s l)) (sound_init codec) ls

variable {c : CompleteCall P R}

omit [LinearOrder T] [DecidableEq P] in
/-- What `complete_and_enqueue` will enqueue, given that it accepts its arguments. -/
theorem next_of_ok {next : Option (JobRequest P T)} (h : c.next = .ok next) {kind key : String}
    {payload : P} (hkind : c.nextKind = some kind) (hpayload : c.nextPayload = some payload)
    (hkey : c.idempotencyKey = some key) :
    ∃ request, next = some request ∧ request.tenantId = c.ref.tenantId ∧
      request.payloadJson = payload ∧ hubText kind "next_kind" 128 = .ok request.kind ∧
      clientKey key = .ok request.key := by
  unfold CompleteCall.next at h
  rw [hkind] at h
  obtain ⟨kind', hkind', h⟩ := of_bind h
  rw [hpayload, hkey] at h
  obtain ⟨key', hkey', h⟩ := of_bind h
  obtain rfl := ok.inj h
  exact ⟨_, rfl, rfl, rfl, hkind', hkey'⟩

/-- **A completion and its follow-up** are both there, or nothing is. -/
theorem completeAndEnqueue_atomic {newId : String} {b : Bool}
    (h : completeAndEnqueue codec c newId now s = .ok (b, s')) :
    (b = false ∧ s' = s) ∨ ∃ ref, b = true ∧ identity c.ref = .ok ref ∧
      (∃ job, s'.jobs.find? ref.jobId = some job ∧ job.status = .succeeded ∧
        job.resultJson = some c.result) ∧
      ∀ kind payload key, c.nextKind = some kind → c.nextPayload = some payload →
        c.idempotencyKey = some key → ∃ followup ∈ s'.jobs.rows,
          followup.id ≠ ref.jobId ∧ followup.tenantId = ref.tenantId ∧
          followup.payloadJson = payload ∧ hubText kind "next_kind" 128 = .ok followup.kind ∧
          clientKey key = .ok followup.idempotencyKey := by
  obtain ⟨ref, href, next, hnext, ⟨rfl, rfl⟩ | ⟨r, s₁, rfl, hheld, hs₁, hcase⟩⟩ :=
    completeAndEnqueue_cases h
  · exact .inl ⟨rfl, rfl⟩
  · refine .inr ⟨ref, rfl, href, ?_, ?_⟩
    · have hfind := (held_eq_some.mp hheld).1
      have hid := key_of_find? hfind
      have hdone : s₁.jobs.find? ref.jobId = some (r.succeeded c.result now) := by
        rw [hs₁, ← hid]
        exact find?_replace_self
          (show s.jobs.find? (r.succeeded c.result now).id = some r from hid ▸ hfind)
      rcases hcase with ⟨_, rfl⟩ | ⟨request, followup, _, hjob, _⟩
      · exact ⟨_, hdone, rfl, rfl⟩
      · rcases enqueueJob_cases hjob with ⟨_, _, _, _, _, rfl⟩ | ⟨_, _, _, _, rfl⟩
        · exact ⟨_, hdone, rfl, rfl⟩
        · exact ⟨_, find?_insertOnce_of_find? hdone, rfl, rfl⟩
    · intro kind payload key hkind hpayload hkey
      obtain ⟨request, hrequest, htenant, hpay, hk, hkey⟩ := next_of_ok hnext hkind hpayload hkey
      rcases hcase with ⟨hnone, _⟩ | ⟨request', followup, hsome, hjob, hne⟩
      · rw [hrequest] at hnone
        cases hnone
      · obtain rfl : request = request' := some.inj (hrequest.symm.trans hsome)
        rcases enqueueJob_cases hjob with
          ⟨hfound, hkind', hpayload', _, _, rfl⟩ | ⟨_, hfresh, _, rfl, rfl⟩
        · obtain ⟨hmem, ht, hkey'⟩ := of_findKey hfound
          exact ⟨followup, hmem, hne, ht.trans htenant, hpayload'.trans hpay, hkind' ▸ hk,
            hkey' ▸ hkey⟩
        · exact ⟨request.job newId now, (mem_rows_insertOnce
            (r := request.job newId now) hfresh).mpr (.inr rfl), hne, htenant, hpay, hk, hkey⟩

/-- **Fencing of hub jobs**, over any sequence of calls by any workers. The tokens that
claims of a job hand out increase, only a worker that claimed the job ends the claim,
and none ends twice; the token of a job does not go down, and its attempts stay in
their budget; a completion is there with its follow-up or not at all; a job that has
succeeded stays as it is; and there is one job at most for a schedule, an interval and
a bucket. -/
theorem hub_fencing (codec : HubCodec P T K) (ls : List (Label P R T)) :
    (∀ id, (((HubStore.after codec ls).claims id).map Prod.snd).Pairwise (· < ·) ∧
      (((HubStore.after codec ls).commits id).map Prod.snd).Nodup ∧
      ∀ c ∈ (HubStore.after codec ls).commits id, c ∈ (HubStore.after codec ls).claims id) ∧
    (∀ r ∈ (HubStore.after codec ls).jobs.rows, r.attempts ≤ r.maxAttempts ∧
      ∀ ls', ∃ r', (HubStore.after codec (ls ++ ls')).jobs.find? r.id = some r' ∧
        r.leaseToken ≤ r'.leaseToken ∧ (r.status = .succeeded → r' = r)) ∧
    (∀ c newId now,
      (∀ e, completeAndEnqueue codec c newId now (HubStore.after codec ls) = .error e →
        HubStore.after codec (ls ++ [.complete c newId now]) = HubStore.after codec ls) ∧
      ∀ b s', completeAndEnqueue codec c newId now (HubStore.after codec ls) = .ok (b, s') →
        HubStore.after codec (ls ++ [.complete c newId now]) = s' ∧
        ((b = false ∧ s' = HubStore.after codec ls) ∨ ∃ ref, b = true ∧ identity c.ref = .ok ref ∧
            (∃ job, s'.jobs.find? ref.jobId = some job ∧ job.status = .succeeded ∧
              job.resultJson = some c.result) ∧
            ∀ kind payload key, c.nextKind = some kind → c.nextPayload = some payload →
              c.idempotencyKey = some key → ∃ followup ∈ s'.jobs.rows,
                followup.id ≠ ref.jobId ∧ followup.tenantId = ref.tenantId ∧
                followup.payloadJson = payload ∧
                hubText kind "next_kind" 128 = .ok followup.kind ∧
                clientKey key = .ok followup.idempotencyKey)) ∧
    ∀ tenant scheduleId interval bucket,
      (HubStore.after codec ls).log.count (.scheduled tenant scheduleId interval bucket) ≤ 1 ∧
      ∀ r ∈ (HubStore.after codec ls).jobs.rows, ∀ r' ∈ (HubStore.after codec ls).jobs.rows,
        r.tenantId = tenant → r'.tenantId = tenant →
        r.idempotencyKey = scheduleKey codec scheduleId interval bucket →
        r'.idempotencyKey = scheduleKey codec scheduleId interval bucket → r = r' := by
  have hsound := sound_after codec ls
  refine ⟨fun id => ?_, fun r hr => ⟨(hsound.rowsFenced r hr).budget, fun ls' => ?_⟩, ?_, ?_⟩
  · cases hfind : (HubStore.after codec ls).jobs.find? id with
    | none =>
      obtain ⟨hclaims, hcommits⟩ := hsound.unknown id hfind
      rw [hclaims, hcommits]
      exact ⟨.nil, .nil, fun _ hc => by cases hc⟩
    | some r =>
      obtain rfl := key_of_find? hfind
      have hfenced := hsound.rowsFenced r (mem_of_find? hfind)
      exact ⟨hfenced.increasing, hfenced.once, hfenced.owned⟩
  · rw [show HubStore.after codec (ls ++ ls')
      = Machine.run (HubStore.step codec) (HubStore.after codec ls) ls' from run_append _ _ _ _]
    obtain ⟨r', hr', hlater⟩ := later_run codec _ ls' (find?_of_mem hr)
    exact ⟨r', hr', hlater.token, hlater.absorbed⟩
  · intro c newId now
    have hstep : HubStore.after codec (ls ++ [.complete c newId now])
        = (HubStore.after codec ls).commit
          (completeAndEnqueue codec c newId now (HubStore.after codec ls)) :=
      run_concat _ _ _ _
    refine ⟨fun e he => ?_, fun b s' h => ⟨?_, completeAndEnqueue_atomic h⟩⟩
    · rw [hstep, he]
      rfl
    · rw [hstep, h]
      rfl
  · intro tenant scheduleId interval bucket
    refine ⟨hsound.once tenant scheduleId interval bucket, fun r hr r' hr' ht ht' hk hk' => ?_⟩
    exact hsound.keys r hr r' hr' (ht.trans ht'.symm) (hk.trans hk'.symm)

end Changes

end Hub

end Qt
