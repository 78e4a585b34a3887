import QuantTrading.HubFencing

/-!
# Cancelled runs

Which jobs are of a run is decided twice. Python reads the `pipeline_id` of a
payload, or else the id of the job, and takes its text for the id of the run;
SQLite selects the jobs whose `pipeline_id` is that text. For a text the two agree,
and then a cancellation is final: the jobs of the run that were not done are dead,
and since nothing that brings a job to life passes the check for cancelled runs,
the jobs of the run are from then on the same rows.

For other values they need not agree: no number is equal to a text for SQLite, so
that a run whose id is a number keeps its jobs when it is cancelled.
-/

namespace Qt

namespace Hub

open Except List Table

variable {P R T K : Type} [DecidableEq P] [LinearOrder T]

/-! ## The jobs of a run -/

variable (codec : HubCodec P T K)

/-- The run of a payload and an id: the `pipeline_id`, or else the id. -/
def runOf (payload : P) (jobId : String) : JsonValue T K :=
  (codec.pipelineId payload).getD (.text jobId)

def HubJob.InRun (r : HubJob P R T) (tenant : String) (run : JsonValue T K) : Prop :=
  r.tenantId = tenant ∧ runOf codec r.payloadJson r.id = run

/-- The check for cancelled runs knows the run by its text. -/
def Recognised (run : JsonValue T K) : Prop :=
  ∀ value, run.bind = .ok value → textColumnEq codec (run.str codec) value = true

/-- The statement of `cancel_run` selects every job of the run that is not done. -/
def HubStore.Reaches (s : HubStore P R T) (tenant : String) (run : JsonValue T K) : Prop :=
  ∀ r ∈ s.jobs.rows, r.InRun codec tenant run → (r.status = .queued ∨ r.status = .running) →
    r.Selected codec tenant (run.str codec)

omit [DecidableEq P] [LinearOrder T] in
/-- **A text is read alike** by the check and by the statement. -/
theorem recognised_text (s : String) : Recognised codec (.text s : JsonValue T K) := by
  intro value h
  obtain rfl := ok.inj h
  exact decide_eq_true rfl

omit [DecidableEq P] [LinearOrder T] in
theorem reaches_text (s : HubStore P R T) (tenant run : String) :
    s.Reaches codec tenant (.text run) := by
  rintro r _ ⟨htenant, hrun⟩ hlive
  refine ⟨htenant, ?_, hlive⟩
  unfold runOf at hrun
  cases hpipeline : codec.pipelineId r.payloadJson with
  | none =>
    rw [hpipeline, Option.getD_none] at hrun
    exact .inl (JsonValue.text.inj hrun)
  | some value =>
    rw [hpipeline, Option.getD_some] at hrun
    rw [hrun]
    exact .inr rfl

variable {codec}

omit [DecidableEq P] [LinearOrder T] in
/-- **What passes the check is of no cancelled run.** -/
theorem not_inRun_of_check {s : HubStore P R T} {tenant jobId : String} {payload : P}
    {run : JsonValue T K} (h : checkNotCancelled codec s tenant jobId payload = .ok ())
    (hrecognised : Recognised codec run) (hcancelled : (tenant, run.str codec) ∈ s.cancellations) :
    runOf codec payload jobId ≠ run := by
  rintro rfl
  unfold checkNotCancelled at h
  obtain ⟨value, hvalue, h⟩ := of_bind h
  exact raiseIf_eq_ok.mp h ⟨_, hcancelled, rfl, hrecognised value hvalue⟩

/-! ## After a cancellation -/

/-- **The run is over**: it is cancelled, and no job of it is queued or running. -/
structure HubStore.RunOver (codec : HubCodec P T K) (s : HubStore P R T) (tenant : String)
    (run : JsonValue T K) : Prop where
  cancelled : (tenant, run.str codec) ∈ s.cancellations
  idle : ∀ r ∈ s.jobs.rows, r.InRun codec tenant run → r.status ≠ .queued ∧ r.status ≠ .running

section Changes

variable {codec : HubCodec P T K} {s s' : HubStore P R T} {tenant : String} {run : JsonValue T K}

omit [DecidableEq P] in
theorem HubJob.Move.live {r r' : HubJob P R T} {events : List (HubEvent T)} (h : r.Move r' events) :
    r.status = .queued ∨ r.status = .running := by
  cases h with
  | claim queued => exact .inl queued
  | renew running | succeed running | fail running | defer running | expire running =>
    exact .inr running
  | cancel live => exact live

variable {q : HubJob P R T}

omit [DecidableEq P] in
/-- **Nothing happens to the jobs of a run that is over.** -/
theorem HubStore.RunOver.mem_iff (h : s.RunOver codec tenant run)
    (hrecognised : Recognised codec run) (hc : Change codec s s') (hq : q.InRun codec tenant run) :
    q ∈ s'.jobs.rows ↔ q ∈ s.jobs.rows := by
  -- a row that is written is not of the run, before or after
  have hput : ∀ {r r' : HubJob P R T} {events : List (HubEvent T)},
      s.jobs.find? r.id = some r → r'.id = r.id → r.Later r' → ¬ r.InRun codec tenant run →
        (q ∈ (s.put r' events).jobs.rows ↔ q ∈ s.jobs.rows) := by
    intro r r' events found hid hlater hout
    have hout' : ¬ r'.InRun codec tenant run := by
      rintro ⟨ht, hr⟩
      rw [hlater.payload, hid] at hr
      exact hout ⟨hlater.tenant.symm.trans ht, hr⟩
    show q ∈ (s.jobs.replace r').rows ↔ _
    rw [mem_rows_replace (show s.jobs.find? r'.id = some r from hid.symm ▸ found)]
    constructor
    · rintro (rfl | ⟨hmem, _⟩)
      · exact absurd hq hout'
      · exact hmem
    · intro hmem
      refine .inr ⟨hmem, fun hsame => hout ?_⟩
      obtain rfl : q = r := Option.some.inj
        ((find?_of_mem hmem).symm.trans ((hsame.trans hid) ▸ found))
      exact hq
  cases hc with
  | move r r' events found move =>
    refine hput found move.id_eq move.later.1 fun hin => ?_
    obtain ⟨hqueued, hrunning⟩ := h.idle r (mem_of_find? found) hin
    exact move.live.elim hqueued hrunning
  | requeue r now found dead free =>
    refine hput found rfl ⟨rfl, rfl, le_rfl, fun hs => by cases dead.symm.trans hs⟩ ?_
    rintro ⟨rfl, hrun⟩
    exact not_inRun_of_check free hrecognised h.cancelled hrun
  | insert c jobId now events freshKey freshId free scheduled =>
    refine (mem_rows_insertOnce (r := c.job jobId now) freshId).trans ?_
    refine ⟨fun hmem => hmem.resolve_right ?_, .inl⟩
    rintro rfl
    obtain ⟨rfl, hrun⟩ := hq
    exact not_inRun_of_check free hrecognised h.cancelled hrun
  | aside _ jobs => rw [jobs]

omit [DecidableEq P] in
theorem Change.cancellations (hc : Change codec s s') :
    ∀ c ∈ s.cancellations, c ∈ s'.cancellations := by
  cases hc with
  | move | requeue | insert => exact fun _ h => h
  | aside _ _ _ cancellations => exact cancellations

omit [DecidableEq P] in
theorem HubStore.RunOver.change (h : s.RunOver codec tenant run)
    (hrecognised : Recognised codec run) (hc : Change codec s s') :
    s'.RunOver codec tenant run where
  cancelled := hc.cancellations _ h.cancelled
  idle q hq hin := h.idle q ((h.mem_iff hrecognised hc hin).mp hq) hin

/-- **The jobs of a run that is over stay as they are**, over any run of calls. -/
theorem HubStore.RunOver.mem_run_iff (h : s.RunOver codec tenant run)
    (hrecognised : Recognised codec run) (ls : List (Label P R T)) (hq : q.InRun codec tenant run) :
    q ∈ (Machine.run (HubStore.step codec) s ls).jobs.rows ↔ q ∈ s.jobs.rows := by
  have hchanges : ∀ {s s' : HubStore P R T}, Changes codec s s' → s.RunOver codec tenant run →
      s'.RunOver codec tenant run ∧ (q ∈ s'.jobs.rows ↔ q ∈ s.jobs.rows) := by
    intro s s' hcs h
    induction hcs with
    | refl => exact ⟨h, Iff.rfl⟩
    | tail _ hc ih =>
      exact ⟨ih.1.change hrecognised hc, (ih.1.mem_iff hrecognised hc hq).trans ih.2⟩
  induction ls generalizing s with
  | nil => exact Iff.rfl
  | cons l ls ih =>
    obtain ⟨hover, hmem⟩ := hchanges (changes_step codec s l) h
    exact (ih hover).trans hmem

omit [DecidableEq P] [LinearOrder T] in
/-- The rows after some of them were written one by one. -/
theorem mem_foldl_put {f : HubJob P R T → HubJob P R T} (hf : ∀ r, (f r).id = r.id)
    {rows : List (HubJob P R T)} (hnodup : (rows.map HubJob.id).Nodup)
    (hfound : ∀ r ∈ rows, s.jobs.find? r.id = some r) :
    q ∈ (rows.foldl (fun s row => s.put (f row) []) s).jobs.rows ↔
      (q ∈ s.jobs.rows ∧ q.id ∉ rows.map HubJob.id) ∨ ∃ r ∈ rows, q = f r := by
  induction rows generalizing s with
  | nil => simp
  | cons r rows ih =>
    rw [map_cons, nodup_cons] at hnodup
    have hr := hfound r mem_cons_self
    have hr' : s.jobs.find? (f r).id = some r := (hf r).symm ▸ hr
    have hrest : ∀ r' ∈ rows, (s.put (f r) []).jobs.find? r'.id = some r' := by
      intro r' hmem
      have hne : r'.id ≠ (f r).id := by
        rw [hf r]
        exact fun h => hnodup.1 (h ▸ mem_map_of_mem hmem)
      show (s.jobs.replace (f r)).find? r'.id = some r'
      rw [find?_replace hr', if_neg hne]
      exact hfound r' (mem_cons_of_mem r hmem)
    rw [foldl_cons, ih hnodup.2 hrest, map_cons, mem_cons, not_or, exists_mem_cons_iff]
    show (q ∈ (s.jobs.replace (f r)).rows ∧ _) ∨ _ ↔ _
    rw [mem_rows_replace hr', hf r]
    constructor
    · rintro (⟨rfl | ⟨hmem, hne⟩, hnot⟩ | hex)
      · exact .inr (.inl rfl)
      · exact .inl ⟨hmem, hne, hnot⟩
      · exact .inr (.inr hex)
    · rintro (⟨hmem, hne, hnot⟩ | rfl | hex)
      · exact .inl ⟨.inr ⟨hmem, hne⟩, hnot⟩
      · exact .inl ⟨.inl rfl, by rw [hf r]; exact hnodup.1⟩
      · exact .inr hex

omit [DecidableEq P] in
/-- **What `cancel_run` leaves**: the selected rows cancelled, and the others as they
were. -/
theorem cancelRun_eq_ok {tenantId jobId : String} {now : T} {x : String × ℕ}
    (h : cancelRun codec tenantId jobId now s = .ok (x, s')) :
    ∃ tenant job, hubText tenantId "tenant_id" 128 = .ok tenant ∧
      hubText jobId "job_id" 128 = .ok job.id ∧ job ∈ s.jobs.rows ∧ job.tenantId = tenant ∧
      x.1 = (runOf codec job.payloadJson job.id).str codec ∧ (tenant, x.1) ∈ s'.cancellations ∧
      ∀ q, q ∈ s'.jobs.rows ↔ (q ∈ s.jobs.rows ∧ ¬ q.Selected codec tenant x.1) ∨
        ∃ r ∈ s.jobs.rows, r.Selected codec tenant x.1 ∧ q = r.cancelled now := by
  unfold cancelRun at h
  simp only [bind_eq_ok] at h
  obtain ⟨tenant, htenant, id, hid, job, hget, h⟩ := h
  obtain ⟨rfl, rfl⟩ := Prod.mk.inj (ok.inj h)
  obtain ⟨hfind, rfl⟩ := get_eq_ok.mp hget
  obtain rfl := key_of_find? hfind
  set selected := s.jobs.rows.filter fun r => r.Selected codec job.tenantId (job.runId codec)
  have hmem : ∀ r, r ∈ selected ↔
      r ∈ s.jobs.rows ∧ r.Selected codec job.tenantId (job.runId codec) := by
    intro r
    rw [mem_filter, decide_eq_true_eq]
  have hcancellations : ∀ (rows : List (HubJob P R T)) (s : HubStore P R T),
      (rows.foldl (fun s row => s.put (row.cancelled now) []) s).cancellations
        = s.cancellations := by
    intro rows
    induction rows with
    | nil => exact fun _ => rfl
    | cons r rows ih => exact fun s => ih _
  refine ⟨job.tenantId, job, htenant, hid, mem_of_find? hfind, rfl, rfl, ?_, fun q => ?_⟩
  · rw [hcancellations]
    exact mem_insert_self
  · have hnodup : (selected.map HubJob.id).Nodup := s.jobs.nodup.sublist (filter_sublist.map _)
    refine (mem_foldl_put (s := { s with
        cancellations := s.cancellations.insert (job.tenantId, job.runId codec) })
      (f := (·.cancelled now)) (fun _ => rfl) hnodup
      fun r hr => find?_of_mem ((hmem r).mp hr).1).trans (or_congr ?_ ?_)
    · refine and_congr_right fun hq => not_congr ?_
      constructor
      · intro hmap
        obtain ⟨r, hr, hids⟩ := mem_map.mp hmap
        obtain ⟨hrows, hsel⟩ := (hmem r).mp hr
        obtain rfl : r = q := Option.some.inj
          ((find?_of_mem hrows).symm.trans (hids ▸ find?_of_mem hq))
        exact hsel
      · exact fun hsel => mem_map_of_mem ((hmem q).mpr ⟨hq, hsel⟩)
    · simp only [hmem, and_assoc]

end Changes

/-- **Run cancellation is final**, for the run of a job as soon as the check for
cancelled runs knows the run by its text and the cancellation reaches the jobs of it
that are not done – which is so whenever the payload has a text for its `pipeline_id`,
or none; and where it does not reach one, that job is still there. The jobs of the run are then
dead, or had succeeded before; and over any further calls they stay exactly the rows that they are,
so that none of them is queued, runs or succeeds any more, and no other job of the run appears. -/
theorem run_cancellation (codec : HubCodec P T K) (ls : List (Label P R T))
    {tenantId jobId : String} {now : T} {x : String × ℕ} {s' : HubStore P R T}
    (h : cancelRun codec tenantId jobId now (HubStore.after codec ls) = .ok (x, s')) :
    ∃ tenant job, hubText tenantId "tenant_id" 128 = .ok tenant ∧
      hubText jobId "job_id" 128 = .ok job.id ∧ job ∈ (HubStore.after codec ls).jobs.rows ∧
      job.InRun codec tenant (runOf codec job.payloadJson job.id) ∧
      ((∀ value ∈ codec.pipelineId job.payloadJson, ∃ s, value = .text s) →
        Recognised codec (runOf codec job.payloadJson job.id) ∧
        (HubStore.after codec ls).Reaches codec tenant (runOf codec job.payloadJson job.id)) ∧
      ((HubStore.after codec ls).Reaches codec tenant (runOf codec job.payloadJson job.id) ↔
        ∀ q ∈ s'.jobs.rows, q.InRun codec tenant (runOf codec job.payloadJson job.id) →
          ¬ (q.status = .queued ∨ q.status = .running)) ∧
      (Recognised codec (runOf codec job.payloadJson job.id) →
        (HubStore.after codec ls).Reaches codec tenant (runOf codec job.payloadJson job.id) →
        (∀ q ∈ s'.jobs.rows, q.InRun codec tenant (runOf codec job.payloadJson job.id) →
          q.status = .deadletter ∨
            (q.status = .succeeded ∧ q ∈ (HubStore.after codec ls).jobs.rows)) ∧
        ∀ (ls' : List (Label P R T)) (q : HubJob P R T),
          q.InRun codec tenant (runOf codec job.payloadJson job.id) →
          (q ∈ (Machine.run (HubStore.step codec) s' ls').jobs.rows ↔ q ∈ s'.jobs.rows)) := by
  obtain ⟨tenant, job, htenant, hjob, hmem, rfl, hrun, hcancelled, hrows⟩ := cancelRun_eq_ok h
  refine ⟨job.tenantId, job, htenant, hjob, hmem, ⟨rfl, rfl⟩, fun htext => ?_,
    ⟨fun hreaches q hq hin hlive => ?_, fun hidle q hq hin hlive => ?_⟩,
    fun hrecognised hreaches => ?_⟩
  · have hread : ∃ s, runOf codec job.payloadJson job.id = .text s := by
      unfold runOf
      cases hpipeline : codec.pipelineId job.payloadJson with
      | none => exact ⟨_, rfl⟩
      | some value => exact htext value hpipeline
    obtain ⟨s, hs⟩ := hread
    rw [hs]
    exact ⟨recognised_text codec s, reaches_text codec _ _ s⟩
  · rw [hrun] at hrows
    rcases (hrows q).mp hq with ⟨hold, hnot⟩ | ⟨r, _, _, rfl⟩
    · exact hnot (hreaches q hold hin hlive)
    · exact hlive.elim nofun nofun
  · by_contra hnot
    rw [← hrun] at hnot
    exact hidle q ((hrows q).mpr (.inl ⟨hq, hnot⟩)) hin hlive
  · rw [hrun] at hcancelled hrows
    have hdone : ∀ q ∈ s'.jobs.rows,
        q.InRun codec job.tenantId (runOf codec job.payloadJson job.id) → q.status = .deadletter ∨
            (q.status = .succeeded ∧ q ∈ (HubStore.after codec ls).jobs.rows) := by
      intro q hq hin
      rcases (hrows q).mp hq with ⟨hold, hnot⟩ | ⟨r, _, _, rfl⟩
      · have hidle : ¬ (q.status = .queued ∨ q.status = .running) :=
          fun hlive => hnot (hreaches q hold hin hlive)
        cases hstatus : q.status with
        | queued => exact absurd (.inl hstatus) hidle
        | running => exact absurd (.inr hstatus) hidle
        | succeeded => exact .inr ⟨rfl, hold⟩
        | deadletter => exact .inl rfl
      · exact .inl rfl
    refine ⟨hdone, fun ls' q hq => ?_⟩
    have hover : s'.RunOver codec job.tenantId (runOf codec job.payloadJson job.id) := by
      refine ⟨hcancelled, fun q hq hin => ?_⟩
      rcases hdone q hq hin with hs | ⟨hs, _⟩ <;> rw [hs] <;> exact ⟨nofun, nofun⟩
    exact hover.mem_run_iff hrecognised ls' hq

/-! ## Two runs -/

/-- Times are numbers here, and a payload is its `pipeline_id`. -/
def sampleCodec : HubCodec (Option (JsonValue ℕ Unit)) ℕ Unit where
  pipelineId := id
  realStr x := toString x ++ ".0"
  realText x := toString x ++ ".0"
  compositeStr _ := "{}"
  compositeText _ := "{}"
  num := id
  plus x y := x + y
  minus x y := x - y
  bucketOf x y := (x / y : ℕ)
  times n x := n.toNat * x
  like _ _ := false

def sampleJob (run : JsonValue ℕ Unit) : Label (Option (JsonValue ℕ Unit)) Unit ℕ :=
  .enqueue ⟨"owner", "research", some run, "key", none, 3⟩ "job" 1

/-- A claim after the cancellation. -/
def sampleClaim : Label (Option (JsonValue ℕ Unit)) Unit ℕ :=
  .claim ⟨"owner", "worker", 60, none⟩ 3

/-- A run with a text for its id is over when it is cancelled. -/
theorem run_cancellation_text : (HubStore.after sampleCodec
        [sampleJob (.text "run"), .cancelRun "owner" "job" 2, sampleClaim]).jobs.rows.map
          (·.status) = [.deadletter] ∧
      ∃ x s', cancelRun sampleCodec "owner" "job" 2
          (HubStore.after sampleCodec [sampleJob (.text "run")]) = .ok (x, s') ∧
        ∃ tenant job, hubText "owner" "tenant_id" 128 = .ok tenant ∧
          hubText "job" "job_id" 128 = .ok job.id ∧
          job ∈ (HubStore.after sampleCodec [sampleJob (.text "run")]).jobs.rows ∧
          job.InRun sampleCodec tenant (runOf sampleCodec job.payloadJson job.id) := by
  refine ⟨by decide +kernel, ?_⟩
  have hok : (cancelRun sampleCodec "owner" "job" 2
      (HubStore.after sampleCodec [sampleJob (.text "run")])).isOk = true := by
    decide +kernel
  cases h : cancelRun sampleCodec "owner" "job" 2
      (HubStore.after sampleCodec [sampleJob (.text "run")]) with
  | error e =>
    rw [h] at hok
    cases hok
  | ok y =>
    obtain ⟨tenant, job, htenant, hjob, hmem, hin, _⟩ := run_cancellation sampleCodec _ h
    exact ⟨y.1, y.2, rfl, tenant, job, htenant, hjob, hmem, hin⟩

/-- **A run with a number for its id goes on**: the cancellation is recorded under the
text of the number, selects no job, and the job is claimed afterwards. -/
theorem number_goes_on : (cancelRun sampleCodec "owner" "job" 2
        (HubStore.after sampleCodec [sampleJob (.integer 7)])).map (·.1) = .ok ("7", 0) ∧
      (HubStore.after sampleCodec
        [sampleJob (.integer 7), .cancelRun "owner" "job" 2, sampleClaim]).jobs.rows.map
          (·.status) = [.running] := by
  decide +kernel

end Hub

end Qt
