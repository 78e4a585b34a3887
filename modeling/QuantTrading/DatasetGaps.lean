import QuantTrading.DatasetRegistry

/-!
# Gaps of a dataset

The gaps that the registry measures are the holes of the grid that the timestamps
go up (`Measures`): one timestamp keeps this, so all do. The batches of a table are
passes over its rows, and a pass over the rows of a table is the passes over its
parts, with the step from one to the next (`Passes.part`). On this rest the two
results on verification: what a registration publishes is verified, and so is
what is put together from published parts, with the gaps of the whole.
-/

namespace Qt.Datasets

open Except Grid List Function

variable {B : Type} {host : Host B} {d : ℤ}

/-! ## Gaps and holes -/

/-- The first and the last missing timestamp. -/
def DataGap.bounds (g : DataGap) : ℤ × ℤ := (g.startNs, g.endNs)

/-- A gap counts the points of the grid that are in it. -/
def Counted (d : ℤ) (gaps : List DataGap) : Prop := ∀ g ∈ gaps, g.missingCount = points d g.bounds

variable {gaps : List DataGap}

theorem Counted.append {gaps' : List DataGap} (h : Counted d gaps) (h' : Counted d gaps') :
    Counted d (gaps ++ gaps') := fun g hg => (mem_append.mp hg).elim (h g) (h' g)

variable {c : ℤ}

/-- **Neighbours without an exception** are a step of the grid, and the gap is its hole. -/
theorem gap_spec (hd : 0 < d) {p : ℤ} (h : gap p c (some d) = .ok gaps) :
    Step d (p, c) ∧ gaps.map DataGap.bounds = hole d (p, c) ∧ Counted d gaps := by
  unfold gap at h
  obtain ⟨-, h⟩ := of_raiseIf h
  obtain ⟨hgrid, h⟩ := of_raiseIf h
  obtain ⟨hpos, hmod⟩ := not_or.mp hgrid
  have hstep : Step d (p, c) := by
    refine ⟨?_, Int.dvd_of_emod_eq_zero (not_not.mp hmod)⟩
    show p < c
    omega
  refine ⟨hstep, ?_⟩
  unfold hole
  split_ifs at h with hlong
  · rw [if_pos (by exact hlong)]
    obtain ⟨g, hg, h⟩ := of_bind h
    obtain rfl := ok.inj h
    unfold DataGap.validate at hg
    split_ifs at hg with hvalid
    obtain rfl := ok.inj hg
    refine ⟨rfl, fun g hg => ?_⟩
    obtain rfl := mem_singleton.mp hg
    show (c - p) / d - 1 = (c - d - (p + d)) / d + 1
    have hlen : c - d - (p + d) = (c - p) + d * (-2) := by ring
    rw [hlen, Int.add_mul_ediv_left _ _ hd.ne']
    ring
  · rw [if_neg (by exact hlong)]
    obtain rfl := ok.inj h
    exact ⟨rfl, fun g hg => by cases hg⟩

/-! ## Timestamps -/

/-- **What has been measured** of the timestamps that have been read. -/
structure Measures (d : ℤ) (times : List ℤ) (s : Times) : Prop where
  rows : s.rows = times.length
  first : s.first = times.head?
  previous : s.previous = times.getLast?
  steps : Steps d times
  gaps : s.gaps.map DataGap.bounds = holes d times
  counted : Counted d s.gaps

theorem Measures.nil : Measures d [] {} :=
  ⟨rfl, rfl, rfl, (fun _ h => by cases h), rfl, (fun _ h => by cases h)⟩

variable {s' : Times}

/-- **One timestamp** more. -/
theorem Measures.timeRow (hd : 0 < d) {times : List ℤ} {s : Times} (hs : Measures d times s)
    (h : timeRow (some d) s c = .ok s') : Measures d (times ++ [c]) s' := by
  obtain ⟨-, h⟩ := of_raiseIf h
  rcases eq_nil_or_concat times with rfl | ⟨l, a, rfl⟩
  · have hprevious : s.previous = none := hs.previous
    rw [hprevious] at h
    obtain rfl := ok.inj h
    exact ⟨by simp [hs.rows], rfl, rfl, steps_singleton c, hs.gaps, hs.counted⟩
  · rw [concat_eq_append] at hs ⊢
    have hprevious : s.previous = some a := by rw [hs.previous, getLast?_concat]
    rw [hprevious] at h
    obtain ⟨gaps, hgap, h⟩ := of_bind h
    obtain rfl := ok.inj h
    obtain ⟨hstep, hbounds, hcounted⟩ := gap_spec hd hgap
    refine ⟨?_, ?_, ?_, ?_, ?_, hs.counted.append hcounted⟩
    · show s.rows + 1 = _
      rw [hs.rows, @length_append _ (l ++ [a])]
      rfl
    · show s.first = _
      rw [hs.first]
      cases l with
      | nil => rfl
      | cons => rfl
    · rw [getLast?_concat]
    · exact steps_append.mpr ⟨hs.steps, hstep, steps_singleton c⟩
    · show (s.gaps ++ gaps).map DataGap.bounds = _
      rw [map_append, hs.gaps, hbounds, holes_append, holes_singleton, append_nil]

/-- **All timestamps.** -/
theorem Measures.run (hd : 0 < d) {seen times : List ℤ} {s : Times} (hs : Measures d seen s)
    (h : times.foldlM (Datasets.timeRow (some d)) s = .ok s') : Measures d (seen ++ times) s' := by
  induction times generalizing seen s with
  | nil =>
    obtain rfl := ok.inj h
    rw [append_nil]
    exact hs
  | cons c times ih =>
    rw [foldlM_cons] at h
    obtain ⟨m, hm, h⟩ := of_bind h
    rw [append_cons]
    exact ih (hs.timeRow hd hm) h

/-! ## Passes over the rows -/

/-- One row, for its timestamp. -/
def timeStep (md : Metadata) (type : ArrowType) (s : Times) (row : Row) :
    Except DatasetError Times :=
  castTime type (row md.timestampColumn) >>= timeRow md.expectedIntervalNs s

/-- One row, for its time of receipt. -/
def receiptStep (s : Receipts) (row : Row) : Except DatasetError Receipts :=
  castReceived (row "received_ts_ns") >>= receiptRow s

/-- **The passes over the rows** of a batch, or of several. -/
structure Passes (host : Host B) (md : Metadata) (schema : List Field) (type : ArrowType)
    (rows : List Row) (s s' : Inspection) : Prop where
  times : rows.foldlM (timeStep md type) s.times = .ok s'.times
  receipts : md.availability = "received" → rows.foldlM receiptStep s.receipts = .ok s'.receipts
  unreceived : md.availability ≠ "received" → s'.receipts = s.receipts
  envelopes : ∀ identity ∈ md.eventIdentity, ∀ row ∈ rows, eventEnvelope host identity row = .ok ()
  finite : ∀ row ∈ rows, FiniteRow schema row

/-- The times of receipt are integers, if they are read. -/
def ReceivedType (md : Metadata) (schema : List Field) : Prop :=
  md.availability = "received" → columnType schema "received_ts_ns" = some .integer

variable {md : Metadata} {schema : List Field} {type : ArrowType}

theorem castTime_null (type : ArrowType) : castTime type .null = .error unreadable := by
  cases type with
  | integer => rfl
  | timestamp => rfl
  | floating => rfl
  | other => rfl

variable {batch : List Row}

/-- **The timestamps of a batch, counted**, are the pass over its rows. -/
theorem batchTimes_foldlM_eq_ok {s : Times} :
    (batchTimes md type batch >>= fun times => times.foldlM (timeRow md.expectedIntervalNs) s)
      = .ok s' ↔ batch.foldlM (timeStep md type) s = .ok s' := by
  rw [show timeStep md type = fun s row =>
    castTime type (row md.timestampColumn) >>= timeRow md.expectedIntervalNs s from rfl,
    ← mapM_bind_foldlM_eq_ok]
  by_cases hnull : ∃ row ∈ batch, row md.timestampColumn = .null
  · unfold batchTimes raiseIf
    rw [if_pos hnull]
    refine ⟨(fun h => by cases h), fun h => ?_⟩
    obtain ⟨times, htimes, -⟩ := of_bind h
    obtain ⟨row, hrow, hcell⟩ := hnull
    obtain ⟨n, hn⟩ := exists_of_mapM_eq_ok htimes hrow
    rw [hcell, castTime_null] at hn
    cases hn
  · unfold batchTimes
    rw [raiseIf_bind_of_not hnull]

/-- **The times of receipt of a batch, counted**, are the pass over its rows. -/
theorem batchReceived_foldlM_eq_ok {s s' : Receipts} :
    (batchReceived schema batch >>= fun received => received.foldlM receiptRow s) = .ok s'
      ↔ columnType schema "received_ts_ns" = some .integer
        ∧ batch.foldlM receiptStep s = .ok s' := by
  rw [show receiptStep = fun s row => castReceived (row "received_ts_ns") >>= receiptRow s from rfl,
    ← mapM_bind_foldlM_eq_ok]
  unfold batchReceived
  constructor
  · intro h
    obtain ⟨received, hreceived, h⟩ := of_bind h
    obtain ⟨hcheck, hreceived⟩ := of_raiseIf hreceived
    exact ⟨not_not.mp (not_or.mp hcheck).2, bind_eq_ok.mpr ⟨received, hreceived, h⟩⟩
  · rintro ⟨htype, h⟩
    obtain ⟨received, hreceived, -⟩ := of_bind h
    have hnull : ¬ ∃ row ∈ batch, row "received_ts_ns" = .null := by
      rintro ⟨row, hrow, hcell⟩
      obtain ⟨n, hn⟩ := exists_of_mapM_eq_ok hreceived hrow
      rw [hcell] at hn
      cases hn
    rw [raiseIf_bind_of_not (not_or.mpr ⟨hnull, not_not.mpr htype⟩)]
    exact h

/-- **The pass over a batch for its receipts** is the pass over its rows, where they are read. -/
theorem receiptsBatch_eq_ok_iff {s s' : Receipts} : receiptsBatch md schema s batch = .ok s'
      ↔ ReceivedType md schema
        ∧ (md.availability = "received" → batch.foldlM receiptStep s = .ok s')
        ∧ (md.availability ≠ "received" → s' = s) := by
  unfold receiptsBatch ReceivedType
  by_cases hreceived : md.availability = "received"
  · rw [if_pos hreceived, batchReceived_foldlM_eq_ok]
    exact ⟨fun h => ⟨fun _ => h.1, fun _ => h.2, fun hne => absurd hreceived hne⟩,
      fun h => ⟨h.1 hreceived, h.2.1 hreceived⟩⟩
  · rw [if_neg hreceived]
    exact ⟨fun h => ⟨fun he => absurd he hreceived, fun he => absurd he hreceived,
      fun _ => (ok.inj h).symm⟩, fun h => congrArg _ (h.2.2 hreceived).symm⟩

theorem envelopesBatch_eq_ok_iff : envelopesBatch host md batch = .ok ()
      ↔ ∀ identity ∈ md.eventIdentity, ∀ row ∈ batch, eventEnvelope host identity row = .ok () := by
  unfold envelopesBatch
  cases md.eventIdentity with
  | none =>
    constructor
    · intro _ identity hid
      cases hid
    · intro _
      rfl
  | some identity =>
    refine forM_eq_ok.trans ⟨fun h id hid => ?_, fun h => h identity rfl⟩
    obtain rfl := Option.some.inj hid
    exact h

variable {s : Inspection}

theorem inspectBatch_eq_ok_iff {s' : Inspection} : inspectBatch host md schema type s batch = .ok s'
      ↔ ReceivedType md schema ∧ Passes host md schema type batch s s' := by
  unfold inspectBatch
  constructor
  · intro h
    obtain ⟨times, htimes, h⟩ := of_bind h
    obtain ⟨counted, hcounted, h⟩ := of_bind h
    obtain ⟨receipts, hreceipts, h⟩ := of_bind h
    obtain ⟨_, henvelopes, h⟩ := of_bind h
    obtain ⟨hfinite, h⟩ := of_raiseIf h
    obtain rfl := ok.inj h
    obtain ⟨htype, hreceived, hunreceived⟩ := receiptsBatch_eq_ok_iff.mp hreceipts
    refine ⟨htype, ?_, hreceived, hunreceived, envelopesBatch_eq_ok_iff.mp henvelopes,
      not_not.mp hfinite⟩
    exact batchTimes_foldlM_eq_ok.mp (bind_eq_ok.mpr ⟨times, htimes, hcounted⟩)
  · rintro ⟨htype, hp⟩
    obtain ⟨times, htimes, hcounted⟩ := of_bind (batchTimes_foldlM_eq_ok.mpr hp.times)
    have hreceipts := receiptsBatch_eq_ok_iff.mpr ⟨htype, hp.receipts, hp.unreceived⟩
    have henvelopes := envelopesBatch_eq_ok_iff.mpr hp.envelopes
    refine bind_eq_ok.mpr ⟨times, htimes, bind_eq_ok.mpr ⟨_, hcounted, ?_⟩⟩
    refine bind_eq_ok.mpr ⟨_, hreceipts, bind_eq_ok.mpr ⟨(), henvelopes, ?_⟩⟩
    exact raiseIf_bind_eq_ok.mpr ⟨not_not.mpr hp.finite, rfl⟩

theorem passes_nil {s' : Inspection} : Passes host md schema type [] s s' ↔ s' = s := by
  constructor
  · rintro ⟨htimes, hreceived, hunreceived, -, -⟩
    have hreceipts : s'.receipts = s.receipts := by
      by_cases h : md.availability = "received"
      · exact (ok.inj (hreceived h)).symm
      · exact hunreceived h
    cases s'
    cases s
    exact congrArg₂ Inspection.mk (ok.inj htimes).symm hreceipts
  · rintro rfl
    exact ⟨rfl, fun _ => rfl, fun _ => rfl, (fun _ _ _ h => by cases h), (fun _ h => by cases h)⟩

/-- **The passes over rows that are put together.** -/
theorem passes_append {l m : List Row} {s' : Inspection} : Passes host md schema type (l ++ m) s s'
      ↔ ∃ t, Passes host md schema type l s t ∧ Passes host md schema type m t s' := by
  constructor
  · intro h
    have htimes := h.times
    rw [foldlM_append] at htimes
    obtain ⟨times, hl, hm⟩ := of_bind htimes
    have hrows : ∀ {P : Row → Prop}, (∀ row ∈ l ++ m, P row) →
        (∀ row ∈ l, P row) ∧ ∀ row ∈ m, P row := fun hP => forall_mem_append.mp hP
    by_cases hreceived : md.availability = "received"
    · have hreceipts := h.receipts hreceived
      rw [foldlM_append] at hreceipts
      obtain ⟨receipts, hrl, hrm⟩ := of_bind hreceipts
      exact ⟨⟨times, receipts⟩, ⟨hl, fun _ => hrl, fun hne => absurd hreceived hne,
          fun id hid => (hrows (h.envelopes id hid)).1, (hrows h.finite).1⟩,
        ⟨hm, fun _ => hrm, fun hne => absurd hreceived hne,
          fun id hid => (hrows (h.envelopes id hid)).2, (hrows h.finite).2⟩⟩
    · exact ⟨⟨times, s.receipts⟩, ⟨hl, fun he => absurd he hreceived, fun _ => rfl,
          fun id hid => (hrows (h.envelopes id hid)).1, (hrows h.finite).1⟩,
        ⟨hm, fun he => absurd he hreceived, fun _ => h.unreceived hreceived,
          fun id hid => (hrows (h.envelopes id hid)).2, (hrows h.finite).2⟩⟩
  · rintro ⟨t, hl, hm⟩
    refine ⟨?_, fun hreceived => ?_, fun hreceived => ?_, fun id hid => ?_, ?_⟩
    · rw [foldlM_append]
      exact bind_eq_ok.mpr ⟨_, hl.times, hm.times⟩
    · rw [foldlM_append]
      exact bind_eq_ok.mpr ⟨_, hl.receipts hreceived, hm.receipts hreceived⟩
    · exact (hm.unreceived hreceived).trans (hl.unreceived hreceived)
    · exact forall_mem_append.mpr ⟨hl.envelopes id hid, hm.envelopes id hid⟩
    · exact forall_mem_append.mpr ⟨hl.finite, hm.finite⟩

variable {batches : List (List Row)}

/-- **Batches are the passes over all their rows**, however these are cut. -/
theorem foldlM_inspectBatch_eq_ok_iff {s' : Inspection} (hne : batches ≠ []) :
    batches.foldlM (inspectBatch host md schema type) s = .ok s'
      ↔ ReceivedType md schema ∧ Passes host md schema type batches.flatten s s' := by
  induction batches generalizing s with
  | nil => exact absurd rfl hne
  | cons batch batches ih =>
    rw [foldlM_cons, bind_eq_ok, flatten_cons, passes_append]
    cases batches with
    | nil =>
      constructor
      · rintro ⟨t, ht, h⟩
        obtain rfl := ok.inj h
        obtain ⟨htype, hp⟩ := inspectBatch_eq_ok_iff.mp ht
        exact ⟨htype, t, hp, passes_nil.mpr rfl⟩
      · rintro ⟨htype, t, hp, hnil⟩
        obtain rfl := passes_nil.mp hnil
        exact ⟨_, inspectBatch_eq_ok_iff.mpr ⟨htype, hp⟩, rfl⟩
    | cons next batches =>
      have ih := fun {s} => @ih s (cons_ne_nil next batches)
      constructor
      · rintro ⟨t, ht, h⟩
        obtain ⟨htype, hp⟩ := inspectBatch_eq_ok_iff.mp ht
        exact ⟨htype, t, hp, (ih.mp h).2⟩
      · rintro ⟨htype, t, hp, hrest⟩
        exact ⟨t, inspectBatch_eq_ok_iff.mpr ⟨htype, hp⟩, ih.mpr ⟨htype, hrest⟩⟩

/-- **What batches measure** is what the passes over their rows leave. -/
theorem inspectBatches_eq_ok_iff {m : Measured} : inspectBatches host md schema type batches = .ok m
      ↔ ReceivedType md schema ∧ ∃ s first previous,
        Passes host md schema type batches.flatten {} s ∧ s.times.first = some first
          ∧ s.times.previous = some previous ∧ m = s.measured host schema first previous := by
  unfold inspectBatches
  rcases eq_or_ne batches [] with rfl | hne
  · constructor
    · intro h
      cases h
    · rintro ⟨-, s, first, previous, hp, hfirst, -, -⟩
      obtain rfl := passes_nil.mp hp
      cases hfirst
  constructor
  · intro h
    obtain ⟨s, hs, h⟩ := of_bind h
    obtain ⟨htype, hp⟩ := (foldlM_inspectBatch_eq_ok_iff hne).mp hs
    split at h
    · rename_i first previous hfirst hprevious
      exact ⟨htype, s, first, previous, hp, hfirst, hprevious, (ok.inj h).symm⟩
    · cases h
  · rintro ⟨htype, s, first, previous, hp, hfirst, hprevious, rfl⟩
    refine bind_eq_ok.mpr ⟨s, (foldlM_inspectBatch_eq_ok_iff hne).mpr ⟨htype, hp⟩, ?_⟩
    rw [hfirst, hprevious]

/-- **How the rows are cut** into batches does not matter. -/
theorem inspectBatches_eq_ok_congr {batches' : List (List Row)}
    (h : batches.flatten = batches'.flatten) {m : Measured} :
    inspectBatches host md schema type batches = .ok m
      ↔ inspectBatches host md schema type batches' = .ok m := by
  rw [inspectBatches_eq_ok_iff, inspectBatches_eq_ok_iff, h]

variable {table : DataTable}

/-- **What a table measures** is what the passes over its rows leave. -/
theorem inspectTable_passes {m : Measured} (h : inspectTable host md table = .ok m) :
    ∃ type s first previous, columnType table.schema md.timestampColumn = some type
      ∧ Passes host md table.schema type table.rows {} s ∧ s.times.first = some first
      ∧ s.times.previous = some previous ∧ m = s.measured host table.schema first previous := by
  unfold inspectTable at h
  obtain ⟨-, h⟩ := of_raiseIf h
  cases htype : columnType table.schema md.timestampColumn with
  | none =>
    rw [htype] at h
    cases h
  | some type =>
    rw [htype] at h
    obtain ⟨-, h⟩ := of_raiseIf h
    obtain ⟨-, h⟩ := of_raiseIf h
    obtain ⟨-, h⟩ := of_raiseIf h
    obtain ⟨-, s, first, previous, hp, hfirst, hprevious, hm⟩ := inspectBatches_eq_ok_iff.mp h
    rw [host.flatten_iterBatches] at hp
    exact ⟨type, s, first, previous, rfl, hp, hfirst, hprevious, hm⟩

/-! ## What is measured of a grid -/

/-- The timestamps of a table, in nanoseconds. -/
def timestamps (md : Metadata) (table : DataTable) : Except DatasetError (List ℤ) :=
  match columnType table.schema md.timestampColumn with
  | none => .error unreadable
  | some type => table.rows.mapM fun row => castTime type (row md.timestampColumn)

/-- **The gaps of timestamps** on a grid: they increase, the rows and the missing counts
add up to the grid from start to end, the gaps are in order and apart, and what they
cover is what is absent. -/
structure GapsOf (d : ℤ) (times : List ℤ) (m : Measured) : Prop where
  increasing : times.Pairwise (· < ·)
  start : times.head? = some m.startNs
  stop : times.getLast? = some m.endNs
  rows : m.rows = times.length
  total : (m.rows : ℤ) + (m.gaps.map (·.missingCount)).sum = (m.endNs - m.startNs) / d + 1
  sorted : m.gaps.Pairwise fun g h => g.endNs < h.startNs
  absent : ∀ t, (∃ g ∈ m.gaps, g.startNs ≤ t ∧ t ≤ g.endNs ∧ d ∣ t - g.startNs)
    ↔ (m.startNs ≤ t ∧ t ≤ m.endNs ∧ d ∣ t - m.startNs) ∧ t ∉ times
  counted : ∀ g ∈ m.gaps, g.missingCount = (g.endNs - g.startNs) / d + 1

theorem Counted.sum_eq (h : Counted d gaps) :
    (gaps.map (·.missingCount)).sum = ((gaps.map DataGap.bounds).map (points d)).sum := by
  rw [map_map]
  exact congrArg List.sum (map_congr_left h)

variable {first previous : ℤ}

/-- What has been measured of a sequence that is not empty. -/
theorem Measures.gapsOf (hd : 0 < d) {times : List ℤ} (hs : Measures d times s.times)
    (hfirst : s.times.first = some first) (hprevious : s.times.previous = some previous) :
    GapsOf d times (s.measured host schema first previous) := by
  have hstart : times.head? = some first := hs.first.symm.trans hfirst
  have hstop : times.getLast? = some previous := hs.previous.symm.trans hprevious
  cases times with
  | nil => cases hstart
  | cons a l =>
    obtain rfl := Option.some.inj hstart
    have hlast : (a :: l).getLast (cons_ne_nil a l) = previous := by
      rw [getLast?_eq_some_getLast (cons_ne_nil a l)] at hstop
      exact Option.some.inj hstop
    refine ⟨hs.steps.pairwise_lt, rfl, hstop, hs.rows, ?_, ?_, fun t => ?_, hs.counted⟩
    · show (s.times.rows : ℤ) + (s.times.gaps.map (·.missingCount)).sum = (previous - a) / d + 1
      rw [hs.rows, hs.counted.sum_eq, hs.gaps, hs.steps.length_add_sum_points hd, hlast]
    · have hpairwise := hs.steps.pairwise_holes hd
      rw [← hs.gaps, pairwise_map] at hpairwise
      exact hpairwise
    · have habsent := hs.steps.exists_mem_holes_iff (t := t) hd
      rw [← hs.gaps, hlast] at habsent
      simp only [mem_map, exists_exists_and_eq_and] at habsent
      exact habsent

/-- **What is measured of a table** on a grid. -/
theorem inspectTable_gapsOf (hd : 0 < d) (hinterval : md.expectedIntervalNs = some d) {m : Measured}
    (h : inspectTable host md table = .ok m) :
    ∃ times, timestamps md table = .ok times ∧ GapsOf d times m := by
  obtain ⟨type, s, first, previous, htype, hp, hfirst, hprevious, rfl⟩ := inspectTable_passes h
  obtain ⟨times, htimes, hrun⟩ := of_bind (mapM_bind_foldlM_eq_ok.mpr hp.times)
  rw [hinterval] at hrun
  refine ⟨times, ?_, (Measures.nil.run hd hrun).gapsOf hd hfirst hprevious⟩
  unfold timestamps
  rw [htype]
  exact htimes

/-! ## A part behind others -/

/-- What has been counted with rows and gaps in front. -/
structure Times.Behind (rows : ℕ) (gaps : List DataGap) (alone s : Times) : Prop where
  rows : s.rows = rows + alone.rows
  previous : s.previous = alone.previous
  gaps : s.gaps = gaps ++ alone.gaps

variable {alone : Times} {n : ℕ}

/-- One row with others in front does what it does without, once there is a timestamp. -/
theorem Times.Behind.timeStep {s : Times} (hs : Times.Behind n gaps alone s)
    (hfirst : alone.first = some first) (hprevious : alone.previous = some previous) {row : Row}
    (h : timeStep md type s row = .ok s') :
    ∃ alone', timeStep md type alone row = .ok alone' ∧ Times.Behind n gaps alone' s'
      ∧ alone'.first = some first ∧ ∃ p, alone'.previous = some p := by
  obtain ⟨c, hc, h⟩ := of_bind h
  obtain ⟨hneg, h⟩ := of_raiseIf h
  rw [hs.previous, hprevious] at h
  obtain ⟨between, hgap, h⟩ := of_bind h
  obtain rfl := ok.inj h
  have hrow : timeRow md.expectedIntervalNs alone c = .ok { alone with
      gaps := alone.gaps ++ between, previous := some c, rows := alone.rows + 1 } := by
    refine raiseIf_bind_eq_ok.mpr ⟨hneg, ?_⟩
    rw [hprevious]
    exact bind_eq_ok.mpr ⟨between, hgap, rfl⟩
  refine ⟨_, bind_eq_ok.mpr ⟨c, hc, hrow⟩, ⟨?_, rfl, ?_⟩, hfirst, c, rfl⟩
  · show s.rows + 1 = n + (alone.rows + 1)
    rw [hs.rows]
    rfl
  · show s.gaps ++ between = gaps ++ (alone.gaps ++ between)
    rw [hs.gaps, append_assoc]

/-- All rows with others in front do what they do without. -/
theorem Times.Behind.run {s : Times} (hs : Times.Behind n gaps alone s)
    (hfirst : alone.first = some first) (hprevious : alone.previous = some previous)
    {rows : List Row} (h : rows.foldlM (Datasets.timeStep md type) s = .ok s') :
    ∃ alone', rows.foldlM (Datasets.timeStep md type) alone = .ok alone'
      ∧ Times.Behind n gaps alone' s' ∧ alone'.first = some first := by
  induction rows generalizing alone s previous with
  | nil =>
    obtain rfl := ok.inj h
    exact ⟨alone, rfl, hs, hfirst⟩
  | cons row rows ih =>
    rw [foldlM_cons] at h
    obtain ⟨m, hm, h⟩ := of_bind h
    obtain ⟨mid, hmid, hbehind, hfirst, p, hp⟩ := hs.timeStep hfirst hprevious hm
    obtain ⟨alone', halone, hs', hfirst⟩ := ih hbehind hfirst hp h
    refine ⟨alone', ?_, hs', hfirst⟩
    rw [foldlM_cons]
    exact bind_eq_ok.mpr ⟨mid, hmid, halone⟩

/-- **The timestamps of a part**: with others in front, they are what they are alone, behind
the gap from the last to the first. -/
theorem timeStep_part {rows : List Row} {s : Times} (h : rows.foldlM (timeStep md type) s = .ok s')
    (halone : rows.foldlM (timeStep md type) {} = .ok alone) (hfirst : alone.first = some first) :
    ∃ between, gapBetween s.previous first md.expectedIntervalNs = .ok between
      ∧ Times.Behind s.rows (s.gaps ++ between) alone s' := by
  cases rows with
  | nil =>
    obtain rfl := ok.inj halone
    cases hfirst
  | cons row rows =>
    rw [foldlM_cons] at h halone
    obtain ⟨m, hm, h⟩ := of_bind h
    obtain ⟨one, hone, halone⟩ := of_bind halone
    obtain ⟨c, hc, hone⟩ := of_bind hone
    obtain ⟨hneg, hone⟩ := of_raiseIf hone
    obtain rfl := ok.inj hone
    obtain ⟨c', hc', hm⟩ := of_bind hm
    obtain rfl := ok.inj (hc.symm.trans hc')
    obtain ⟨-, hm⟩ := of_raiseIf hm
    -- The first row makes the step from what is in front, or none.
    have hstep : ∃ between, gapBetween s.previous c md.expectedIntervalNs = .ok between
        ∧ m.rows = s.rows + 1 ∧ m.previous = some c ∧ m.gaps = s.gaps ++ between := by
      cases hprevious : s.previous with
      | none =>
        rw [hprevious] at hm
        obtain rfl := ok.inj hm
        exact ⟨[], rfl, rfl, rfl, (append_nil _).symm⟩
      | some previous =>
        rw [hprevious] at hm
        obtain ⟨between, hgap, hm⟩ := of_bind hm
        obtain rfl := ok.inj hm
        exact ⟨between, hgap, rfl, rfl, rfl⟩
    obtain ⟨between, hgap, hrows, hprevious, hgaps⟩ := hstep
    have hbehind : Times.Behind s.rows (s.gaps ++ between)
        { rows := 1, first := some c, previous := some c } m :=
      ⟨hrows, hprevious, by rw [hgaps, append_nil]⟩
    obtain ⟨alone', halone', hs', hfirst'⟩ := hbehind.run rfl rfl h
    obtain rfl : alone' = alone := ok.inj (halone'.symm.trans halone)
    obtain rfl : c = first := Option.some.inj (hfirst'.symm.trans hfirst)
    exact ⟨between, hgap, hs'⟩

/-- **The receipts of a part**: with others in front, they are what they are alone, and none is
before those in front. -/
theorem receiptStep_run {rows : List Row} {s s' : Receipts} (h : rows.foldlM receiptStep s = .ok s')
    {alone : Receipts} (hprevious : alone.previous = s.previous) :
    ∃ alone', rows.foldlM receiptStep alone = .ok alone' ∧ alone'.previous = s'.previous
      ∧ ∀ first ∈ alone.first, alone'.first = some first := by
  induction rows generalizing s alone with
  | nil =>
    obtain rfl := ok.inj h
    exact ⟨alone, rfl, hprevious, fun _ hfirst => hfirst⟩
  | cons row rows ih =>
    rw [foldlM_cons] at h
    obtain ⟨m, hm, h⟩ := of_bind h
    obtain ⟨c, hc, hm⟩ := of_bind hm
    obtain ⟨hcheck, hm⟩ := of_raiseIf hm
    obtain rfl := ok.inj hm
    have hrow : receiptRow alone c = .ok ⟨alone.first.or (some c), some c⟩ := by
      refine raiseIf_bind_eq_ok.mpr ⟨?_, rfl⟩
      rw [hprevious]
      exact hcheck
    obtain ⟨alone', halone', hlast, hfirst⟩ := @ih _ h ⟨alone.first.or (some c), some c⟩ rfl
    refine ⟨alone', ?_, hlast, fun first hf => hfirst first ?_⟩
    · rw [foldlM_cons]
      exact bind_eq_ok.mpr ⟨_, bind_eq_ok.mpr ⟨c, hc, hrow⟩, halone'⟩
    · rw [Option.mem_def.mp hf]
      rfl

theorem receiptStep_part {rows : List Row} (hne : rows ≠ []) {s s' alone : Receipts}
    (h : rows.foldlM receiptStep s = .ok s') (halone : rows.foldlM receiptStep {} = .ok alone) :
    s'.previous = alone.previous
      ∧ ∀ previous ∈ s.previous, ∀ first ∈ alone.first, ¬ first < previous := by
  cases rows with
  | nil => exact absurd rfl hne
  | cons row rows =>
    rw [foldlM_cons] at h halone
    obtain ⟨m, hm, h⟩ := of_bind h
    obtain ⟨one, hone, halone⟩ := of_bind halone
    obtain ⟨c, hc, hone⟩ := of_bind hone
    obtain ⟨-, hone⟩ := of_raiseIf hone
    obtain rfl := ok.inj hone
    obtain ⟨c', hc', hm⟩ := of_bind hm
    obtain rfl := ok.inj (hc.symm.trans hc')
    obtain ⟨hcheck, hm⟩ := of_raiseIf hm
    obtain rfl := ok.inj hm
    obtain ⟨alone', halone', hlast, hfirst⟩ := @receiptStep_run _ _ _ h ⟨some c, some c⟩ rfl
    obtain rfl : alone' = alone := ok.inj (halone'.symm.trans halone)
    refine ⟨hlast.symm, fun previous hp first hf => ?_⟩
    obtain rfl : c = first := Option.some.inj ((hfirst c rfl).symm.trans hf)
    exact fun hlt => hcheck (.inr ⟨previous, hp, hlt⟩)

/-! ## Verification -/

/-- A file of the registry is the part that was measured from its bytes. -/
structure Stored (host : Host B) (files : Files B) (md : Metadata) (part : DatasetFile) (bytes : B)
    (measured : Measured) : Prop where
  found : ∃ path, rooted host part.relativePath = .ok path ∧ files path = some bytes
  size : host.size bytes = part.bytes
  sha256 : host.sha256 bytes = part.sha256
  inspected : inspect host md bytes = .ok measured
  rows : measured.rows = part.rows
  startNs : measured.startNs = part.startNs
  endNs : measured.endNs = part.endNs

variable {files : Files B} {v : Verifying} {part : DatasetFile} {m : DatasetManifest} {bytes : B}

/-- **A stored part** is verified where it may follow the parts before it. -/
theorem Stored.verifyPart {measured : Measured}
    (h : Stored host files m.toMetadata part bytes measured)
    (hcolumns : measured.columns = m.columns) (hschema : measured.arrowSchema = m.arrowSchema)
    {between : List DataGap}
    (hgap : gapBetween v.previousEnd measured.startNs m.expectedIntervalNs = .ok between)
    (hreceived : m.availability = "received" → ∀ previous ∈ v.previousReceived,
      ∀ start ∈ measured.receivedStartNs, ¬ start < previous) : verifyPart host files m v part = .ok
      { rows := v.rows + measured.rows, gaps := v.gaps ++ between ++ measured.gaps
        previousEnd := some measured.endNs
        previousReceived := if m.availability = "received" then measured.receivedEndNs
          else v.previousReceived } := by
  obtain ⟨path, hpath, hfile⟩ := h.found
  refine bind_eq_ok.mpr ⟨path, hpath, ?_⟩
  rw [hfile]
  refine raiseIf_bind_eq_ok.mpr ⟨?_, bind_eq_ok.mpr ⟨measured, h.inspected, ?_⟩⟩
  · rw [not_or, not_not, not_not]
    exact ⟨h.size, h.sha256⟩
  refine raiseIf_bind_eq_ok.mpr ⟨not_not.mpr h.rows, raiseIf_bind_eq_ok.mpr
    ⟨not_not.mpr h.startNs, raiseIf_bind_eq_ok.mpr ⟨not_not.mpr h.endNs,
      raiseIf_bind_eq_ok.mpr ⟨?_, bind_eq_ok.mpr ⟨between, hgap,
        raiseIf_bind_eq_ok.mpr ⟨?_, rfl⟩⟩⟩⟩⟩⟩
  · rw [not_or, not_not, not_not]
    exact ⟨hcolumns, hschema⟩
  · rintro ⟨he, previous, hp, start, hs, hlt⟩
    exact hreceived he previous hp start hs hlt

/-- What is carried from part to part is what is carried from batch to batch. -/
structure Carries (md : Metadata) (v : Verifying) (s : Inspection) : Prop where
  rows : v.rows = s.times.rows
  gaps : v.gaps = s.times.gaps
  previousEnd : v.previousEnd = s.times.previous
  previousReceived : md.availability = "received" → v.previousReceived = s.receipts.previous

/-- **One part**: where the rows of a stored part go through behind those in front, the part
is verified behind the parts in front. -/
theorem Carries.verifyPart {rows : List Row} {s' : Inspection} (hv : Carries m.toMetadata v s)
    (hp : Passes host m.toMetadata schema type rows s s')
    (htype : columnType schema m.timestampColumn = some type)
    (hread : host.parquet bytes = some ⟨schema, rows⟩) {measured : Measured}
    (hstored : Stored host files m.toMetadata part bytes measured)
    (hcolumns : m.columns = schema.map (·.name)) (hschema : m.arrowSchema = host.schemaText schema)
    : ∃ v', verifyPart host files m v part = .ok v' ∧ Carries m.toMetadata v' s' := by
  have hinspect := hstored.inspected
  unfold inspect at hinspect
  obtain ⟨-, hinspect⟩ := of_raiseIf hinspect
  rw [hread] at hinspect
  obtain ⟨type', alone, first, previous, htype', halone, hfirst, hprevious, rfl⟩ :=
    inspectTable_passes hinspect
  obtain rfl := Option.some.inj (htype.symm.trans htype')
  obtain ⟨between, hgap, hbehind⟩ := timeStep_part hp.times halone.times hfirst
  have hne : rows ≠ [] := by
    rintro rfl
    obtain rfl := passes_nil.mp halone
    cases hfirst
  rw [← hv.previousEnd] at hgap
  have hreceived : m.availability = "received" → s'.receipts.previous = alone.receipts.previous
      ∧ ∀ previous ∈ v.previousReceived, ∀ start ∈ alone.receipts.first, ¬ start < previous := by
    intro he
    rw [hv.previousReceived he]
    exact receiptStep_part hne (hp.receipts he) (halone.receipts he)
  refine ⟨_, hstored.verifyPart hcolumns.symm hschema.symm hgap fun he => (hreceived he).2,
    ?_, ?_, ?_, fun he => ?_⟩
  · show v.rows + alone.times.rows = s'.times.rows
    rw [hv.rows, hbehind.rows]
  · show v.gaps ++ between ++ alone.times.gaps = s'.times.gaps
    rw [hv.gaps, hbehind.gaps]
  · show some previous = s'.times.previous
    rw [hbehind.previous, hprevious]
  · show (if m.availability = "received" then alone.receipts.previous else v.previousReceived) = _
    rw [if_pos he, (hreceived he).1]

variable {pieces : List (DatasetFile × List Row)}

theorem Carries.verifyParts (htype : columnType schema m.timestampColumn = some type)
    (hcolumns : m.columns = schema.map (·.name)) (hschema : m.arrowSchema = host.schemaText schema)
    (hstored : ∀ piece ∈ pieces, ∃ bytes measured, host.parquet bytes = some ⟨schema, piece.2⟩ ∧
      Stored host files m.toMetadata piece.1 bytes measured) {s' : Inspection}
    (hv : Carries m.toMetadata v s)
    (hp : Passes host m.toMetadata schema type (pieces.flatMap (·.2)) s s') :
    ∃ v', (pieces.map (·.1)).foldlM (Datasets.verifyPart host files m) v = .ok v'
      ∧ Carries m.toMetadata v' s' := by
  induction pieces generalizing v s with
  | nil =>
    obtain rfl := passes_nil.mp hp
    exact ⟨v, rfl, hv⟩
  | cons piece pieces ih =>
    obtain ⟨⟨bytes, measured, hread, hone⟩, hrest⟩ := forall_mem_cons.mp hstored
    rw [flatMap_cons] at hp
    obtain ⟨t, hl, hr⟩ := passes_append.mp hp
    obtain ⟨w, hw, hcarries⟩ := hv.verifyPart hl htype hread hone hcolumns hschema
    obtain ⟨v', hv', hcarries⟩ := ih hrest hcarries hr
    refine ⟨v', ?_, hcarries⟩
    rw [map_cons, foldlM_cons]
    exact bind_eq_ok.mpr ⟨w, hw, hv'⟩

/-- **A manifest with the measure of all rows is verified**, however the rows are cut into
stored parts. -/
theorem verify_of_inspectTable
    (hstored : ∀ piece ∈ pieces, ∃ bytes measured, host.parquet bytes = some ⟨schema, piece.2⟩ ∧
      Stored host files m.toMetadata piece.1 bytes measured) {whole : Measured}
    (hwhole : inspectTable host m.toMetadata ⟨schema, pieces.flatMap (·.2)⟩ = .ok whole)
    (hfiles : m.files = pieces.map (·.1)) (hrows : m.rows = whole.rows)
    (hgaps : m.gaps = whole.gaps) (hcolumns : m.columns = whole.columns)
    (hschema : m.arrowSchema = whole.arrowSchema)
    (hid : manifestIdentity host m.toManifestFields = m.datasetId) :
    verify host files m = .ok m := by
  obtain ⟨type, s, first, previous, htype, hp, -, -, rfl⟩ := inspectTable_passes hwhole
  obtain ⟨v, hv, hcarries⟩ := Carries.verifyParts htype hcolumns hschema hstored
    (v := {}) ⟨rfl, rfl, rfl, fun _ => rfl⟩ hp
  rw [← hfiles] at hv
  refine raiseIf_bind_eq_ok.mpr ⟨not_not.mpr hid, bind_eq_ok.mpr ⟨v, hv,
    raiseIf_bind_eq_ok.mpr ⟨?_, rfl⟩⟩⟩
  rw [not_or, not_not, not_not, hcarries.rows, hcarries.gaps]
  exact ⟨hrows.symm, hgaps.symm⟩

/-! ## Registration -/

variable (digest : Sha256)

/-- The path of the object with a digest, below the root. -/
def objectPath : Path :=
  ["objects".toList, digest.text.toList ++ ".parquet".toList]

/-- The path of the manifest with an identity, below the root. -/
def manifestPath (datasetId : Sha256) : Path :=
  ["manifests".toList, datasetId.text.toList ++ ".json".toList]

/-- A directory and a file name without a slash are a path below the root. -/
theorem rooted_of_eq {path : String} {dir file : List Char}
    (hpath : path.toList = dir ++ '/' :: file) (hdir : '/' ∉ dir) (hfile : '/' ∉ file)
    (hne : 3 ≤ dir.length ∧ 3 ≤ file.length) : rooted host path = .ok [dir, file] := by
  have hhead : path.toList.head? ≠ some '/' := by
    rw [hpath]
    cases dir with
    | nil => simp at hne
    | cons c dir => exact fun h => hdir (by simp [Option.some.inj h])
  have hsplit : path.toList.splitOn '/' = [dir, file] := by
    rw [hpath, splitOn_append_cons_self_of_not_mem hdir, splitOn_eq_singleton hfile]
  have hplain : ∀ part : List Char, 3 ≤ part.length →
      ¬ (part = [] ∨ part = ['.']) ∧ part ≠ ['.', '.'] := by
    intro part hlen
    refine ⟨?_, ?_⟩
    · rintro (rfl | rfl)
      · simp at hlen
      · simp at hlen
    · rintro rfl
      simp at hlen
  unfold rooted
  rw [if_neg hhead, hsplit]
  have hresolve : resolve host.root [dir, file] = host.root ++ [dir, file] := by
    unfold resolve
    rw [foldl_cons, foldl_cons, foldl_nil, if_neg (hplain dir hne.1).1, if_neg (hplain dir hne.1).2,
      if_neg (hplain file hne.2).1, if_neg (hplain file hne.2).2, append_assoc]
    rfl
  show (if host.root <+: resolve host.root [dir, file] then _ else _) = _
  rw [hresolve, if_pos (prefix_append _ _)]
  show Except.ok ((host.root ++ [dir, file]).drop host.root.length) = _
  rw [drop_left]

theorem Sha256.slash_notMem : '/' ∉ digest.text.toList := by
  intro h
  exact absurd (digest.hex.2 _ h) (by decide)

theorem rooted_objectName : rooted host (objectName digest) = .ok (objectPath digest) := by
  refine rooted_of_eq ?_ (by decide) ?_ ⟨by decide, ?_⟩
  · simp [objectName]
  · rw [mem_append, not_or]
    exact ⟨digest.slash_notMem, by decide⟩
  · rw [length_append, digest.hex.1]
    omega

theorem rooted_manifestName (datasetId : Sha256) :
    rooted host (manifestName datasetId) = .ok (manifestPath datasetId) := by
  refine rooted_of_eq ?_ (by decide) ?_ ⟨by decide, ?_⟩
  · simp [manifestName]
  · rw [mem_append, not_or]
    exact ⟨datasetId.slash_notMem, by decide⟩
  · rw [length_append, datasetId.hex.1]
    omega

theorem DatasetFile.validate_eq_ok {relativePath : String} {sha256 : Sha256} {bytes rows : ℕ}
    {startNs endNs : ℤ}
    (h : DatasetFile.validate relativePath sha256 bytes rows startNs endNs = .ok part) :
    part.relativePath = relativePath ∧ part.sha256 = sha256 ∧ part.bytes = bytes
      ∧ part.rows = rows ∧ part.startNs = startNs ∧ part.endNs = endNs := by
  unfold DatasetFile.validate at h
  split_ifs at h
  obtain rfl := ok.inj h
  exact ⟨rfl, rfl, rfl, rfl, rfl, rfl⟩

theorem DatasetManifest.validate_eq_ok {fields : ManifestFields} {datasetId : Sha256}
    (h : DatasetManifest.validate fields datasetId = .ok m) :
    m.toManifestFields = fields ∧ m.datasetId = datasetId := by
  unfold DatasetManifest.validate at h
  split_ifs at h
  obtain rfl := ok.inj h
  exact ⟨rfl, rfl⟩

/-- **A manifest of one part** that has been measured from bytes. -/
structure OnePart (host : Host B) (md : Metadata) (bytes : B) (m : DatasetManifest)
    (part : DatasetFile) (measured : Measured) : Prop where
  inspected : inspect host md bytes = .ok measured
  metadata : m.toMetadata = md
  files : m.files = [part]
  rows : m.rows = measured.rows
  gaps : m.gaps = measured.gaps
  columns : m.columns = measured.columns
  arrowSchema : m.arrowSchema = measured.arrowSchema
  identity : manifestIdentity host m.toManifestFields = m.datasetId
  path : part.relativePath = objectName (host.sha256 bytes)
  part : part.sha256 = host.sha256 bytes ∧ part.bytes = host.size bytes
    ∧ part.rows = measured.rows ∧ part.startNs = measured.startNs ∧ part.endNs = measured.endNs

/-- What is measured for a registration is a manifest of one part. -/
theorem exists_onePart (h : measure host md bytes = .ok m) :
    ∃ part measured, OnePart host md bytes m part measured := by
  obtain ⟨measured, hmeasured, h⟩ := of_bind h
  obtain ⟨part, hpart, h⟩ := of_bind h
  obtain ⟨hpath, hpart⟩ := DatasetFile.validate_eq_ok hpart
  obtain ⟨hfields, hid⟩ := DatasetManifest.validate_eq_ok h
  refine ⟨part, measured, hmeasured, ?_, ?_, ?_, ?_, ?_, ?_, ?_, hpath, hpart⟩
  · rw [hfields]
  · rw [hfields]
  · rw [hfields]
  · rw [hfields]
  · rw [hfields]
  · rw [hfields]
  · rw [hfields, hid]

variable {destination : Path} {files' : Files B} {source : B}

/-- **Publishing replaces nothing**, and nothing is at another path than before. -/
theorem publish_frame {hash : Sha256} (h : publish host files source destination hash = .ok files') :
    (∀ path b, files path = some b → files' path = some b)
      ∧ ∀ path, path ≠ destination → files' path = files path := by
  unfold publish at h
  cases hfile : files destination with
  | none =>
    rw [hfile] at h
    obtain rfl := ok.inj h
    refine ⟨fun path b hb => ?_, fun path hne => update_of_ne hne ..⟩
    rw [update_of_ne]
    · exact hb
    · rintro rfl
      rw [hfile] at hb
      cases hb
  | some existing =>
    rw [hfile] at h
    obtain ⟨-, h⟩ := of_raiseIf h
    obtain rfl := ok.inj h
    exact ⟨fun _ _ hb => hb, fun _ _ => rfl⟩

/-- **A file that is published is there**, if contents with one hash are the same. -/
theorem publish_found (h : publish host files source destination (host.sha256 source) = .ok files')
    (hsame : ∀ existing, files destination = some existing → host.sha256 existing =
      host.sha256 source → existing = source)
    : files' destination = some source := by
  unfold publish at h
  cases hfile : files destination with
  | none =>
    rw [hfile] at h
    obtain rfl := ok.inj h
    exact update_self ..
  | some existing =>
    rw [hfile] at h
    obtain ⟨hhash, h⟩ := of_raiseIf h
    obtain rfl := ok.inj h
    obtain rfl := hsame existing hfile (not_not.mp hhash)
    exact hfile

/-- **The invariant of a registry** of contents `C`: the objects are of `C`, and what has been
registered is there under its hash and has the manifest that its bytes measure. -/
structure Registry.Sound (host : Host B) (C : Set B) (r : Registry B) : Prop where
  objects : ∀ digest b, r.files (objectPath digest) = some b → b ∈ C
  published : ∀ entry ∈ r.published, measure host entry.1 entry.2.1 = .ok entry.2.2
    ∧ r.files (objectPath (host.sha256 entry.2.1)) = some entry.2.1

theorem Registry.Sound.empty (C : Set B) : Registry.empty.Sound host C :=
  ⟨(fun _ _ h => by cases h), (fun _ h => by cases h)⟩

variable {r : Registry B} {C : Set B}

/-- More files at the paths of objects keep what has been registered. -/
theorem Registry.Sound.extend (hr : r.Sound host C)
    (hmono : ∀ path b, r.files path = some b → files path = some b)
    (hobjects : ∀ digest b, files (objectPath digest) = some b → b ∈ C) :
    Registry.Sound host C { r with files } :=
  ⟨hobjects, fun entry he => ⟨(hr.published entry he).1, hmono _ _ (hr.published entry he).2⟩⟩

theorem objectPath_ne_manifestPath (digest datasetId : Sha256) :
    objectPath digest ≠ manifestPath datasetId := by
  intro h
  exact absurd (List.cons.inj h).1 (by decide)

/-- **An object that has been published** keeps the invariant, and is there. -/
theorem Registry.Sound.publishObject (hC : C.InjOn host.sha256) (hr : r.Sound host C)
    (hbytes : bytes ∈ C) {stored : Files B} (h : publishObject host r.files bytes = .ok stored) :
    Registry.Sound host C { r with files := stored }
      ∧ stored (objectPath (host.sha256 bytes)) = some bytes := by
  unfold Datasets.publishObject at h
  rw [rooted_objectName] at h
  have h : publish host r.files bytes (objectPath (host.sha256 bytes)) (host.sha256 bytes)
      = .ok stored := h
  obtain ⟨hmono, hframe⟩ := publish_frame h
  have hfound := publish_found h fun existing hexisting hsame =>
    hC (hr.objects _ _ hexisting) hbytes hsame
  refine ⟨hr.extend hmono fun digest b hb => ?_, hfound⟩
  by_cases hdigest : objectPath digest = objectPath (host.sha256 bytes)
  · rw [hdigest, hfound] at hb
    exact Option.some.inj hb ▸ hbytes
  · rw [hframe _ hdigest] at hb
    exact hr.objects digest b hb

/-- **A manifest that has been published** keeps the invariant. -/
theorem Registry.Sound.publishManifest (hr : r.Sound host C)
    (h : publishManifest host r.files m = .ok files) : Registry.Sound host C { r with files }
      ∧ ∀ digest, files (objectPath digest) = r.files (objectPath digest) := by
  unfold Datasets.publishManifest at h
  rw [rooted_manifestName] at h
  obtain ⟨hmono, hframe⟩ := publish_frame (show publish host r.files _ (manifestPath m.datasetId) _
    = .ok files from h)
  have hobjects := fun digest => hframe _ (objectPath_ne_manifestPath digest m.datasetId)
  refine ⟨hr.extend hmono fun digest b hb => ?_, hobjects⟩
  rw [hobjects] at hb
  exact hr.objects digest b hb

/-- **A registration** keeps the invariant. -/
theorem Registry.Sound.step (hC : C.InjOn host.sha256) (hr : r.Sound host C)
    {request : Metadata × B} (hrequest : request.2 ∈ C) : (r.step host request).Sound host C := by
  unfold Registry.step register
  cases hmeasure : measure host request.1 request.2 with
  | error e => exact hr
  | ok m =>
    cases hobject : Datasets.publishObject host r.files request.2 with
    | error e => exact hr
    | ok stored =>
      obtain ⟨hstored, hfound⟩ := hr.publishObject hC hrequest hobject
      dsimp only
      cases hmanifest : Datasets.publishManifest host stored m with
      | error e => exact hstored
      | ok files =>
        obtain ⟨hfiles, hobjects⟩ := hstored.publishManifest hmanifest
        refine ⟨hfiles.objects, fun entry he => ?_⟩
        rcases mem_append.mp he with he | he
        · exact hfiles.published entry he
        · obtain rfl := mem_singleton.mp he
          refine ⟨hmeasure, ?_⟩
          show files (objectPath (host.sha256 request.2)) = some request.2
          rw [hobjects]
          exact hfound

/-- **Every run of registrations** keeps the invariant, of the contents that it registers. -/
theorem Registry.sound_run {requests : List (Metadata × B)}
    (hC : Set.InjOn host.sha256 {b | ∃ request ∈ requests, request.2 = b}) :
    (Machine.run (Registry.step host) Registry.empty requests).Sound host
      {b | ∃ request ∈ requests, request.2 = b} := by
  refine Machine.inv_run_of_meets (C := fun _ request => request ∈ requests) _ ?_ (.empty _) ?_
  · exact fun r request hr hrequest => hr.step hC ⟨request, hrequest, rfl⟩
  · exact Machine.meets_of_forall_mem (fun _ h => h) _

theorem Registry.Sound.stored (hr : r.Sound host C) (he : (md, bytes, m) ∈ r.published) :
    ∃ part measured, OnePart host md bytes m part measured
      ∧ Stored host r.files md part bytes measured := by
  obtain ⟨hmeasure, hfile⟩ := hr.published _ he
  obtain ⟨part, measured, hm⟩ := exists_onePart hmeasure
  obtain ⟨hsha, hsize, hrows, hstart, hend⟩ := hm.part
  refine ⟨part, measured, hm, ⟨objectPath (host.sha256 bytes), ?_, hfile⟩, hsize.symm, hsha.symm,
    hm.inspected, hrows.symm, hstart.symm, hend.symm⟩
  rw [hm.path, rooted_objectName]

/-- The rows of a file. -/
def Host.rows (host : Host B) (bytes : B) : List Row := ((host.parquet bytes).map (·.rows)).getD []

theorem Host.rows_of_parquet (h : host.parquet bytes = some table) :
    host.rows bytes = table.rows := by
  unfold Host.rows
  rw [h]
  rfl

/-- **Parts that have been registered** are verified together, in a manifest with the measure of
all their rows. -/
theorem Registry.Sound.verify_parts (hr : r.Sound host C) {pieces : List (B × DatasetManifest)}
    (hpieces : ∀ piece ∈ pieces, (md, piece) ∈ r.published
      ∧ ∃ rows, host.parquet piece.1 = some ⟨schema, rows⟩) {whole : Measured}
    (hwhole : inspectTable host md ⟨schema, pieces.flatMap fun piece => host.rows piece.1⟩
      = .ok whole) (hmetadata : m.toMetadata = md) (hfiles : m.files = pieces.flatMap (·.2.files))
    (hrows : m.rows = whole.rows) (hgaps : m.gaps = whole.gaps)
    (hcolumns : m.columns = whole.columns) (hschema : m.arrowSchema = whole.arrowSchema)
    (hid : manifestIdentity host m.toManifestFields = m.datasetId) :
    verify host r.files m = .ok m := by
  subst hmetadata
  -- Every manifest has one part, and the rows of its file.
  have hparts : ∃ parts : List (DatasetFile × List Row),
      (∀ piece ∈ parts, ∃ bytes measured, host.parquet bytes = some ⟨schema, piece.2⟩
        ∧ Stored host r.files m.toMetadata piece.1 bytes measured)
      ∧ parts.map (·.1) = pieces.flatMap (·.2.files)
      ∧ parts.flatMap (·.2) = pieces.flatMap fun piece => host.rows piece.1 := by
    clear hwhole hfiles
    induction pieces with
    | nil => exact ⟨[], (fun _ h => by cases h), rfl, rfl⟩
    | cons piece pieces ih =>
      obtain ⟨⟨hpublished, rows, hread⟩, hrest⟩ := forall_mem_cons.mp hpieces
      obtain ⟨parts, hstored, hmap, hflat⟩ := ih hrest
      obtain ⟨part, measured, hone, hpart⟩ := hr.stored hpublished
      refine ⟨(part, rows) :: parts, forall_mem_cons.mpr ⟨⟨_, measured, hread, hpart⟩, hstored⟩,
        ?_, ?_⟩
      · rw [map_cons, flatMap_cons, hmap, hone.files]
        rfl
      · rw [flatMap_cons, flatMap_cons, hflat, host.rows_of_parquet hread]
  obtain ⟨parts, hstored, hmap, hflat⟩ := hparts
  rw [← hflat] at hwhole
  exact verify_of_inspectTable hstored hwhole (hfiles.trans hmap.symm) hrows hgaps hcolumns hschema
    hid

/-- **What a registration publishes** is verified. -/
theorem Registry.Sound.verify_published (hr : r.Sound host C) (he : (md, bytes, m) ∈ r.published) :
    verify host r.files m = .ok m := by
  obtain ⟨part, measured, hone, -⟩ := hr.stored he
  have hinspect := hone.inspected
  unfold inspect at hinspect
  obtain ⟨-, hinspect⟩ := of_raiseIf hinspect
  cases hread : host.parquet bytes with
  | none =>
    rw [hread] at hinspect
    cases hinspect
  | some table =>
    rw [hread] at hinspect
    have hrows := host.rows_of_parquet hread
    have hpieces : ∀ piece ∈ [(bytes, m)], (md, piece) ∈ r.published
        ∧ ∃ rows, host.parquet piece.1 = some ⟨table.schema, rows⟩ :=
      forall_mem_singleton.mpr ⟨he, table.rows, hread⟩
    refine hr.verify_parts hpieces ?_ hone.metadata ?_ hone.rows hone.gaps hone.columns
      hone.arrowSchema hone.identity
    · rw [flatMap_singleton, hrows]
      exact hinspect
    · exact (flatMap_singleton _ _).symm

/-- **The gaps of a dataset.** What is accepted with an interval increases, its rows and its
missing counts add up to the grid, and its gaps are in order, apart and made of what is absent;
the batches do not matter; and whatever has been registered, every manifest that was published is
verified, as is every one of several published parts with the measure of all their rows, the
gaps from part to part included. -/
theorem dataset_gaps (host : Host B) :
    (∀ md bytes m d, md.expectedIntervalNs = some d → inspect host md bytes = .ok m →
      ∃ table times, host.parquet bytes = some table ∧ timestamps md table = .ok times
        ∧ GapsOf d times m)
    ∧ (∀ md schema type (batches batches' : List (List Row)) m, batches.flatten = batches'.flatten →
        (inspectBatches host md schema type batches = .ok m
          ↔ inspectBatches host md schema type batches' = .ok m))
    ∧ ∀ requests, Set.InjOn host.sha256 {b | ∃ request ∈ requests, request.2 = b} →
      (∀ entry ∈ (Machine.run (Registry.step host) Registry.empty requests).published,
        verify host (Machine.run (Registry.step host) Registry.empty requests).files entry.2.2
          = .ok entry.2.2)
      ∧ ∀ md schema (pieces : List (B × DatasetManifest)) whole (m : DatasetManifest),
        (∀ piece ∈ pieces,
          (md, piece) ∈ (Machine.run (Registry.step host) Registry.empty requests).published
            ∧ ∃ rows, host.parquet piece.1 = some ⟨schema, rows⟩) →
        inspectTable host md ⟨schema, pieces.flatMap fun piece => host.rows piece.1⟩ = .ok whole →
        m.toMetadata = md → m.files = pieces.flatMap (·.2.files) → m.rows = whole.rows →
        m.gaps = whole.gaps → m.columns = whole.columns → m.arrowSchema = whole.arrowSchema →
        manifestIdentity host m.toManifestFields = m.datasetId →
        verify host (Machine.run (Registry.step host) Registry.empty requests).files m = .ok m := by
  refine ⟨fun md bytes m d hinterval h => ?_, fun md schema type batches batches' m h =>
    inspectBatches_eq_ok_congr h, fun requests hC => ⟨fun entry he => ?_, ?_⟩⟩
  · obtain ⟨hpos, h⟩ := of_raiseIf h
    have hd : 0 < d := by
      by_contra hle
      exact hpos ⟨d, hinterval, not_lt.mp hle⟩
    cases hread : host.parquet bytes with
    | none =>
      rw [hread] at h
      cases h
    | some table =>
      rw [hread] at h
      obtain ⟨times, htimes, hgaps⟩ := inspectTable_gapsOf hd hinterval h
      exact ⟨table, times, rfl, htimes, hgaps⟩
  · exact (Registry.sound_run hC).verify_published he
  · intro md schema pieces whole m hpieces hwhole hmetadata hfiles hrows hgaps hcolumns hschema hid
    exact (Registry.sound_run hC).verify_parts hpieces hwhole hmetadata hfiles hrows hgaps hcolumns
      hschema hid

/-! Two files on a grid of mesh `10`, with a gap from the one to the other. -/

/-- A digest of one digit. -/
def digestOf (c : Char) (h : c ∈ "0123456789abcdef".toList) : Sha256 where
  text := String.ofList (replicate 64 c)
  hex := by
    rw [String.toList_ofList]
    exact ⟨length_replicate, fun _ hx => (eq_of_mem_replicate hx) ▸ h⟩

/-- Three contents: timestamps `10` and `20`, timestamp `50`, and a manifest. -/
def twoFiles : Host (Fin 3) where
  root := ["data".toList]
  size := fun b => [8, 4, 100].getD b 0
  sha256 := fun b =>
    [digestOf '0' (by decide), digestOf '1' (by decide)].getD b (digestOf '2' (by decide))
  parquet := fun b =>
    let row (n : ℤ) : Row := fun name => if name = "exchange_ts_ns" then .int n else .null
    let table (rows : List Row) : DataTable := ⟨[⟨"exchange_ts_ns", .integer⟩], rows⟩
    [some (table [row 10, row 20]), some (table [row 50]), none].getD b none
  iterBatches := fun _ rows => [rows]
  schemaText := fun _ => "exchange_ts_ns: int64"
  event := fun _ => none
  contentHash := fun m => if m.rows = 2 then digestOf 'a' (by decide) else
    if m.rows = 1 then digestOf 'b' (by decide) else digestOf 'c' (by decide)
  encode := fun _ => 2
  flatten_iterBatches := fun _ rows => flatten_singleton

/-- The keywords of both registrations. -/
def twoMetadata : Metadata where
  venue := "fixture"
  instrument := "BTCUSDT"
  dataType := "trade"
  timestampColumn := "exchange_ts_ns"
  rights := "fixture only"
  provenance := "unit-test"
  availability := "reconstructed_available"
  expectedIntervalNs := some 10

/-- The registry after both registrations. -/
def twoRegistered : Registry (Fin 3) :=
  Machine.run (Registry.step twoFiles) Registry.empty [(twoMetadata, 0), (twoMetadata, 1)]

/-- What is missing from the one file to the other. -/
def twoGap : DataGap where
  startNs := 30
  endNs := 40
  missingCount := 2
  reason := "missing_expected_timestamp"
  start_mem := by decide
  end_mem := by decide
  missing_pos := by decide
  reason_mem := by decide
  ordered := by decide

/-- The manifest of both files. -/
def twoParts : DatasetManifest where
  toMetadata := twoMetadata
  files := twoRegistered.published.flatMap (·.2.2.files)
  rows := 3
  startNs := 10
  endNs := 50
  gaps := [twoGap]
  columns := ["exchange_ts_ns"]
  arrowSchema := "exchange_ts_ns: int64"
  datasetId := digestOf 'c' (by decide)
  valid := by decide +kernel

/-- Two registered files are verified together, with the gap between them. -/
theorem dataset_gaps_twoParts :
    twoParts.files.length = 2 ∧ verify twoFiles twoRegistered.files twoParts = .ok twoParts := by
  have hC : Set.InjOn twoFiles.sha256
      {b | ∃ request ∈ [(twoMetadata, (0 : Fin 3)), (twoMetadata, 1)], request.2 = b} := by
    intro a _ b _
    revert a b
    decide +kernel
  refine ⟨by decide +kernel, ((dataset_gaps twoFiles).2.2 _ hC).2 twoMetadata
    [⟨"exchange_ts_ns", .integer⟩] (twoRegistered.published.map (·.2))
    ⟨3, 10, 50, [twoGap], ["exchange_ts_ns"], "exchange_ts_ns: int64", none, none⟩ twoParts ?_ ?_
    rfl ?_ rfl rfl rfl rfl ?_⟩
  · intro piece hpiece
    have hmem : ∀ entry ∈ twoRegistered.published, entry.1 = twoMetadata
        ∧ (entry.2.1 = 0 ∨ entry.2.1 = 1) := by decide +kernel
    obtain ⟨entry, he, rfl⟩ := mem_map.mp hpiece
    obtain ⟨hmetadata, hbytes⟩ := hmem entry he
    have hentry : (twoMetadata, entry.2) = entry := Prod.ext hmetadata.symm rfl
    refine ⟨?_, ?_⟩
    · rw [hentry]
      exact he
    rcases hbytes with hbytes | hbytes
    · rw [hbytes]
      exact ⟨_, rfl⟩
    · rw [hbytes]
      exact ⟨_, rfl⟩
  · decide +kernel
  · exact (flatMap_map ..).symm
  · decide +kernel

end Qt.Datasets
