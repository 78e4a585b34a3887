import Mathlib.Data.List.Basic
import Mathlib.Order.Lattice
import Mathlib.Order.Nat

/-!
# The pages of the decision traces

`LabRepository.traces` of `qt.lab.persistence`. The traces of a result are rows of
`lab_decision_traces`, numbered by their places, or they are in the summary of a row of
`research_runs`; then a page numbers them by their places among those that match the time filter
(`renumbered`). Either way one that follows `next_cursor` sees each matching trace once, in order.
-/

namespace Qt.Lab

open List

variable {T P : Type*}

/-- A trace: its texts under the keys that may hold a time, and the rest. -/
structure Trace (P : Type*) where
  knownAt : Option String
  timestamp : Option String
  time : Option String
  payload : P

/-- A row of `lab_decision_traces`, and an item of a page. A page of `research_runs` leaves out
`knownAt`. -/
structure TraceRow (T P : Type*) where
  sequence : ℕ
  knownAt : Option T
  trace : Trace P

def TraceRow.pair (r : TraceRow T P) : ℕ × Trace P := (r.sequence, r.trace)

structure Page (T P : Type*) where
  items : List (TraceRow T P)
  nextCursor : Option ℕ

inductive TraceError | traceTimestampUnavailable

/-- **`next_cursor` is followed** from a cursor to the last page. -/
inductive Follows (page : Option ℕ → Except TraceError (Page T P)) :
    Option ℕ → List (TraceRow T P) → Prop
  | last {cursor items} : page cursor = .ok ⟨items, none⟩ → Follows page cursor items
  | next {cursor items next rest} : page cursor = .ok ⟨items, some next⟩ →
      Follows page (some next) rest → Follows page cursor (items ++ rest)

theorem Follows.exists_page {page : Option ℕ → Except TraceError (Page T P)} {cursor : Option ℕ}
    {items : List (TraceRow T P)} (h : Follows page cursor items) : ∃ p, page cursor = .ok p := by
  cases h with
  | last h => exact ⟨_, h⟩
  | next h _ => exact ⟨_, h⟩

/-- A page of rows, cut at the next row. -/
def pageFrom (l : List (TraceRow T P)) (window start : ℕ) : Page T P :=
  ⟨(l.filter (start ≤ ·.sequence)).take window,
    (l.filter (start ≤ ·.sequence))[window]?.map TraceRow.sequence⟩

variable {l : List (TraceRow T P)}

/-- The rows from one of them on. -/
theorem filter_sequence (hl : l.Pairwise (·.sequence < ·.sequence)) {n : ℕ} {r : TraceRow T P}
    (hr : l[n]? = some r) : l.filter (r.sequence ≤ ·.sequence) = l.drop n := by
  obtain ⟨hn, hget⟩ := List.getElem?_eq_some_iff.mp hr
  have hdrop : l.drop n = r :: l.drop (n + 1) := hget ▸ drop_eq_getElem_cons hn
  rw [← take_append_drop n l, hdrop, pairwise_append, pairwise_cons] at hl
  conv_lhs => rw [← take_append_drop n l]
  rw [filter_append, filter_eq_nil_iff.mpr, filter_eq_self.mpr, nil_append]
  · intro a ha
    rw [hdrop] at ha
    rcases mem_cons.mp ha with rfl | ha
    · simp
    · simpa using Nat.le_of_lt (hl.2.1.1 a ha)
  · intro a ha
    simpa using hl.2.2 a ha r mem_cons_self

/-- **Pages that are cut at the next row** show every row, once and in order. -/
theorem follows_of_page (hl : l.Pairwise (·.sequence < ·.sequence)) {window : ℕ}
    (hwindow : 0 < window) {page : Option ℕ → Except TraceError (Page T P)}
    (hpage : ∀ cursor : Option ℕ, (∀ c ∈ cursor, ∃ r ∈ l, r.sequence = c) →
      page cursor = .ok (pageFrom l window (cursor.getD 0))) : Follows page none l := by
  have hfollows : ∀ n cursor, (∀ c ∈ cursor, ∃ r ∈ l, r.sequence = c) →
      (l.filter (cursor.getD 0 ≤ ·.sequence)).length ≤ n →
        Follows page cursor (l.filter (cursor.getD 0 ≤ ·.sequence)) := by
    intro n
    induction n with
    | zero =>
      intro cursor hcursor hn
      have hnil := eq_nil_of_length_eq_zero (Nat.le_zero.mp hn)
      refine .last ?_
      rw [hpage cursor hcursor, pageFrom, hnil, take_nil]
      rfl
    | succ n ih =>
      intro cursor hcursor hn
      have hshown : page cursor = .ok ⟨_, _⟩ := hpage cursor hcursor
      have hrows := hl.filter (cursor.getD 0 ≤ ·.sequence)
      generalize hrest : l.filter (cursor.getD 0 ≤ ·.sequence) = rest at hn hshown hrows ⊢
      cases hr : rest[window]? with
      | none =>
        rw [hr, take_of_length_le (getElem?_eq_none_iff.mp hr)] at hshown
        exact .last hshown
      | some r =>
        have hmem : r ∈ l.filter (cursor.getD 0 ≤ ·.sequence) := hrest ▸ mem_of_getElem? hr
        obtain ⟨hmem, hle⟩ := mem_filter.mp hmem
        have hlater : l.filter (r.sequence ≤ ·.sequence) = rest.drop window := by
          rw [← filter_sequence hrows hr, ← hrest, filter_filter]
          refine filter_congr fun a _ => ?_
          simpa using Nat.le_trans (of_decide_eq_true hle)
        have hnext := ih (some r.sequence) (fun c hc => ⟨r, hmem, Option.some.inj hc⟩) (by
          show (l.filter (r.sequence ≤ ·.sequence)).length ≤ n
          rw [hlater, length_drop]
          omega)
        rw [hr] at hshown
        rw [← take_append_drop window rest, ← hlater]
        exact .next hshown hnext
  have hall : l.filter (Option.getD none 0 ≤ ·.sequence) = l := filter_eq_self.mpr (by simp)
  have h := hfollows _ none (fun c hc => nomatch hc) (Nat.le_refl _)
  rwa [hall] at h

/-- Traces with their numbers, from one on. -/
def numbered (knownAt : Trace P → Option T) (all : List (Trace P)) (start : ℕ) :
    List (TraceRow T P) :=
  (all.zipIdx start).map fun x => ⟨x.2, knownAt x.1, x.1⟩

section Numbered

variable (knownAt : Trace P → Option T) (all : List (Trace P)) (start : ℕ)

theorem pairwise_numbered :
    (numbered knownAt all start).Pairwise (·.sequence < ·.sequence) := by
  have hplaces : (numbered knownAt all start).map TraceRow.sequence = range' start all.length := by
    rw [numbered, map_map]
    exact zipIdx_map_snd start all
  rw [← pairwise_map, hplaces]
  exact pairwise_lt_range'

theorem map_trace_numbered : (numbered knownAt all start).map TraceRow.trace = all := by
  rw [numbered, map_map]
  exact zipIdx_map_fst start all

theorem getElem?_numbered (n : ℕ) : (numbered knownAt all start)[n]? =
    all[n]?.map fun t => ⟨start + n, knownAt t, t⟩ := by
  simp [numbered, getElem?_zipIdx, Function.comp_def]

/-- From a place on, there are the traces from it on. -/
theorem filter_numbered : (numbered knownAt all 0).filter (start ≤ ·.sequence) =
    numbered knownAt (all.drop start) start := by
  rcases Nat.lt_or_ge start all.length with hlt | hle
  · have hrow : (numbered knownAt all 0)[start]? =
        some ⟨start, knownAt all[start], all[start]⟩ := by
      simp [getElem?_numbered, hlt]
    rw [filter_sequence (pairwise_numbered _ _ _) hrow]
    refine List.ext_getElem? fun n => ?_
    simp [getElem?_numbered]
  · rw [drop_eq_nil_of_le hle, filter_eq_nil_iff.mpr]
    · rfl
    · intro r hr
      obtain ⟨x, hx, rfl⟩ := mem_map.mp hr
      have hlt := snd_lt_of_mem_zipIdx hx
      simp only [decide_eq_true_eq]
      omega

end Numbered

/-! ## The repository -/

/-- What is stored of a result. -/
structure Stored (T P : Type*) where
  rows : List (TraceRow T P)
  native : Option (List (Trace P))

/-- `from_time` and `to_time`. -/
structure TimeFilter (T : Type*) where
  fromTime : Option T
  toTime : Option T

variable [LinearOrder T]

namespace TimeFilter

variable (f : TimeFilter T)

def given : Bool := f.fromTime.isSome || f.toTime.isSome

/-- A time that is missing compares with nothing. -/
def admits : Option T → Bool
  | none => !f.given
  | some t => f.fromTime.all (· ≤ t) && f.toTime.all (t ≤ ·)

variable {f} in
theorem admits_of_not_given (h : ¬ f.given = true) (t : Option T) : f.admits t = true := by
  obtain ⟨_ | _, _ | _⟩ := f <;> cases t <;> simp_all [given, admits]

end TimeFilter

/- A text as a time of UTC, where it is one: `datetime.fromisoformat`, `astimezone` and
`isoformat`. -/
variable (utc : String → Option T)

/-- `_trace_timestamp`. -/
def traceTimestamp (trace : Trace P) : Option T :=
  ((trace.knownAt.or trace.timestamp).or trace.time).bind utc

/-- The rows of **`store_result`**. -/
def storeResult (all : List (Trace P)) : List (TraceRow T P) :=
  numbered (traceTimestamp utc) all 0

variable (window : ℕ) (f : TimeFilter T) (all : List (Trace P))

/-- Whether some trace has a time. -/
def timestamped : Bool := all.any fun t => (traceTimestamp utc t).isSome

/-- A page of the traces in a summary. -/
def nativePage (start : ℕ) : Except TraceError (Page T P) :=
  if f.given && !timestamped utc all then .error .traceTimestampUnavailable
  else
    let items := if f.given then all.filter fun t => f.admits (traceTimestamp utc t) else all
    .ok ⟨numbered (fun _ => none) ((items.drop start).take window) start,
      if start + window < items.length then some (start + window) else none⟩

/-- **`traces`.** -/
def traces (s : Stored T P) (cursor : Option ℕ) : Except TraceError (Page T P) :=
  let start := cursor.getD 0
  let rows := (s.rows.filter fun r => start ≤ r.sequence && f.admits r.knownAt).take (window + 1)
  match rows, s.native with
  | [], some all => nativePage utc window f all start
  | rows, _ =>
    if f.given && rows.isEmpty && !s.rows.any fun r => r.knownAt.isSome then
      .error .traceTimestampUnavailable
    else .ok ⟨rows.take window, rows[window]?.map TraceRow.sequence⟩

/-- The traces that match, with their places. -/
def matching : List (TraceRow T P) :=
  (storeResult utc all).filter fun r => f.admits r.knownAt

/-- The traces that match. -/
def hits : List (Trace P) := all.filter fun t => f.admits (traceTimestamp utc t)

theorem map_trace_matching : (matching utc f all).map TraceRow.trace = hits utc f all := by
  have hknown : ∀ r ∈ storeResult utc all, r.knownAt = traceTimestamp utc r.trace := by
    intro r hr
    obtain ⟨x, -, rfl⟩ := mem_map.mp hr
    rfl
  rw [matching, filter_congr fun r hr => congrArg f.admits (hknown r hr), hits]
  conv_rhs => rw [← map_trace_numbered (traceTimestamp utc) all 0, filter_map]
  rfl

variable {utc f all} {window}

theorem nativePage_eq (h : f.given = true → timestamped utc all = true) (start : ℕ) :
    nativePage utc window f all start =
      .ok (pageFrom (numbered (fun _ => none) (hits utc f all) 0) window start) := by
  have hrefused : ¬ (f.given && !timestamped utc all) = true := by
    simpa using h
  have hitems : (if f.given then all.filter fun t => f.admits (traceTimestamp utc t) else all) =
      hits utc f all := by
    split_ifs with hgiven
    · rfl
    · exact (filter_eq_self.mpr fun t _ => f.admits_of_not_given hgiven _).symm
  rw [nativePage, if_neg hrefused, pageFrom, filter_numbered]
  simp only [hitems]
  congr 2
  · refine List.ext_getElem? fun n => ?_
    simp only [getElem?_take, getElem?_numbered]
    split_ifs <;> rfl
  · rw [getElem?_numbered, getElem?_drop]
    split_ifs with hlt
    · simp [getElem?_eq_getElem hlt]
    · simp [getElem?_eq_none (Nat.le_of_not_lt hlt)]

/-- A page of the projection, whether the traces are in a summary too or not. -/
theorem labPage_eq (h : f.given = true → timestamped utc all = true) {cursor : Option ℕ}
    (hcursor : ∀ c ∈ cursor, ∃ r ∈ matching utc f all, r.sequence = c)
    {native : Option (List (Trace P))} (hnative : ∀ l ∈ native, l = all) :
    traces utc window f ⟨storeResult utc all, native⟩ cursor =
      .ok (pageFrom (matching utc f all) window (cursor.getD 0)) := by
  have hrows : (storeResult utc all).filter
      (fun r => cursor.getD 0 ≤ r.sequence && f.admits r.knownAt) =
        (matching utc f all).filter (cursor.getD 0 ≤ ·.sequence) := (filter_filter ..).symm
  have hany : ((storeResult utc all).any fun r => r.knownAt.isSome) = timestamped utc all := by
    conv_rhs => rw [timestamped, ← zipIdx_map_fst 0 all, any_map]
    rw [storeResult, numbered, any_map]
    rfl
  simp only [traces, hrows, hany]
  generalize hfrom : (matching utc f all).filter (cursor.getD 0 ≤ ·.sequence) = rows
  cases rows with
  | cons r rows =>
    have hcut : (r :: rows).take (window + 1) = r :: rows.take window := rfl
    simp only [pageFrom, hfrom, hcut, isEmpty_cons, Bool.and_false, Bool.false_and,
      Bool.false_eq_true, if_false]
    rw [← hcut, take_take, Nat.min_eq_left (Nat.le_succ _),
      getElem?_take_of_lt (Nat.lt_succ_self _)]
  | nil =>
    cases native with
    | none =>
      simp [pageFrom, hfrom]
      exact h
    | some l =>
      obtain rfl := hnative l rfl
      have hnone : matching utc f l = [] := by
        cases cursor with
        | none => simpa using hfrom
        | some c =>
          obtain ⟨r, hr, rfl⟩ := hcursor c rfl
          exact absurd (hfrom ▸ mem_filter.mpr ⟨hr, by simp⟩) not_mem_nil
      have hhits : hits utc f l = [] := by
        rw [← map_trace_matching, hnone, map_nil]
      simp only [take_nil]
      rw [nativePage_eq h, hhits, hnone]
      rfl

/-- **The pages of the decision traces.** Whether they are rows of the projection or in a summary,
one that follows `next_cursor` sees every trace that matches the filter, once and in order: in the
projection with its place, and in a summary too where no time is asked for. A time is refused where
no trace has one. -/
theorem decision_trace_pages (utc : String → Option T) (all : List (Trace P)) (f : TimeFilter T)
    (n : ℕ) :
    ((f.given = true → timestamped utc all = true) →
      (∀ native ∈ [none, some all], Follows
        (traces utc (n + 1) f ⟨storeResult utc all, native⟩) none (matching utc f all)) ∧
      ∃ items, Follows (traces utc (n + 1) f ⟨[], some all⟩) none items ∧
        items.map TraceRow.trace = (matching utc f all).map TraceRow.trace ∧
        (¬ f.given = true → items.map TraceRow.pair = (matching utc f all).map TraceRow.pair)) ∧
    (f.given = true → ¬ timestamped utc all = true → ∀ s ∈ [⟨storeResult utc all, none⟩,
      ⟨storeResult utc all, some all⟩, ⟨[], some all⟩], ∀ cursor,
        traces utc (n + 1) f s cursor = .error .traceTimestampUnavailable) := by
  refine ⟨fun h => ⟨fun native hnative => ?_, numbered (fun _ => none) (hits utc f all) 0, ?_, ?_,
    fun hgiven => ?_⟩, fun hgiven h => ?_⟩
  · refine follows_of_page ((pairwise_numbered _ _ _).filter _) (Nat.succ_pos n)
      fun cursor hcursor => labPage_eq h hcursor fun l hl => ?_
    simpa [Option.mem_def.mp hl] using hnative
  · exact follows_of_page (pairwise_numbered _ _ _) (Nat.succ_pos n) fun cursor _ =>
      nativePage_eq h _
  · rw [map_trace_numbered, map_trace_matching]
  · have hall : ∀ t, f.admits t = true := f.admits_of_not_given hgiven
    rw [hits, matching, filter_eq_self.mpr fun _ _ => hall _, filter_eq_self.mpr fun _ _ => hall _]
    simp only [storeResult, numbered, map_map]
    rfl
  · have hnone : ∀ t ∈ all, traceTimestamp utc t = none := by
      simpa [timestamped] using h
    have hrow : ∀ r ∈ storeResult utc all, r.knownAt = none := by
      intro r hr
      obtain ⟨x, hx, rfl⟩ := mem_map.mp hr
      exact hnone x.1 (fst_mem_of_mem_zipIdx hx)
    have hrows : ∀ start, (storeResult utc all).filter
        (fun r => start ≤ r.sequence && f.admits r.knownAt) = [] := fun start =>
      filter_eq_nil_iff.mpr fun r hr => by simp [hrow r hr, TimeFilter.admits, hgiven]
    have hrefused : ∀ start, nativePage utc (n + 1) f all start =
        .error .traceTimestampUnavailable :=
      fun start => if_pos (by simp [hgiven, h])
    simpa [traces, hrows, hgiven, hrefused] using hrow

namespace Sample

/-- Two days. -/
def days : List (Trace Unit) :=
  [⟨some "2024-01-01T00:00:00Z", none, none, ()⟩, ⟨some "2024-01-02T00:00:00Z", none, none, ()⟩]

/-- The day of a text. -/
def dayOf (text : String) : Option ℕ := if text = "2024-01-01T00:00:00Z" then some 1 else some 2

end Sample

/-- **A time may be refused**, and a page of a summary is renumbered: of two days, the second is
the first one that matches. -/
theorem refused_renumbered : ¬ (∀ (utc : String → Option ℕ) (all : List (Trace Unit))
      (f : TimeFilter ℕ) (n : ℕ), Follows (traces utc (n + 1) f ⟨storeResult utc all, none⟩) none
        (matching utc f all)) ∧
    ¬ ∀ (utc : String → Option ℕ) (all : List (Trace Unit)) (f : TimeFilter ℕ) (n : ℕ) (items),
      Follows (traces utc (n + 1) f ⟨[], some all⟩) none items →
        items.map TraceRow.pair = (matching utc f all).map TraceRow.pair := by
  refine ⟨fun h => ?_, fun h => ?_⟩
  · obtain ⟨_, hpage⟩ := (h (fun _ => none) Sample.days ⟨some 2, none⟩ 0).exists_page
    exact nomatch hpage
  · have hpairs := h Sample.dayOf Sample.days ⟨some 2, none⟩ 0 _ (.last rfl)
    exact absurd (congrArg (·.map Prod.fst) hpairs) (by decide)

end Qt.Lab
