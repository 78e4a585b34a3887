import Mathlib.Algebra.BigOperators.Group.List.Basic
import Mathlib.Data.PNat.Basic
import QuantTrading.Lib.Machine

/-!
# The flush of the market-data collector

`_record` and `flush` of `qt.marketdata.collector`: events are appended to a
buffer, and a flush hands the buffer to a thread that registers it as one
immutable batch, tells the manifest to a callback, and takes the batch off the
buffer.

The coroutines run on one event loop, so what happens between two awaits is one
step; which coroutine goes on next, whether it is cancelled at its await, what
the thread and the callback answer, and whether the flush interval has passed
are in the labels. A coroutine may take the free lock in any order, which
includes the order in which the lock is waited for.
-/

namespace Qt

open List Function

/-! ## State -/

/-- A market event, with what the collector does not look at in `P`. -/
structure MarketEvent (P : Type) where
  eventType : String
  exchangeTsNs : ℕ
  receivedTsNs : ℕ
  sequence : Option ℕ
  payload : P
deriving DecidableEq

/-- A row of the buffer. -/
structure Record where
  receivedTsNs : ℕ
  exchangeTsNs : ℕ
  eventType : String
  sequence : Option ℕ
  eventJson : String
deriving DecidableEq, Repr

/-- The bytes of the encoded event. -/
def Record.size (r : Record) : ℕ := r.eventJson.utf8ByteSize

/-- The thread that writes a batch. -/
inductive Publication | running | succeeded | failed
deriving DecidableEq, Repr

/-- The task on the event loop that awaits the thread. -/
inductive TaskState | pending | settled | cancelled
deriving DecidableEq, Repr

/-- `_registration`, with the batch it was started with. -/
structure Registration where
  batch : List Record
  thread : Publication
  task : TaskState
deriving DecidableEq, Repr

/-- The arguments of the constructor that the flush depends on. -/
structure CollectorConfig where
  batchSize : ℕ+
  maximumBufferBytes : ℕ
  onManifest : Bool
deriving DecidableEq

structure Collector where
  records : List Record
  recordBytes : ℤ
  /-- The coroutine that holds `_flush_lock`. -/
  flushLock : Option ℕ
  registration : Option Registration
  pendingCount : ℕ
  pendingBytes : ℤ
  lastReceivedNs : ℕ
deriving DecidableEq

/-- What is left to do after a flush has returned: nothing, or to append the
event for which `_record` made room. -/
inductive Rest
  | done
  | append (record : Record)
deriving DecidableEq, Repr

/-- Where a coroutine is: at no await, or at one of the three of a flush. -/
inductive Coroutine
  | idle
  | locking (rest : Rest)
  | registering (rest : Rest)
  | notifying (rest : Rest)
deriving DecidableEq, Repr

/-- **The collector among its coroutines**, with the batches that the registry
has published and the events that have been recorded. -/
structure Collecting where
  collector : Collector
  coroutines : ℕ → Coroutine
  published : List (List Record)
  recorded : List Record

namespace Collecting

/-- A new collector. -/
def init : Collecting where
  collector :=
    { records := []
      recordBytes := 0
      flushLock := none
      registration := none
      pendingCount := 0
      pendingBytes := 0
      lastReceivedNs := 0 }
  coroutines := fun _ => .idle
  published := []
  recorded := []

/-! ## Steps -/

/-- What the manifest callback does when it is called. -/
inductive Answer | raises | returns | awaits
deriving DecidableEq, Repr

/-- One step of the event loop, of the publishing thread, or of whoever cancels
a task. `due` says whether the flush interval has passed when it is looked
at. -/
inductive Label (P : Type)
  | record (i : ℕ) (event : MarketEvent P) (due : Bool)
  | flush (i : ℕ)
  | locked (i : ℕ) (tabled due : Bool)
  | thread (succeeds : Bool)
  | settle
  | registered (i : ℕ) (answer : Answer) (due : Bool)
  | notified (i : ℕ) (succeeds due : Bool)
  | cancel (i : ℕ)
  | cancelRegistration

variable {P : Type} (config : CollectorConfig) (modelDumpJson : MarketEvent P → String)
  (w : Collecting) (i : ℕ)

/-- The coroutine goes to another await. -/
def goto (c : Coroutine) : Collecting :=
  { w with coroutines := Function.update w.coroutines i c }

/-- The lock is released, by a return or by an exception. -/
def leave : Collecting :=
  { w.goto i .idle with collector := { w.collector with flushLock := none } }

def row (event : MarketEvent P) : Record where
  receivedTsNs := event.receivedTsNs
  exchangeTsNs := event.exchangeTsNs
  eventType := event.eventType
  sequence := event.sequence
  eventJson := modelDumpJson event

/-- The row is appended and its bytes are counted. -/
def push (record : Record) : Collecting :=
  { w with
    collector :=
      { w.collector with
        records := w.collector.records ++ [record]
        recordBytes := w.collector.recordBytes + record.size }
    recorded := w.recorded ++ [record] }

/-- `_record` from where it appends the row. -/
def append (record : Record) (due : Bool) : Collecting :=
  if config.batchSize ≤ (w.push record).collector.records.length ∨ due then
    (w.push record).goto i (.locking .done)
  else
    (w.push record).goto i .idle

/-- The row is appended at once if the buffer has room for it. -/
def makeRoom (record : Record) (due : Bool) : Collecting :=
  if config.maximumBufferBytes < record.size then w
  else if w.collector.records ≠ [] ∧
      config.maximumBufferBytes < w.collector.recordBytes + record.size then
    w.goto i (.locking (.append record))
  else w.append config i record due

/-- The receipt time is the last one seen. -/
def see (receivedTsNs : ℕ) : Collecting :=
  { w with collector := { w.collector with lastReceivedNs := receivedTsNs } }

/-- `_record` up to its first await. -/
def record (event : MarketEvent P) (due : Bool) : Collecting :=
  if event.receivedTsNs < w.collector.lastReceivedNs then w
  else (w.see event.receivedTsNs).makeRoom config i (row modelDumpJson event) due

variable (rest : Rest)

/-- The flush has returned; the lock is released. -/
def resume (due : Bool) : Collecting :=
  match rest with
  | .done => w.leave i
  | .append r => (w.leave i).append config i r due

/-- The coroutine holds the lock and awaits the registration. -/
def hold : Collecting :=
  { w.goto i (.registering rest) with collector := { w.collector with flushLock := some i } }

/-- What the next registration is for is noted. -/
def capture : Collecting :=
  { w with
    collector :=
      { w.collector with
        pendingCount := w.collector.records.length
        pendingBytes := w.collector.recordBytes } }

/-- What is known of the registration. -/
def register (registration : Option Registration) : Collecting :=
  { w with collector := { w.collector with registration := registration } }

/-- `flush` with the lock, up to the await of the registration. `tabled` says
whether the batch could be made a table. -/
def locked (tabled due : Bool) : Collecting :=
  if w.collector.records = [] then w.resume config i rest due
  else
    match w.collector.registration with
    | some _ => w.hold i rest
    | none =>
      if tabled then
        (w.capture.register (some ⟨w.collector.records, .running, .pending⟩)).hold i rest
      else
        w.capture.leave i

/-- The batch is taken off the buffer. -/
def takeOff : Collecting :=
  { w with
    collector :=
      { w.collector with
        records := w.collector.records.drop w.collector.pendingCount
        recordBytes := w.collector.recordBytes - w.collector.pendingBytes
        registration := none } }

/-- The end of a flush. -/
def deliver (due : Bool) : Collecting :=
  w.takeOff.resume config i rest due

/-- `flush` from where the registration has an outcome. -/
def registered (answer : Answer) (due : Bool) : Collecting :=
  match w.collector.registration with
  | some ⟨_, _, .cancelled⟩ => w.leave i
  | some ⟨_, .failed, .settled⟩ =>
    (w.register none).leave i
  | some ⟨_, .succeeded, .settled⟩ =>
    if config.onManifest then
      match answer with
      | .raises => w.leave i
      | .returns => w.deliver config i rest due
      | .awaits => w.goto i (.notifying rest)
    else w.deliver config i rest due
  | _ => w

/-- One step of the publishing thread. -/
def thread (succeeds : Bool) : Collecting :=
  match w.collector.registration with
  | some ⟨batch, .running, task⟩ =>
    if succeeds then
      { w.register (some ⟨batch, .succeeded, task⟩) with published := w.published ++ [batch] }
    else
      w.register (some ⟨batch, .failed, task⟩)
  | _ => w

/-- The registration task ends: it takes the outcome of the thread, or it is
cancelled, which does not stop the thread. -/
def endTask (cancel : Bool) : Collecting :=
  match w.collector.registration with
  | some ⟨batch, thread, .pending⟩ =>
    if cancel then w.register (some ⟨batch, thread, .cancelled⟩)
    else if thread ≠ .running then w.register (some ⟨batch, thread, .settled⟩)
    else w
  | _ => w

/-- A coroutine is cancelled at its await: the flush lets go of the lock if it
holds it, and keeps the registration. -/
def cancel : Collecting :=
  match w.coroutines i with
  | .idle => w
  | .locking _ => w.goto i .idle
  | .registering _ | .notifying _ => w.leave i

def step : Label P → Collecting
  | .record i event due =>
    match w.coroutines i with
    | .idle => w.record config modelDumpJson i event due
    | _ => w
  | .flush i =>
    match w.coroutines i with
    | .idle => w.goto i (.locking .done)
    | _ => w
  | .locked i tabled due =>
    match w.coroutines i, w.collector.flushLock with
    | .locking rest, none => w.locked config i rest tabled due
    | _, _ => w
  | .thread succeeds => w.thread succeeds
  | .settle => w.endTask false
  | .registered i answer due =>
    match w.coroutines i with
    | .registering rest => w.registered config i rest answer due
    | _ => w
  | .notified i succeeds due =>
    match w.coroutines i with
    | .notifying rest => if succeeds then w.deliver config i rest due else w.leave i
    | _ => w
  | .cancel i => w.cancel i
  | .cancelRegistration => w.endTask true

/-- **The collector after some steps.** -/
def after (ls : List (Label P)) : Collecting :=
  Machine.run (step config modelDumpJson) init ls

/-! ## The account of the records -/

/-- The batch that has been published and is still in the buffer. -/
def kept : List (List Record) :=
  match w.collector.registration with
  | some ⟨batch, .succeeded, _⟩ => [batch]
  | _ => []

def inside : Coroutine → Bool
  | .registering _ | .notifying _ => true
  | .idle | .locking _ => false

/-- **The account of the records**, with the batches that are off the buffer:
the recorded events are these batches and the buffer, and the published batches
are these and the one that is kept. A registration is for the first
`pendingCount` records. -/
structure Accounts (w : Collecting) (delivered : List (List Record)) : Prop where
  recorded : w.recorded = delivered.flatten ++ w.collector.records
  published : w.published = delivered ++ w.kept
  bytes : w.collector.recordBytes = ((w.collector.records.map Record.size).sum : ℕ)
  batch : ∀ r ∈ w.collector.registration,
    r.batch = w.collector.records.take w.collector.pendingCount
  count : ∀ r ∈ w.collector.registration, w.collector.pendingCount ≤ w.collector.records.length
  pendingBytes : ∀ r ∈ w.collector.registration,
    w.collector.pendingBytes = ((r.batch.map Record.size).sum : ℕ)

/-- **The critical section**: only the holder of the lock awaits a
registration, there is one to await, and it has succeeded before its manifest is
told. -/
structure Sections (w : Collecting) : Prop where
  holder : ∀ i, inside (w.coroutines i) → w.collector.flushLock = some i
  awaited : ∀ i, inside (w.coroutines i) → w.collector.registration.isSome
  notified : ∀ i rest, w.coroutines i = .notifying rest →
    ∃ r ∈ w.collector.registration, r.thread = .succeeded

/-- What the collector keeps through every step. -/
structure Consistent (w : Collecting) : Prop where
  accounts : ∃ delivered, w.Accounts delivered
  sections : w.Sections

theorem consistent_init : Consistent init where
  accounts := by
    refine ⟨[], rfl, rfl, rfl, ?_, ?_, ?_⟩ <;> exact fun _ h => nomatch h
  sections := by
    refine ⟨?_, ?_, ?_⟩
    · exact fun _ h => nomatch h
    · exact fun _ h => nomatch h
    · exact fun _ _ h => nomatch h

variable {w}

/-- A coroutine that is at no await of a registration has no part in the
critical section. -/
theorem Sections.of_outside (h : ∀ i, inside (w.coroutines i) = false) : w.Sections where
  holder := fun i hi => nomatch (h i).symm.trans hi
  awaited := fun i hi => nomatch (h i).symm.trans hi
  notified := fun i _ hi => nomatch (h i).symm.trans (congrArg inside hi)

variable {ds : List (List Record)}

/-- The accounts do not depend on where the coroutines are, nor on the lock. -/
theorem Accounts.leave (h : w.Accounts ds) (i : ℕ) : (w.leave i).Accounts ds :=
  ⟨h.recorded, h.published, h.bytes, h.batch, h.count, h.pendingBytes⟩

theorem Accounts.goto (h : w.Accounts ds) (i : ℕ) (c : Coroutine) : (w.goto i c).Accounts ds :=
  ⟨h.recorded, h.published, h.bytes, h.batch, h.count, h.pendingBytes⟩

variable {i}

/-- Once the holder of the lock leaves, no coroutine is inside. -/
theorem Sections.outside_leave (h : w.Sections)
    (hi : inside (w.coroutines i) ∨ w.collector.flushLock = none) (j : ℕ) :
    inside ((w.leave i).coroutines j) = false := by
  show inside (Function.update w.coroutines i .idle j) = false
  by_cases hj : j = i
  · rw [hj, update_self]
    rfl
  · rw [update_of_ne hj]
    by_contra hin
    have hlock := h.holder j (by simpa using hin)
    rcases hi with hi | hi
    · exact hj (Option.some.inj (hlock.symm.trans (h.holder i hi)))
    · exact nomatch hlock.symm.trans hi

variable {c : Coroutine}

/-- A coroutine may go to an await outside the lock at any time. -/
theorem Sections.goto (h : w.Sections) (i : ℕ) (hc : inside c = false) : (w.goto i c).Sections := by
  have hmem : ∀ j, inside ((w.goto i c).coroutines j) →
      (w.goto i c).coroutines j = w.coroutines j := by
    intro j hj
    by_cases hji : j = i
    · have hidle : (w.goto i c).coroutines j = c := by
        rw [hji]
        exact update_self i c w.coroutines
      rw [hidle, hc] at hj
      cases hj
    · exact update_of_ne hji c w.coroutines
  constructor
  · exact fun j hj => h.holder j (hmem j hj ▸ hj)
  · exact fun j hj => h.awaited j (hmem j hj ▸ hj)
  · exact fun j rest hj => h.notified j rest ((hmem j (hj ▸ rfl)).symm.trans hj)

/-! ## What a step does to the accounts -/

theorem Accounts.push (h : w.Accounts ds) (r : Record) : (w.push r).Accounts ds := by
  refine ⟨?_, h.published, ?_, ?_, ?_, h.pendingBytes⟩
  · show w.recorded ++ [r] = ds.flatten ++ (w.collector.records ++ [r])
    rw [h.recorded, append_assoc]
  · show w.collector.recordBytes + r.size = (((w.collector.records ++ [r]).map Record.size).sum : ℕ)
    rw [h.bytes]
    simp
  · intro r' hr'
    exact (h.batch r' hr').trans (take_append_of_le_length (h.count r' hr')).symm
  · intro r' hr'
    show w.collector.pendingCount ≤ (w.collector.records ++ [r]).length
    exact (h.count r' hr').trans (length_append ▸ Nat.le_add_right _ _)

/-- What is noted for the next registration changes nothing while there is
none. -/
theorem Accounts.capture (h : w.Accounts ds) (hnone : w.collector.registration = none) :
    w.capture.Accounts ds := by
  refine ⟨h.recorded, h.published, h.bytes, ?_, ?_, ?_⟩ <;>
  · intro r hr
    exact nomatch hnone.symm.trans hr

/-- **A registration starts with the whole buffer.** -/
theorem Accounts.start (h : w.Accounts ds) (hnone : w.collector.registration = none) :
    (w.capture.register (some ⟨w.collector.records, .running, .pending⟩)).Accounts ds := by
  have hkept : w.kept = [] := by simp only [kept, hnone]
  refine ⟨h.recorded, ?_, h.bytes, ?_, fun _ _ => le_rfl, ?_⟩
  · exact h.published.trans (congrArg (ds ++ ·) hkept)
  · rintro _ ⟨rfl⟩
    exact take_length.symm
  · rintro _ ⟨rfl⟩
    exact h.bytes

/-- A registration that has not been published is forgotten without a trace. -/
theorem Accounts.forget (h : w.Accounts ds) (hkept : w.kept = []) :
    (w.register none).Accounts ds := by
  refine ⟨h.recorded, h.published.trans (congrArg (ds ++ ·) hkept), h.bytes, ?_, ?_, ?_⟩ <;>
  · intro r hr
    exact nomatch (show (none : Option Registration) = some r from hr)

variable {r : Registration}

/-- **The published batch comes off the buffer.** -/
theorem Accounts.takeOff (h : w.Accounts ds) (hr : w.collector.registration = some r)
    (hthread : r.thread = .succeeded) : w.takeOff.Accounts (ds ++ [r.batch]) := by
  have hsplit : w.collector.records
      = r.batch ++ w.collector.records.drop w.collector.pendingCount := by
    rw [h.batch r hr, take_append_drop]
  have hkept : w.kept = [r.batch] := by
    obtain ⟨batch, thread, task⟩ := r
    obtain rfl : thread = .succeeded := hthread
    simp only [kept, hr]
  refine ⟨?_, ?_, ?_, ?_, ?_, ?_⟩
  · calc w.recorded = ds.flatten ++ w.collector.records := h.recorded
      _ = (ds ++ [r.batch]).flatten ++ w.collector.records.drop w.collector.pendingCount := by
        rw [flatten_append, flatten_singleton, append_assoc, ← hsplit]
  · calc w.published = ds ++ w.kept := h.published
      _ = (ds ++ [r.batch]) ++ [] := by rw [hkept, append_nil]
  · show w.collector.recordBytes - w.collector.pendingBytes
        = (((w.collector.records.drop w.collector.pendingCount).map Record.size).sum : ℕ)
    have hsum := congrArg (fun l => (l.map Record.size).sum) hsplit
    simp only [map_append, sum_append] at hsum
    rw [h.bytes, h.pendingBytes r hr, hsum]
    omega
  all_goals
    intro r' hr'
    exact nomatch (show (none : Option Registration) = some r' from hr')

/-- What becomes of the thread and the task of a registration leaves what it is
for as it is. -/
theorem Accounts.progress (h : w.Accounts ds) (hr : w.collector.registration = some r)
    (r' : Registration) (hbatch : r'.batch = r.batch) {published : List (List Record)}
    (hpublished : published = ds ++ (w.register (some r')).kept) :
    Accounts { w.register (some r') with published := published } ds := by
  refine ⟨h.recorded, hpublished, h.bytes, ?_, ?_, ?_⟩
  · rintro _ ⟨rfl⟩
    exact hbatch.trans (h.batch r hr)
  · exact fun _ _ => h.count r hr
  · rintro _ ⟨rfl⟩
    rw [hbatch]
    exact h.pendingBytes r hr

/-! ## What a step does to the critical section -/

theorem Sections.hold (h : w.Sections) (hfree : w.collector.flushLock = none)
    (hsome : w.collector.registration.isSome) (i : ℕ) (rest : Rest) : (w.hold i rest).Sections := by
  have hother : ∀ j, inside (w.coroutines j) = false := by
    intro j
    by_contra hj
    exact nomatch (h.holder j (by simpa using hj)).symm.trans hfree
  have hcases : ∀ j, j = i ∧ (w.hold i rest).coroutines j = .registering rest ∨
      inside ((w.hold i rest).coroutines j) = false := by
    intro j
    by_cases hji : j = i
    · refine .inl ⟨hji, ?_⟩
      rw [hji]
      exact update_self i _ w.coroutines
    · refine .inr ?_
      rw [show (w.hold i rest).coroutines j = w.coroutines j from update_of_ne hji _ w.coroutines]
      exact hother j
  refine ⟨?_, fun _ _ => hsome, ?_⟩
  · intro j hj
    obtain ⟨hji, -⟩ | hout := hcases j
    · exact congrArg some hji.symm
    · exact nomatch hout.symm.trans hj
  · intro j rest' hj
    obtain ⟨-, hreg⟩ | hout := hcases j
    · exact nomatch hreg.symm.trans hj
    · exact nomatch hout.symm.trans (congrArg inside hj)

variable {rest}

/-- The holder of the lock goes on to tell the manifest of a batch that has
been published. -/
theorem Sections.notify (h : w.Sections) (hi : w.coroutines i = .registering rest)
    (hr : w.collector.registration = some r) (hthread : r.thread = .succeeded) :
    (w.goto i (.notifying rest)).Sections := by
  have hin : inside (w.coroutines i) := congrArg inside hi
  have hmem : ∀ j, inside ((w.goto i (.notifying rest)).coroutines j) → inside (w.coroutines j) := by
    intro j hj
    by_cases hji : j = i
    · exact hji ▸ hin
    · rwa [show (w.goto i (.notifying rest)).coroutines j = w.coroutines j from
        update_of_ne hji _ w.coroutines] at hj
  exact ⟨fun j hj => h.holder j (hmem j hj), fun j hj => h.awaited j (hmem j hj),
    fun _ _ _ => ⟨r, hr, hthread⟩⟩

/-- A registration that goes on keeps what its awaiting coroutines rely on. -/
theorem Sections.progress (h : w.Sections) (hr : w.collector.registration = some r)
    (r' : Registration) (hthread : r.thread = .succeeded → r'.thread = .succeeded)
    (published : List (List Record)) :
    Sections { w.register (some r') with published := published } := by
  refine ⟨h.holder, fun _ _ => rfl, ?_⟩
  intro i rest hi
  obtain ⟨r₀, hr₀, hsucceeded⟩ := h.notified i rest hi
  obtain rfl : r = r₀ := Option.some.inj (hr.symm.trans hr₀)
  exact ⟨r', rfl, hthread hsucceeded⟩

/-! ## What a step keeps -/

section

variable (h : w.Consistent)
include h

theorem Consistent.goto (i : ℕ) (hc : inside c = false) :
    (w.goto i c).Consistent := by
  obtain ⟨⟨ds, ha⟩, hs⟩ := h
  exact ⟨⟨ds, ha.goto i c⟩, hs.goto i hc⟩

/-- Leaving the lock keeps everything that is not inside it. -/
theorem Consistent.leave
    (hi : inside (w.coroutines i) ∨ w.collector.flushLock = none) : (w.leave i).Consistent := by
  obtain ⟨⟨ds, ha⟩, hs⟩ := h
  exact ⟨⟨ds, ha.leave i⟩, .of_outside (hs.outside_leave hi)⟩

/-- **Recording** extends the recorded events and the buffer alike. -/
theorem Consistent.append (i : ℕ) (r : Record) (due : Bool) :
    (w.append config i r due).Consistent := by
  obtain ⟨⟨ds, ha⟩, hs⟩ := h
  have hpushed : (w.push r).Consistent := ⟨⟨ds, ha.push r⟩, ⟨hs.holder, hs.awaited, hs.notified⟩⟩
  unfold Collecting.append
  split
  · exact hpushed.goto i rfl
  · exact hpushed.goto i rfl

theorem Consistent.makeRoom (i : ℕ) (r : Record) (due : Bool) :
    (w.makeRoom config i r due).Consistent := by
  unfold Collecting.makeRoom
  split
  · exact h
  · split
    · exact h.goto i rfl
    · exact h.append config i r due

/-- `_record` keeps the accounts up to its first await. -/
theorem Consistent.record (i : ℕ) (event : MarketEvent P) (due : Bool) :
    (w.record config modelDumpJson i event due).Consistent := by
  unfold Collecting.record
  split
  · exact h
  · obtain ⟨⟨ds, ha⟩, hs⟩ := h
    have hseen : (w.see event.receivedTsNs).Consistent :=
      ⟨⟨ds, ha.recorded, ha.published, ha.bytes, ha.batch, ha.count, ha.pendingBytes⟩,
        ⟨hs.holder, hs.awaited, hs.notified⟩⟩
    exact hseen.makeRoom config i _ due

end

/-- After a flush, the coroutine goes on with what is left to it. -/
theorem Consistent.resume (h : (w.leave i).Consistent) (rest : Rest) (due : Bool) :
    (w.resume config i rest due).Consistent := by
  cases rest with
  | done => exact h
  | append r => exact h.append config i r due

section

variable (h : w.Consistent)
include h

/-- **A flush that has told its manifest** takes the published batch off the
buffer. -/
theorem Consistent.deliver (hi : inside (w.coroutines i))
    (hr : w.collector.registration = some r) (hthread : r.thread = .succeeded) (rest : Rest)
    (due : Bool) : (w.deliver config i rest due).Consistent := by
  obtain ⟨⟨ds, ha⟩, hs⟩ := h
  have houtside : ∀ j, inside ((w.takeOff.leave i).coroutines j) = false :=
    hs.outside_leave (.inl hi)
  exact Consistent.resume config
    ⟨⟨_, (ha.takeOff hr hthread).leave i⟩, .of_outside houtside⟩ rest due

/-- **A flush that has the lock** awaits the batch that is retained, or
captures the buffer as another. -/
theorem Consistent.locked (hfree : w.collector.flushLock = none) (i : ℕ)
    (rest : Rest) (tabled due : Bool) : (w.locked config i rest tabled due).Consistent := by
  obtain ⟨⟨ds, ha⟩, hs⟩ := h
  unfold Collecting.locked
  split
  · exact (Consistent.leave ⟨⟨ds, ha⟩, hs⟩ (.inr hfree)).resume config rest due
  · split
    next r hr =>
      refine ⟨⟨ds, ?_⟩, hs.hold hfree (by simp [hr]) i rest⟩
      exact ⟨ha.recorded, ha.published, ha.bytes, ha.batch, ha.count, ha.pendingBytes⟩
    next hr =>
      have hcaptured := ha.capture hr
      split
      · have hstart := ha.start hr
        have hsections : (w.capture.register
            (some ⟨w.collector.records, .running, .pending⟩)).Sections :=
          ⟨hs.holder, fun _ _ => rfl, fun i rest hi =>
            have ⟨r, hmem, _⟩ := hs.notified i rest hi
            nomatch hr.symm.trans hmem⟩
        refine ⟨⟨ds, ?_⟩, hsections.hold hfree rfl i rest⟩
        exact ⟨hstart.recorded, hstart.published, hstart.bytes, hstart.batch, hstart.count,
          hstart.pendingBytes⟩
      · exact Consistent.leave ⟨⟨ds, hcaptured⟩, ⟨hs.holder, hs.awaited, hs.notified⟩⟩ (.inr hfree)

/-- **A flush that sees what became of its registration** forgets a failed one,
and keeps a published one until its manifest is told. -/
theorem Consistent.registered (hi : w.coroutines i = .registering rest)
    (answer : Answer) (due : Bool) : (w.registered config i rest answer due).Consistent := by
  have hin : inside (w.coroutines i) := congrArg inside hi
  unfold Collecting.registered
  split
  next => exact h.leave (.inl hin)
  next hr =>
    obtain ⟨⟨ds, ha⟩, hs⟩ := h
    have hkept : w.kept = [] := by simp only [kept, hr]
    have houtside : ∀ j, inside (((w.register none).leave i).coroutines j) = false :=
      hs.outside_leave (.inl hin)
    exact ⟨⟨ds, (ha.forget hkept).leave i⟩, .of_outside houtside⟩
  next hr =>
    split
    · cases answer with
      | raises => exact h.leave (.inl hin)
      | returns => exact h.deliver config hin hr rfl rest due
      | awaits =>
        obtain ⟨⟨ds, ha⟩, hs⟩ := h
        exact ⟨⟨ds, ha.goto i _⟩, hs.notify hi hr rfl⟩
    · exact h.deliver config hin hr rfl rest due
  next => exact h

/-- **The thread publishes its batch or not**, whoever still awaits it. -/
theorem Consistent.thread (succeeds : Bool) :
    (w.thread succeeds).Consistent := by
  unfold Collecting.thread
  split
  next batch task hr =>
    obtain ⟨⟨ds, ha⟩, hs⟩ := h
    have hpublished : w.published = ds ++ [] := by
      rw [ha.published]
      simp only [kept, hr]
    split
    · refine ⟨⟨ds, ha.progress hr ⟨batch, .succeeded, task⟩ rfl ?_⟩,
        hs.progress hr _ (fun hrun => nomatch hrun) _⟩
      rw [hpublished, append_nil]
      rfl
    · exact ⟨⟨ds, ha.progress hr ⟨batch, .failed, task⟩ rfl hpublished⟩,
        hs.progress hr _ (fun hrun => nomatch hrun) _⟩
  next => exact h

theorem Consistent.endTask (cancel : Bool) : (w.endTask cancel).Consistent := by
  unfold Collecting.endTask
  split
  next batch thread hr =>
    obtain ⟨⟨ds, ha⟩, hs⟩ := h
    have hpublished : ∀ task, w.published = ds ++ (w.register (some ⟨batch, thread, task⟩)).kept := by
      intro task
      rw [ha.published]
      cases thread <;> simp only [kept, register, hr]
    split
    · exact ⟨⟨ds, ha.progress hr ⟨batch, thread, .cancelled⟩ rfl (hpublished _)⟩,
        hs.progress hr ⟨batch, thread, .cancelled⟩ id _⟩
    · split
      · exact ⟨⟨ds, ha.progress hr ⟨batch, thread, .settled⟩ rfl (hpublished _)⟩,
          hs.progress hr ⟨batch, thread, .settled⟩ id _⟩
      · exact ⟨⟨ds, ha⟩, hs⟩
  next => exact h

/-- A cancelled flush keeps the registration for the next one. -/
theorem Consistent.cancel (i : ℕ) : (w.cancel i).Consistent := by
  unfold Collecting.cancel
  split
  next => exact h
  next => exact h.goto i rfl
  next hi => exact h.leave (.inl (congrArg inside hi))
  next hi => exact h.leave (.inl (congrArg inside hi))

/-- **Every step keeps the accounts.** -/
theorem Consistent.step (l : Label P) :
    (step config modelDumpJson w l).Consistent := by
  cases l with
  | record i event due =>
    simp only [Collecting.step]
    split
    · exact h.record config modelDumpJson i event due
    · exact h
  | flush i =>
    simp only [Collecting.step]
    split
    · exact h.goto i rfl
    · exact h
  | locked i tabled due =>
    simp only [Collecting.step]
    split
    next rest _ hfree => exact h.locked config hfree i rest tabled due
    next => exact h
  | thread succeeds => exact h.thread succeeds
  | settle => exact h.endTask false
  | registered i answer due =>
    simp only [Collecting.step]
    split
    next rest hi => exact h.registered config hi answer due
    next => exact h
  | notified i succeeds due =>
    simp only [Collecting.step]
    split
    next rest hi =>
      have hin : inside (w.coroutines i) := congrArg inside hi
      obtain ⟨r, hr, hthread⟩ := h.sections.notified i rest hi
      split
      · exact h.deliver config hin hr hthread rest due
      · exact h.leave (.inl hin)
    next => exact h
  | cancel i => exact h.cancel i
  | cancelRegistration => exact h.endTask true

end

theorem consistent_after (ls : List (Label P)) : (after config modelDumpJson ls).Consistent :=
  Machine.inv_run Consistent (fun _ l h => h.step config modelDumpJson l) consistent_init ls

/-! ## The published prefix -/

end Collecting

end Qt
