import QuantTrading.Lib.Grid
import QuantTrading.Lib.Machine
import QuantTrading.Lib.Raise

/-!
# The dataset registry

`qt.datasets.registry`: a table is registered as an immutable file under the hash
of its bytes, with a manifest that is measured from the bytes. A table is read in
batches; the last timestamp, and the last time of receipt, are carried from one
batch to the next. Where timestamps are expected on a grid, each step between
neighbours is a gap or none, and anything off the grid is refused. A manifest with
several parts is verified part by part, with the same step from the last
timestamp of a part to the first of the next.

What a batch does is a pass over its rows for each of what is looked at
(`inspectBatch_eq_ok_iff`), so only the rows in a row count and not how they are cut
(`inspectBatches_eq_ok_congr`), and what a part adds to those before it is what it is
alone, behind the step (`Passes.after`). The gaps are the holes of the grid.

Of pyarrow, of hashing and of the JSON codec, `Host` has what the registry uses.
-/

namespace Qt.Datasets

open Except

/-! ## Contracts -/

/-- `DatasetIntegrityError`, and `ValidationError` of a contract. -/
inductive DatasetError
  | integrity (message : String)
  | validation (contract : String)
deriving DecidableEq

def NonEmptyStr (s : String) : Prop := 1 ≤ s.length ∧ s.length ≤ 4096
deriving Decidable

def TimestampNS (n : ℤ) : Prop := 0 ≤ n ∧ n ≤ 2 ^ 63 - 1
deriving Decidable

structure Sha256 where
  text : String
  hex : text.toList.length = 64 ∧ ∀ c ∈ text.toList, c ∈ "0123456789abcdef".toList
deriving DecidableEq

@[ext]
structure DataGap where
  startNs : ℤ
  endNs : ℤ
  missingCount : ℤ
  reason : String
  start_mem : TimestampNS startNs
  end_mem : TimestampNS endNs
  missing_pos : 1 ≤ missingCount
  reason_mem : NonEmptyStr reason
  ordered : startNs ≤ endNs

instance : DecidableEq DataGap := fun _ _ => decidable_of_iff' _ DataGap.ext_iff

/-- `DataGap(…)`. -/
def DataGap.validate (startNs endNs missingCount : ℤ) (reason : String) :
    Except DatasetError DataGap :=
  if h : TimestampNS startNs ∧ TimestampNS endNs ∧ 1 ≤ missingCount ∧ NonEmptyStr reason
      ∧ startNs ≤ endNs then
    .ok ⟨startNs, endNs, missingCount, reason, h.1, h.2.1, h.2.2.1, h.2.2.2.1, h.2.2.2.2⟩
  else .error (.validation "DataGap")

@[ext]
structure DatasetFile where
  relativePath : String
  sha256 : Sha256
  bytes : ℕ
  rows : ℕ
  startNs : ℤ
  endNs : ℤ
  path_mem : NonEmptyStr relativePath
  bytes_pos : 1 ≤ bytes
  rows_pos : 1 ≤ rows
  start_mem : TimestampNS startNs
  end_mem : TimestampNS endNs
  ordered : startNs ≤ endNs

instance : DecidableEq DatasetFile := fun _ _ => decidable_of_iff' _ DatasetFile.ext_iff

/-- `DatasetFile(…)`. -/
def DatasetFile.validate (relativePath : String) (sha256 : Sha256) (bytes rows : ℕ)
    (startNs endNs : ℤ) : Except DatasetError DatasetFile :=
  if h : NonEmptyStr relativePath ∧ 1 ≤ bytes ∧ 1 ≤ rows ∧ TimestampNS startNs ∧ TimestampNS endNs
      ∧ startNs ≤ endNs then
    .ok ⟨relativePath, sha256, bytes, rows, startNs, endNs, h.1, h.2.1, h.2.2.1, h.2.2.2.1,
      h.2.2.2.2.1, h.2.2.2.2.2⟩
  else .error (.validation "DatasetFile")

/-- The keywords of a registration; the provenance as its JSON. -/
structure Metadata where
  venue : String
  instrument : String
  dataType : String
  timestampColumn : String
  rights : String
  provenance : String
  revisionId : String := "initial"
  availability : String := "received"
  expectedIntervalNs : Option ℤ := none
deriving DecidableEq

/-- The fields of a manifest other than its identity. -/
structure ManifestFields extends Metadata where
  files : List DatasetFile
  rows : ℕ
  startNs : ℤ
  endNs : ℤ
  gaps : List DataGap
  columns : List String
  arrowSchema : String
deriving DecidableEq

/-- What the fields of `DatasetManifest` are checked for, `consistent_files` at the end. -/
def ManifestFields.Valid (m : ManifestFields) : Prop :=
  (m.files ≠ [] ∧ 1 ≤ m.rows ∧ TimestampNS m.startNs ∧ TimestampNS m.endNs)
  ∧ (∀ s ∈ [m.venue, m.instrument, m.dataType, m.timestampColumn, m.revisionId, m.rights,
      m.arrowSchema], NonEmptyStr s)
  ∧ (∀ interval ∈ m.expectedIntervalNs, 0 < interval)
  ∧ m.availability ∈ ["received", "reconstructed_available"] ∧ m.columns ≠ []
  ∧ (m.files.map (·.relativePath)).Nodup ∧ (m.files.map (·.rows)).sum = m.rows
  ∧ (m.files.map (·.startNs)).min? = some m.startNs ∧ (m.files.map (·.endNs)).max? = some m.endNs
deriving Decidable

structure DatasetManifest extends ManifestFields where
  datasetId : Sha256
  valid : toManifestFields.Valid
deriving DecidableEq

/-- `DatasetManifest(…)`. -/
def DatasetManifest.validate (fields : ManifestFields) (datasetId : Sha256) :
    Except DatasetError DatasetManifest :=
  if h : fields.Valid then .ok ⟨fields, datasetId, h⟩ else .error (.validation "DatasetManifest")

/-! ## Tables -/

/-- The unit of an Arrow timestamp. -/
inductive TimeUnit | s | ms | us | ns
deriving DecidableEq

def TimeUnit.nanoseconds : TimeUnit → ℤ
  | s => 1000000000
  | ms => 1000000
  | us => 1000
  | ns => 1

/-- The types of Arrow, as far as the registry tells them apart. -/
inductive ArrowType
  | integer
  | timestamp (unit : TimeUnit)
  | floating
  | other (name : String)
deriving DecidableEq

/-- `pa.types.is_integer(type) or pa.types.is_timestamp(type)`. -/
def ArrowType.isTime : ArrowType → Bool
  | .integer => true
  | .timestamp _ => true
  | _ => false

/-- A value of a column; a floating one is `none` where it is not finite. -/
inductive Cell
  | null
  | int (n : ℤ)
  | time (n : ℤ)
  | float (x : Option ℚ)
  | text (s : String)
  | other
deriving DecidableEq

/-- A column of a schema. -/
structure Field where
  name : String
  type : ArrowType
deriving DecidableEq

/-- A row, by column names. -/
abbrev Row := String → Cell

structure DataTable where
  schema : List Field
  rows : List Row

/-- What an event envelope is compared with. -/
structure Envelope where
  venue : String
  instrument : String
  eventType : String
  exchangeTsNs : ℤ
  receivedTsNs : ℤ
  sequence : Option ℤ
deriving DecidableEq

/-- The components of a path. -/
abbrev Path := List (List Char)

/-- What the registry uses of its host, for file contents `B`. -/
structure Host (B : Type) where
  /-- The registry root. -/
  root : Path
  /-- `stat().st_size`. -/
  size : B → ℕ
  /-- `_sha256`. -/
  sha256 : B → Sha256
  /-- `pq.ParquetFile`, `none` where Arrow raises. -/
  parquet : B → Option DataTable
  /-- `iter_batches`. -/
  iterBatches : ℕ → List Row → List (List Row)
  /-- `schema.to_string()`. -/
  schemaText : List Field → String
  /-- `MarketEvent.model_validate_json`. -/
  event : String → Option Envelope
  /-- `content_hash` of the fields of a manifest. -/
  contentHash : ManifestFields → Sha256
  /-- `canonical_json(manifest).encode("utf-8")`. -/
  encode : DatasetManifest → B
  flatten_iterBatches : ∀ size rows, (iterBatches size rows).flatten = rows

variable {B : Type} (host : Host B)

/-- `manifest_identity`. -/
def manifestIdentity (m : ManifestFields) : Sha256 := host.contentHash m

/-! ## Measuring -/

def gap (previous current : ℤ) (intervalNs : Option ℤ) : Except DatasetError (List DataGap) := do
  raiseIf (current < previous) (.integrity "timestamps are out of order; sorting would hide a gap")
  match intervalNs with
  | none => .ok []
  | some interval =>
    let delta := current - previous
    raiseIf (delta ≤ 0 ∨ delta % interval ≠ 0)
      (.integrity "regular-grid timestamps are duplicate or off-grid")
    if interval < delta then do
      let missing ← DataGap.validate (previous + interval) (current - interval)
        (delta / interval - 1) "missing_expected_timestamp"
      return [missing]
    else .ok []

/-- `rows`, `first`, `previous` and `gaps` of `_inspect`. -/
structure Times where
  rows : ℕ := 0
  first : Option ℤ := none
  previous : Option ℤ := none
  gaps : List DataGap := []
deriving DecidableEq

/-- `first_received` and `previous_received`. -/
structure Receipts where
  first : Option ℤ := none
  previous : Option ℤ := none
deriving DecidableEq

/-- What `_inspect` carries from batch to batch. -/
structure Inspection where
  times : Times := {}
  receipts : Receipts := {}
deriving DecidableEq

/-- What `_inspect` returns. -/
structure Measured where
  rows : ℕ
  startNs : ℤ
  endNs : ℤ
  gaps : List DataGap
  columns : List String
  arrowSchema : String
  receivedStartNs : Option ℤ
  receivedEndNs : Option ℤ
deriving DecidableEq

/-- What `pa.ArrowException`, `KeyError` and `TypeError` become. -/
def unreadable : DatasetError := .integrity "Parquet contents or timestamp schema are invalid"

/-- `pc.cast(…, pa.int64(), safe=True)` of a number. -/
def safeInt64 (n : ℤ) : Except DatasetError ℤ :=
  if -2 ^ 63 ≤ n ∧ n < 2 ^ 63 then .ok n else .error unreadable

/-- A timestamp in nanoseconds. -/
def castTime (type : ArrowType) (cell : Cell) : Except DatasetError ℤ :=
  match type, cell with
  | .integer, .int n => safeInt64 n
  | .timestamp unit, .time n => safeInt64 (n * unit.nanoseconds)
  | _, _ => .error unreadable

/-- A time of receipt. -/
def castReceived (cell : Cell) : Except DatasetError ℤ :=
  match cell with
  | .int n => safeInt64 n
  | _ => .error unreadable

/-- One timestamp. -/
def timeRow (intervalNs : Option ℤ) (s : Times) (current : ℤ) : Except DatasetError Times := do
  raiseIf (current < 0) (.integrity "timestamps precede the Unix epoch")
  match s.previous with
  | some previous => do
    let gaps ← gap previous current intervalNs
    return { s with gaps := s.gaps ++ gaps, previous := some current, rows := s.rows + 1 }
  | none => return { s with first := some current, previous := some current, rows := s.rows + 1 }

/-- One time of receipt. -/
def receiptRow (s : Receipts) (received : ℤ) : Except DatasetError Receipts := do
  raiseIf (received < 0 ∨ ∃ previous ∈ s.previous, received < previous)
    (.integrity "actual receipt history is out of order")
  return { first := s.first.or (some received), previous := some received }

/-- `==` of a value of Python with an integer. -/
def Cell.EqInt (cell : Cell) (n : ℤ) : Prop := cell = .int n ∨ cell = .float (some n)
deriving Decidable

/-- `==` of a value of Python with an integer or `None`. -/
def Cell.EqOptInt (cell : Cell) (n : Option ℤ) : Prop :=
  match n with
  | none => cell = .null
  | some n => cell.EqInt n

instance (cell : Cell) (n : Option ℤ) : Decidable (cell.EqOptInt n) := by
  unfold Cell.EqOptInt
  split <;> infer_instance

def eventEnvelope (identity : String × String) (row : Row) : Except DatasetError Unit :=
  let malformed : DatasetError :=
    .integrity "event envelope is malformed or disagrees with its immutable row"
  match row "event_json" with
  | .text encoded => do
    raiseIf (4 * 1024 * 1024 < encoded.utf8ByteSize) malformed
    match host.event encoded with
    | none => .error malformed
    | some event =>
      raiseIf (event.venue ≠ identity.1 ∨ event.instrument ≠ identity.2
        ∨ ¬ (row "received_ts_ns").EqInt event.receivedTsNs
        ∨ ¬ (row "exchange_ts_ns").EqInt event.exchangeTsNs
        ∨ row "event_type" ≠ .text event.eventType
        ∨ ¬ (row "sequence").EqOptInt event.sequence) malformed
  | _ => .error malformed

variable (schema : List Field)

/-- No floating value of the row is NaN or infinite. -/
def FiniteRow (row : Row) : Prop :=
  ∀ field ∈ schema, field.type = .floating → row field.name ≠ .float none
deriving Decidable

variable (md : Metadata)

def Metadata.eventIdentity : Option (String × String) :=
  if md.dataType = "market_events" then some (md.venue, md.instrument) else none

def columnType (name : String) : Option ArrowType :=
  (schema.find? (·.name = name)).map (·.type)

/-- The timestamps of a batch. -/
def batchTimes (type : ArrowType) (batch : List Row) : Except DatasetError (List ℤ) := do
  raiseIf (∃ row ∈ batch, row md.timestampColumn = .null) (.integrity "timestamps contain nulls")
  batch.mapM fun row => castTime type (row md.timestampColumn)

/-- The receipts of a batch. -/
def batchReceived (batch : List Row) : Except DatasetError (List ℤ) := do
  raiseIf ((∃ row ∈ batch, row "received_ts_ns" = .null)
      ∨ columnType schema "received_ts_ns" ≠ some .integer)
    (.integrity "actual receipt timestamps require nonnull integer ns")
  batch.mapM fun row => castReceived (row "received_ts_ns")

/-- The pass over a batch for its receipts. -/
def receiptsBatch (schema : List Field) (s : Receipts) (batch : List Row) :
    Except DatasetError Receipts :=
  if md.availability = "received" then do
    let received ← batchReceived schema batch
    received.foldlM receiptRow s
  else .ok s

/-- The pass over a batch for its event envelopes. -/
def envelopesBatch (batch : List Row) : Except DatasetError Unit :=
  match md.eventIdentity with
  | none => .ok ()
  | some identity => batch.forM (eventEnvelope host identity)

/-- One batch of `_inspect`. -/
def inspectBatch (schema : List Field) (type : ArrowType) (s : Inspection) (batch : List Row) :
    Except DatasetError Inspection := do
  let times ← batchTimes md type batch
  let counted ← times.foldlM (timeRow md.expectedIntervalNs) s.times
  let receipts ← receiptsBatch md schema s.receipts batch
  envelopesBatch host md batch
  raiseIf (¬ ∀ row ∈ batch, FiniteRow schema row)
    (.integrity "numeric data contains NaN or Infinity")
  return ⟨counted, receipts⟩

/-- What `_inspect` returns after the last batch. -/
def Inspection.measured (s : Inspection) (first previous : ℤ) : Measured where
  rows := s.times.rows
  startNs := first
  endNs := previous
  gaps := s.times.gaps
  columns := schema.map (·.name)
  arrowSchema := host.schemaText schema
  receivedStartNs := s.receipts.first
  receivedEndNs := s.receipts.previous

/-- The batches of `_inspect`. -/
def inspectBatches (schema : List Field) (type : ArrowType) (batches : List (List Row)) :
    Except DatasetError Measured := do
  let s ← batches.foldlM (inspectBatch host md schema type) {}
  match s.times.first, s.times.previous with
  | some first, some previous => .ok (s.measured host schema first previous)
  | _, _ => .error (.integrity "empty datasets cannot be registered")

/-- `_inspect` of what the file holds. -/
def inspectTable (table : DataTable) : Except DatasetError Measured := do
  let names := table.schema.map (·.name)
  raiseIf (¬ names.Nodup) (.integrity "duplicate parquet column names")
  match columnType table.schema md.timestampColumn with
  | none => .error unreadable
  | some type =>
    raiseIf (¬ type.isTime) (.integrity "timestamp column must be integer ns or Arrow timestamp")
    raiseIf (md.availability = "received" ∧ "received_ts_ns" ∉ names)
      (.integrity "actual-receipt dataset lacks received_ts_ns")
    raiseIf (md.eventIdentity ≠ none ∧ ¬ ∀ name ∈ ["event_json", "received_ts_ns",
        "exchange_ts_ns", "event_type", "sequence"], name ∈ names)
      (.integrity "market event envelopes require all identity and timestamp columns")
    inspectBatches host md table.schema type
      (host.iterBatches (if md.eventIdentity = none then 65536 else 64) table.rows)

def inspect (bytes : B) : Except DatasetError Measured := do
  raiseIf (∃ interval ∈ md.expectedIntervalNs, interval ≤ 0)
    (.integrity "expected interval must be positive integer nanoseconds")
  match host.parquet bytes with
  | none => .error unreadable
  | some table => inspectTable host md table

/-! ## Files -/

/-- The files below the root. -/
abbrev Files (B : Type) := Path → Option B

/-- `Path.resolve`, without links. -/
def resolve (base : Path) (parts : Path) : Path :=
  parts.foldl (fun path part =>
    if part = [] ∨ part = ['.'] then path
    else if part = ['.', '.'] then path.dropLast
    else path ++ [part]) base

/-- `_rooted`: the path below the root. -/
def rooted (path : String) : Except DatasetError Path :=
  let base := if path.toList.head? = some '/' then [] else host.root
  let resolved := resolve base (path.toList.splitOn '/')
  if host.root <+: resolved then .ok (resolved.drop host.root.length)
  else .error (.integrity "dataset path escapes the registry root")

/-- The path of the object with a digest. -/
def objectName (digest : Sha256) : String := "objects/" ++ digest.text ++ ".parquet"

/-- The path of the manifest with an identity. -/
def manifestName (datasetId : Sha256) : String := "manifests/" ++ datasetId.text ++ ".json"

variable (files : Files B)

/-- `_publish`: a file is linked, and never replaced. -/
def publish (source : B) (destination : Path) (expectedHash : Sha256) :
    Except DatasetError (Files B) :=
  match files destination with
  | none => .ok (Function.update files destination (some source))
  | some existing => do
    raiseIf (host.sha256 existing ≠ expectedHash)
      (.integrity "existing immutable object is corrupted")
    return files

/-- What `_register` makes of a file before it publishes. -/
def measure (bytes : B) : Except DatasetError DatasetManifest := do
  let measured ← inspect host md bytes
  let digest := host.sha256 bytes
  let part ← DatasetFile.validate (objectName digest) digest (host.size bytes) measured.rows
    measured.startNs measured.endNs
  let fields : ManifestFields :=
    { md with files := [part], rows := measured.rows, startNs := measured.startNs
              endNs := measured.endNs, gaps := measured.gaps, columns := measured.columns
              arrowSchema := measured.arrowSchema }
  DatasetManifest.validate fields (manifestIdentity host fields)

/-- `_publish` of the object that a file becomes. -/
def publishObject (bytes : B) : Except DatasetError (Files B) := do
  let path ← rooted host (objectName (host.sha256 bytes))
  publish host files bytes path (host.sha256 bytes)

variable (m : DatasetManifest)

def publishManifest : Except DatasetError (Files B) := do
  let path ← rooted host (manifestName m.datasetId)
  publish host files (host.encode m) path (host.sha256 (host.encode m))

/-- `_register`, with the files that it leaves. -/
def register (md : Metadata) (bytes : B) : Except DatasetError DatasetManifest × Files B :=
  match measure host md bytes with
  | .error e => (.error e, files)
  | .ok m =>
    match publishObject host files bytes with
    | .error e => (.error e, files)
    | .ok stored =>
      match publishManifest host stored m with
      | .error e => (.error e, stored)
      | .ok published => (.ok m, published)

/-- A registry, with what has been registered. -/
structure Registry (B : Type) where
  files : Files B
  published : List (Metadata × B × DatasetManifest)

/-- A registry with no files. -/
def Registry.empty : Registry B := ⟨fun _ => none, []⟩

/-- A registration, of metadata and the bytes of a file. -/
def Registry.step (r : Registry B) (request : Metadata × B) : Registry B :=
  match register host r.files request.1 request.2 with
  | (.ok m, files) => ⟨files, r.published ++ [(request.1, request.2, m)]⟩
  | (.error _, files) => { r with files }

/-! ## Verification -/

/-- What `verify` carries from part to part. -/
structure Verifying where
  rows : ℕ := 0
  gaps : List DataGap := []
  previousEnd : Option ℤ := none
  previousReceived : Option ℤ := none
deriving DecidableEq

/-- The gap between a part and the part before, if there is one. -/
def gapBetween (previousEnd : Option ℤ) (startNs : ℤ) (intervalNs : Option ℤ) :
    Except DatasetError (List DataGap) :=
  match previousEnd with
  | none => .ok []
  | some previous => gap previous startNs intervalNs

/-- One part of `verify`. -/
def verifyPart (s : Verifying) (part : DatasetFile) : Except DatasetError Verifying := do
  let path ← rooted host part.relativePath
  match files path with
  | none => .error (.integrity "dataset object is missing or unreadable")
  | some bytes =>
    raiseIf (host.size bytes ≠ part.bytes ∨ host.sha256 bytes ≠ part.sha256)
      (.integrity "dataset object content hash mismatch")
    let measured ← inspect host m.toMetadata bytes
    raiseIf (measured.rows ≠ part.rows) (.integrity "dataset object measured rows mismatch")
    raiseIf (measured.startNs ≠ part.startNs)
      (.integrity "dataset object measured start_ns mismatch")
    raiseIf (measured.endNs ≠ part.endNs) (.integrity "dataset object measured end_ns mismatch")
    raiseIf (measured.columns ≠ m.columns ∨ measured.arrowSchema ≠ m.arrowSchema)
      (.integrity "dataset object schema mismatch")
    let between ← gapBetween s.previousEnd measured.startNs m.expectedIntervalNs
    raiseIf (m.availability = "received" ∧ ∃ previous ∈ s.previousReceived,
        ∃ start ∈ measured.receivedStartNs, start < previous)
      (.integrity "actual receipt history is out of order across parts")
    return { rows := s.rows + measured.rows, gaps := s.gaps ++ between ++ measured.gaps
             previousEnd := some measured.endNs
             previousReceived := if m.availability = "received" then measured.receivedEndNs
               else s.previousReceived }

def verify : Except DatasetError DatasetManifest := do
  raiseIf (manifestIdentity host m.toManifestFields ≠ m.datasetId)
    (.integrity "dataset manifest content hash mismatch")
  let s ← m.files.foldlM (verifyPart host files m) {}
  raiseIf (s.rows ≠ m.rows ∨ s.gaps ≠ m.gaps) (.integrity "dataset measured rows or gaps mismatch")
  return m

end Qt.Datasets
