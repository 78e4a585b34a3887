import Mathlib.Data.Prod.Lex
import QuantTrading.Lib.Firsts
import QuantTrading.Lib.Machine
import QuantTrading.Lib.Revisions
import QuantTrading.Persistence

/-!
# The context store

`ContextStore` of `qt.agent_hub.context`: documents and memories in revisions, which are read
as of a business time and of what had been observed. A read at a cutoff that lies in the past
is the same forever (`context_reads`), since what is written later was observed later.

Timestamps are exact rationals. The parser of ISO timestamps is a parameter, as is `sha256`;
what a mounted file holds comes with the call that imports it, and an id that `uuid4` supplies
comes with the call that uses it. The id is free: the table is asked before the artifact is
written. The table `hub_memories`, which no read uses, is left out.
-/

namespace Qt.Context

open Except List Table Machine

/-! ## Checks -/

def MAX_DOCUMENT_CHARS : ℕ := 1000000

def MAX_MEMORY_BYTES : ℕ := 32768

def MAX_CHUNK_CHARS : ℕ := 8000

/-- A letter or a digit of ASCII. -/
def isWord (c : Char) : Bool := c.isAlpha || c.isDigit

/-- `identifier`: `[A-Za-z0-9][A-Za-z0-9_-]{0,79}`. -/
def identifier (value : String) : Except Exc String := do
  raiseIf (¬ (value.toList.head?.any isWord = true ∧ value.length ≤ 80 ∧
    value.toList.all (fun c => isWord c || c = '_' || c = '-') = true))
    (.valueError "invalid tenant or job identifier")
  return value

/-- A timestamp as it is handed in: an ISO text, a number or a `datetime`, or anything else. -/
inductive Stamp
  | text (s : String)
  | number (q : ℚ)
  | other

def timestamp (iso : String → Option ℚ) (value : Option Stamp) (default : Option ℚ) :
    Except Exc (Option ℚ) :=
  match value with
  | none => .ok default
  | some (.number q) => .ok (some q)
  | some .other => .error (.valueError "invalid timestamp")
  | some (.text s) =>
    match iso s with
    | some q => .ok (some q)
    | none => .error (.valueError "invalid ISO timestamp")

/-- `_timestamp` with a default, which returns a time. -/
def timestampOr (iso : String → Option ℚ) (value : Option Stamp) (default : ℚ) : Except Exc ℚ := do
  let t ← timestamp iso value (some default)
  return t.getD default

def checkSource (value : String) : Except Exc String := do
  raiseIf (value.length = 0 ∨ 2048 < value.length ∨ '\x00' ∈ value.toList)
    (.valueError "invalid source")
  raiseIf (value.toList.head? = some '/' ∨ '\\' ∈ value.toList ∨
    ['.', '.'] ∈ value.toList.splitOn '/') (.valueError "source path traversal is forbidden")
  return value

/-- A check of a value that may be missing. -/
def optionally (check : String → Except Exc String) : Option String → Except Exc (Option String)
  | none => .ok none
  | some value => some <$> check value

/-- `[a-f0-9]{64}`. -/
def isDigest (s : String) : Bool :=
  s.length = 64 && s.toList.all fun c => c.isDigit || ('a' ≤ c && c ≤ 'f')

/-! ## Rows -/

/-- A row of `hub_documents`. -/
structure Document where
  id : String
  tenantId : String
  source : String
  kind : String
  content : String
  referencePath : String
  createdAt : ℚ
  validFrom : ℚ
  validUntil : Option ℚ
  sha256 : String
  revision : ℕ
  availableAt : ℚ
  observedAt : ℚ
  publishedAt : Option ℚ
  provenance : Option String
deriving DecidableEq

/-- What a document is a revision of. -/
def Document.subject (d : Document) : String × String × String := (d.tenantId, d.source, d.kind)

/-- An artifact under `files_root`. -/
structure Artifact where
  path : String
  content : String
deriving DecidableEq

/-- A row of `hub_chunks`. -/
structure Chunk where
  id : String
  docId : String
  tenantId : String
  ordinal : ℕ
  heading : String
  content : String
  availableAt : ℚ
  sha256 : String
deriving DecidableEq

/-- A row of `hub_memory_versions`. The value is its JSON text. -/
structure Memory where
  tenantId : String
  key : String
  revision : ℕ
  value : String
  scope : String
  source : Option String
  createdAt : ℚ
  updatedAt : ℚ
  expiresAt : Option ℚ
  sha256 : String
deriving DecidableEq

/-- What a memory is a revision of. -/
def Memory.subject (m : Memory) : String × String := (m.tenantId, m.key)

/-- The primary key of `hub_memory_versions`. -/
def Memory.primary (m : Memory) : (String × String) × ℕ := (m.subject, m.revision)

/-- **`ContextStore`**: its tables and its artifacts. -/
structure Store where
  documents : Table Document.id
  artifacts : Table Artifact.path
  chunks : Table Chunk.id
  memories : Table Memory.primary

def Store.start : Store := ⟨.empty, .empty, .empty, .empty⟩

/-! ## Paragraphs -/

/-- A match of `\n\s*\n` at the front: what follows it. The match ends at the last line feed
of the whitespace. -/
def blankLine? : List Char → Option (List Char)
  | '\n' :: cs =>
    let run := cs.takeWhile isSpace
    if '\n' ∈ run then
      some ((run.reverse.takeWhile (· ≠ '\n')).reverse ++ cs.dropWhile isSpace)
    else none
  | _ => none

/-- `re.split(r"\n\s*\n", ...)`: the parts, with what has been read of the current one. -/
def splitBlank : ℕ → List Char → List Char → List (List Char)
  | 0, part, _ => [part.reverse]
  | _ + 1, part, [] => [part.reverse]
  | fuel + 1, part, c :: cs =>
    match blankLine? (c :: cs) with
    | some rest => part.reverse :: splitBlank fuel [] rest
    | none => splitBlank fuel (c :: part) cs

def strip (cs : List Char) : List Char :=
  ((cs.dropWhile isSpace).reverse.dropWhile isSpace).reverse

/-- The blocks of a text without blank lines: 800 characters from every 700th one. -/
def windows : ℕ → List Char → List (List Char)
  | 0, _ => []
  | _ + 1, [] => []
  | fuel + 1, c :: cs => (c :: cs).take 800 :: windows fuel ((c :: cs).drop 700)

/-- The blocks of a document. -/
def blocks (content : String) : List (List Char) :=
  let parts := ((splitBlank (content.length + 1) [] content.toList).map strip).filter (· ≠ [])
  if parts.length ≤ 1 ∧ 800 < content.length then windows content.length content.toList
  else parts

/-- `source.rsplit("/", 1)[-1][:200]`. -/
def heading (source : String) : String :=
  String.ofList (((source.toList.splitOn '/').getLast?.getD []).take 200)

def paragraphs (source content : String) : List (String × String) :=
  ((blocks content).take 64).zipIdx.map fun (block, index) =>
    (heading source ++ " §" ++ toString (index + 1), String.ofList (block.take MAX_CHUNK_CHARS))

section

variable (sha : String → String)

/-- The chunks of a document, as `_index_chunks` writes them. -/
def chunksOf (documentId tenantId source content : String) (availableAt : ℚ) : List Chunk :=
  (paragraphs source content).zipIdx.map fun ((heading, body), ordinal) =>
    ⟨String.ofList ((sha (documentId ++ ":" ++ toString ordinal ++ ":" ++ body)).toList.take 32),
      documentId, tenantId, ordinal, heading, body, availableAt, sha body⟩

/-- `INSERT OR REPLACE`. -/
def upsert (t : Table Chunk.id) (c : Chunk) : Table Chunk.id :=
  (t.deleteWhere fun c' => c'.id = c.id).insertOnce c

def indexChunks (t : Table Chunk.id) (documentId tenantId source content : String)
    (availableAt : ℚ) : Table Chunk.id :=
  (chunksOf sha documentId tenantId source content availableAt).foldl upsert
    (t.deleteWhere fun c => c.docId = documentId)

end

/-! ## Ingesting -/

/-- The options of `ingest`. -/
structure Metadata where
  kind : String
  validFrom : Option Stamp
  validUntil : Option Stamp
  availableAt : Option Stamp
  publishedAt : Option Stamp
  provenance : Option String

section

variable (iso : String → Option ℚ) (sha : String → String) (root : String)

def artifactPath (tenantId documentId : String) : String :=
  root ++ "/" ++ tenantId ++ "/documents/" ++ documentId ++ ".txt"

variable (s : Store)

/-- `ORDER BY revision DESC LIMIT 1`. -/
def Store.latest (subject : String × String × String) : Option Document :=
  ((s.documents.rows.filter fun d => d.subject = subject).orderBy fun d => -(d.revision : ℤ)).head?

/-- The checked options of `ingest`. -/
structure Checked where
  start : ℚ
  finish : Option ℚ
  available : ℚ
  published : Option ℚ
  provenance : Option String

/-- The checks of the options. -/
def Metadata.check (m : Metadata) (now : ℚ) : Except Exc Checked := do
  let start ← timestampOr iso m.validFrom now
  let finish ← timestamp iso m.validUntil none
  let available ← timestampOr iso m.availableAt now
  let published ← timestamp iso m.publishedAt none
  let provenance ← optionally checkSource m.provenance
  raiseIf (∃ t ∈ finish, t ≤ start) (.valueError "valid_until must follow valid_from")
  raiseIf (available < now ∧ provenance = none)
    (.valueError "historical availability requires provenance")
  raiseIf (∃ t ∈ published, available < t) (.valueError "published_at cannot follow available_at")
  return ⟨start, finish, available, published, provenance⟩

/-- The content is that of the latest revision, and so is what was handed in. -/
def Metadata.Repeats (m : Metadata) (c : Checked) (content : String) (latest : Document) : Prop :=
  latest.sha256 = sha content ∧ (m.validFrom.isNone ∨ latest.validFrom = c.start) ∧
    latest.validUntil = c.finish ∧ (m.availableAt.isNone ∨ latest.availableAt = c.available) ∧
    latest.publishedAt = c.published ∧ latest.provenance = c.provenance
deriving Decidable

/-- The revision that `ingest` writes. -/
def newDocument (tenantId source content : String) (m : Metadata) (c : Checked)
    (latest : Option Document) (newId : String) (now : ℚ) : Document where
  id := newId
  tenantId := tenantId
  source := source
  kind := m.kind
  content := content
  referencePath := artifactPath root tenantId newId
  createdAt := now
  validFrom := c.start
  validUntil := c.finish
  sha256 := sha content
  revision := (latest.map Document.revision).getD 0 + 1
  availableAt := c.available
  observedAt := now
  publishedAt := c.published
  provenance := c.provenance

/-- A document is written: its row, its artifact and its chunks. -/
def Store.write (d : Document) : Except Exc (Document × Store) := do
  raiseIf (s.documents.find? d.id ≠ none) (.integrityError "hub_documents.id")
  raiseIf (s.artifacts.find? d.referencePath ≠ none) (.statementError "file exists")
  raiseIf (∃ d' ∈ s.documents.rows, d'.subject = d.subject ∧ d'.revision = d.revision)
    (.integrityError "hub_documents_revision")
  return (d, { s with
    documents := s.documents.insertOnce d
    artifacts := s.artifacts.insertOnce ⟨d.referencePath, d.content⟩
    chunks := indexChunks sha s.chunks d.id d.tenantId d.source d.content d.availableAt })

/-- `ingest` of a text, after the checks of the tenant, the source and the kind. -/
def Store.ingestText (tenantId source content : String) (m : Metadata) (newId : String) (now : ℚ) :
    Except Exc (Document × Store) := do
  raiseIf (content.length = 0 ∨ MAX_DOCUMENT_CHARS < content.length)
    (.valueError "document is empty or exceeds the configured limit")
  let c ← m.check iso now
  match s.latest (tenantId, source, m.kind) with
  | some latest =>
    if m.Repeats sha c content latest then return (latest, s)
    else s.write sha (newDocument sha root tenantId source content m c (some latest) newId now)
  | none => s.write sha (newDocument sha root tenantId source content m c none newId now)

/-- **`ingest`.** A call without content imports a file: `imported` is what reading it gives. -/
def Store.ingest (tenantId source : String) (content : Option String) (imported : Except Exc String)
    (m : Metadata) (newId : String) (now : ℚ) : Except Exc (Document × Store) := do
  let _ ← identifier tenantId
  let _ ← checkSource source
  let _ ← identifier m.kind
  match content with
  | some text => s.ingestText iso sha root tenantId source text m newId now
  | none => do
    raiseIf (¬ "mount:".toList <+: source.toList)
      (.valueError "file imports require a mount: source")
    let _ ← checkSource (String.ofList (source.toList.drop 6))
    let text ← imported
    s.ingestText iso sha root tenantId source text m newId now

end

/-! ## Visibility -/

/-- A document is eligible at a cutoff: it was valid, available and observed. -/
def Document.Eligible (moment : ℚ) (known : Option ℚ) (d : Document) : Prop :=
  d.validFrom ≤ moment ∧ d.availableAt ≤ moment ∧ ∀ k ∈ known, d.observedAt ≤ k
deriving Decidable

/-- A document has not expired. -/
def Document.Live (moment : ℚ) (d : Document) : Prop := ∀ t ∈ d.validUntil, moment < t
deriving Decidable

/-- **`_visible`**: of the eligible revisions of a subject the last one, unless it has expired. -/
def Store.visible (s : Store) (tenantId : String) (moment : ℚ) (known : Option ℚ) : List Document :=
  (s.documents.rows.current Document.subject Document.revision
    (Document.Eligible moment known)).filter fun d => d.tenantId = tenantId ∧ d.Live moment

/-! ## Evidence -/

/-- A reference as it is handed in: an id, an object, or anything else. -/
inductive Reference
  | name (s : String)
  | entry (id sha256 : Option String)
  | other
deriving DecidableEq

def Reference.key : Reference → Option String
  | .name s => some s
  | .entry id _ => id
  | .other => none

/-- The digest that a reference names. -/
def Reference.digest : Reference → Option String
  | .entry _ sha256 => sha256
  | _ => none

/-- One entry of `_reference_map`. -/
def addReference (result : List (String × String)) (r : Reference) :
    Except Exc (List (String × String)) :=
  match r with
  | .entry (some key) (some digest) => do
    raiseIf (key.length = 0 ∨ 256 < key.length ∨ ¬ isDigest digest = true ∨
      ∃ d ∈ result.lookup key, d ≠ digest) (.valueError "invalid run evidence allowlist")
    return result ++ [(key, digest)]
  | _ => .error (.valueError "invalid run evidence allowlist")

def referenceMap (references : List Reference) : Except Exc (List (String × String)) := do
  raiseIf (200 < references.length) (.valueError "invalid run evidence allowlist")
  references.foldlM addReference []

/-- What is reported of a reference that was verified. -/
structure Verified where
  id : String
  sha256 : String
  source : String
  revision : ℕ
  availableAt : ℚ
  observedAt : ℚ
  validFrom : ℚ
  validUntil : Option ℚ
deriving DecidableEq

structure Refusal where
  id : Option String
  reason : String
deriving DecidableEq

/-- The report of `validate_evidence`. -/
structure Validation where
  references : List Verified
  errors : List Refusal
deriving DecidableEq

def Validation.valid (v : Validation) : Bool := v.errors.isEmpty

section

variable (iso : String → Option ℚ) (sha : String → String) (root : String) (s : Store)

/-- **`_verified_content`**: the bytes are those of the digest, in the row and in the artifact. -/
def Store.verifiedContent (d : Document) : Except Exc String := do
  raiseIf (sha d.content ≠ d.sha256) (.valueError "evidence_integrity_mismatch")
  raiseIf (artifactPath root d.tenantId d.id ≠ d.referencePath)
    (.valueError "evidence_artifact_unavailable")
  match s.artifacts.find? (artifactPath root d.tenantId d.id) with
  | none => .error (.valueError "evidence_artifact_unavailable")
  | some original => do
    raiseIf (sha original.content ≠ d.sha256) (.valueError "evidence_integrity_mismatch")
    return d.content

def Store.validateReference (visible : List Document) (allowed : List (String × String))
    (r : Reference) : Except Refusal Verified :=
  match r.key with
  | none => .error ⟨none, "evidence_not_in_run"⟩
  | some key =>
    match allowed.lookup key with
    | none => .error ⟨some key, "evidence_not_in_run"⟩
    | some expected =>
      if r.digest.getD expected ≠ expected then .error ⟨some key, "evidence_hash_mismatch"⟩
      else
        match visible.find? fun d => d.id = key with
        | none => .error ⟨some key, "evidence_unavailable"⟩
        | some d =>
          if d.sha256 ≠ expected then .error ⟨some key, "evidence_hash_mismatch"⟩
          else
            match s.verifiedContent sha root d with
            | .error _ => .error ⟨some key, "evidence_integrity_mismatch"⟩
            | .ok _ => .ok ⟨key, expected, d.source, d.revision, d.availableAt, d.observedAt,
                d.validFrom, d.validUntil⟩

/-- What a reference adds to the report. -/
def Validation.add (v : Validation) : Except Refusal Verified → Validation
  | .ok verified => { v with references := v.references ++ [verified] }
  | .error refusal => { v with errors := v.errors ++ [refusal] }

def Store.validateEvidence (tenantId : String) (references allowed : List Reference)
    (asOf knownAt : Option Stamp) (now : ℚ) : Except Exc Validation := do
  let _ ← identifier tenantId
  raiseIf (references.length = 0 ∨ 50 < references.length)
    (.valueError "evidence must contain between 1 and 50 references")
  let allowed ← referenceMap allowed
  let moment ← timestampOr iso asOf now
  let known ← timestamp iso knownAt none
  return references.foldl (fun v r =>
    v.add (s.validateReference sha root (s.visible tenantId moment known) allowed r)) ⟨[], []⟩

structure Passage where
  reference : Verified
  offset : ℕ
  content : String
  contentChars : ℕ
  nextOffset : Option ℕ
  chunkSha256 : String
deriving DecidableEq

/-- A part of the content of a document. -/
def passage (reference : Verified) (content : String) (offset limitChars : ℕ) :
    Except Exc Passage := do
  raiseIf (content.length < offset) (.valueError "evidence chunk offset exceeds document")
  let part := String.ofList ((content.toList.drop offset).take limitChars)
  let finish := offset + part.length
  return ⟨reference, offset, part, content.length,
    if finish < content.length then some finish else none, sha part⟩

def Store.readChunk (tenantId documentId expectedSha256 : String) (allowed : List Reference)
    (offset limitChars : ℕ) (asOf knownAt : Option Stamp) (now : ℚ) : Except Exc Passage := do
  raiseIf (MAX_DOCUMENT_CHARS < offset ∨ limitChars = 0 ∨ MAX_CHUNK_CHARS < limitChars)
    (.valueError "invalid evidence chunk bounds")
  let validation ← s.validateEvidence iso sha root tenantId
    [.entry (some documentId) (some expectedSha256)] allowed asOf knownAt now
  match validation.references.head?, validation.errors.head? with
  | some reference, none =>
    match (s.documents.find? documentId).filter fun d => d.tenantId = tenantId with
    | none => .error (.valueError "evidence_unavailable")
    | some d => do
      let content ← s.verifiedContent sha root d
      passage sha reference content offset limitChars
  | _, some refusal => .error (.valueError refusal.reason)
  | none, none => .error (.valueError "evidence_unavailable")

end

/-! ## Memories -/

section

variable (iso : String → Option ℚ) (sha : String → String) (s : Store)

/-- The last version of a memory. -/
def Store.lastMemory (subject : String × String) : Option Memory :=
  ((s.memories.rows.filter fun m => m.subject = subject).orderBy fun m => -(m.revision : ℤ)).head?

/-- **`remember`.** The value is its JSON text, if it has one. -/
def Store.remember (tenantId key : String) (value : Option String) (scope : String)
    (ttlSeconds : Option ℚ) (source : Option String) (now : ℚ) : Except Exc (Memory × Store) := do
  let _ ← identifier tenantId
  let _ ← identifier scope
  raiseIf (key.length = 0 ∨ 256 < key.length) (.valueError "invalid memory key")
  match value with
  | none => .error (.valueError "Out of range float values are not JSON compliant")
  | some encoded => do
    raiseIf (MAX_MEMORY_BYTES < encoded.utf8ByteSize)
      (.valueError "memory exceeds the configured limit")
    raiseIf (∃ ttl ∈ ttlSeconds, ttl < 0) (.valueError "invalid memory TTL")
    let source ← optionally checkSource (source.filter (· ≠ ""))
    let previous := s.lastMemory (tenantId, key)
    raiseIf (∃ m ∈ previous, now < m.updatedAt) (.valueError "memory clock moved backwards")
    let m : Memory := ⟨tenantId, key, (previous.map Memory.revision).getD 0 + 1, encoded, scope,
      source, (previous.map Memory.createdAt).getD now, now, ttlSeconds.map (now + ·), sha encoded⟩
    raiseIf (s.memories.find? m.primary ≠ none) (.integrityError "hub_memory_versions")
    return (m, { s with memories := s.memories.insertOnce m })

/-- The memories that are current at a cutoff and have not expired, of a scope if one is given. -/
def Store.recalled (tenantId : String) (scope : Option String) (moment cutoff : ℚ) : List Memory :=
  (s.memories.rows.current Memory.subject Memory.revision fun m => m.updatedAt ≤ cutoff).filter
    fun m => m.tenantId = tenantId ∧ (∀ t ∈ m.expiresAt, moment < t) ∧ ∀ sc ∈ scope, m.scope = sc

/-- `ORDER BY updated_at DESC, revision DESC`. -/
def Memory.recency (m : Memory) : ℚ ×ₗ ℤ := toLex (-m.updatedAt, -m.revision)

/-- **`memories`.** -/
def Store.recall (tenantId : String) (scope : Option String) (asOf knownAt : Option Stamp) (now : ℚ)
    : Except Exc (List Memory) := do
  let _ ← identifier tenantId
  let moment ← timestampOr iso asOf now
  let known ← timestampOr iso knownAt moment
  let _ ← optionally identifier scope
  (((s.recalled tenantId scope moment (min moment known)).orderBy Memory.recency).take 200).mapM
    fun m => do
      raiseIf (sha m.value ≠ m.sha256) (.valueError "memory_integrity_mismatch")
      return m

end

/-! ## Runs -/

/-- The calls that write. -/
inductive Call
  | ingest (tenantId source : String) (content : Option String) (imported : Except Exc String)
      (m : Metadata) (newId : String) (now : ℚ)
  | remember (tenantId key : String) (value : Option String) (scope : String)
      (ttlSeconds : Option ℚ) (source : Option String) (now : ℚ)

/-- What the clock says when a call is made. -/
def Call.now : Call → ℚ
  | .ingest _ _ _ _ _ _ now => now
  | .remember _ _ _ _ _ _ now => now

section

variable (iso : String → Option ℚ) (sha : String → String) (root : String)

/-- **A step**: an exception rolls the call back. -/
def step (s : Store) : Call → Store
  | .ingest tenantId source content imported m newId now =>
    match s.ingest iso sha root tenantId source content imported m newId now with
    | .ok (_, s') => s'
    | .error _ => s
  | .remember tenantId key value scope ttlSeconds source now =>
    match s.remember sha tenantId key value scope ttlSeconds source now with
    | .ok (_, s') => s'
    | .error _ => s

/-- The store after a run. -/
def after (calls : List Call) : Store := Machine.run (step iso sha root) .start calls

end

/-! ## What a call writes -/

section

variable {iso : String → Option ℚ} {sha : String → String} {root : String}

/-- **The ways of a call**: nothing changes, or a document or a memory is written which is
observed when the call is made. -/
inductive Writes (root : String) (now : ℚ) (s : Store) : Store → Prop
  | same : Writes root now s s
  | document (d : Document) (chunks : Table Chunk.id) (observed : d.observedAt = now)
      (path : d.referencePath = artifactPath root d.tenantId d.id)
      (free : s.documents.find? d.id = none)
      (absent : s.artifacts.find? d.referencePath = none)
      (fresh : ∀ d' ∈ s.documents.rows, d'.subject = d.subject → d'.revision ≠ d.revision) :
      Writes root now s { s with
        documents := s.documents.insertOnce d
        artifacts := s.artifacts.insertOnce ⟨d.referencePath, d.content⟩
        chunks := chunks }
  | memory (m : Memory) (updated : m.updatedAt = now) (free : s.memories.find? m.primary = none) :
      Writes root now s { s with memories := s.memories.insertOnce m }

variable {d : Document} {now : ℚ} {d' : Document} {s' : Store} {s : Store}

theorem writes_write (hobserved : d.observedAt = now)
    (hpath : d.referencePath = artifactPath root d.tenantId d.id) (h : s.write sha d = .ok (d', s'))
    : Writes root now s s' := by
  obtain ⟨hfree, h⟩ := of_raiseIf h
  obtain ⟨habsent, h⟩ := of_raiseIf h
  obtain ⟨hfresh, h⟩ := of_raiseIf h
  obtain ⟨rfl, rfl⟩ := Prod.mk.inj (ok.inj h)
  exact .document d _ hobserved hpath (not_ne_iff.mp hfree) (not_ne_iff.mp habsent)
    fun d' hd' hsubject hrevision => hfresh ⟨d', hd', hsubject, hrevision⟩

variable {m : Metadata} {newId source tenantId : String} {content : String}

theorem writes_ingestText
    (h : s.ingestText iso sha root tenantId source content m newId now = .ok (d, s')) :
    Writes root now s s' := by
  obtain ⟨-, h⟩ := of_raiseIf h
  obtain ⟨c, -, h⟩ := of_bind h
  split at h
  · split_ifs at h
    · obtain ⟨rfl, rfl⟩ := Prod.mk.inj (ok.inj h)
      exact .same
    · exact writes_write rfl rfl h
  · exact writes_write rfl rfl h

variable {imported : Except Exc String}

theorem writes_ingest {content : Option String}
    (h : s.ingest iso sha root tenantId source content imported m newId now = .ok (d, s')) :
    Writes root now s s' := by
  obtain ⟨-, -, h⟩ := of_bind h
  obtain ⟨-, -, h⟩ := of_bind h
  obtain ⟨-, -, h⟩ := of_bind h
  cases content with
  | some text => exact writes_ingestText h
  | none =>
    obtain ⟨-, h⟩ := of_raiseIf h
    obtain ⟨-, -, h⟩ := of_bind h
    obtain ⟨text, -, h⟩ := of_bind h
    exact writes_ingestText h

variable {key scope : String} {ttlSeconds : Option ℚ} {value : Option String}

/-- What `remember` writes. -/
theorem remember_eq_ok {source : Option String} {m : Memory}
    (h : s.remember sha tenantId key value scope ttlSeconds source now = .ok (m, s')) :
    s.memories.find? m.primary = none ∧ m.updatedAt = now ∧ sha m.value = m.sha256 ∧
      s' = { s with memories := s.memories.insertOnce m } := by
  obtain ⟨-, -, h⟩ := of_bind h
  obtain ⟨-, -, h⟩ := of_bind h
  obtain ⟨-, h⟩ := of_raiseIf h
  cases value with
  | none => cases h
  | some encoded =>
    obtain ⟨-, h⟩ := of_raiseIf h
    obtain ⟨-, h⟩ := of_raiseIf h
    obtain ⟨source, -, h⟩ := of_bind h
    obtain ⟨-, h⟩ := of_raiseIf h
    obtain ⟨hfree, h⟩ := of_raiseIf h
    obtain ⟨rfl, rfl⟩ := Prod.mk.inj (ok.inj h)
    exact ⟨not_ne_iff.mp hfree, rfl, rfl, rfl⟩

theorem writes_remember {source : Option String} {m : Memory}
    (h : s.remember sha tenantId key value scope ttlSeconds source now = .ok (m, s')) :
    Writes root now s s' := by
  obtain ⟨hfree, hupdated, -, rfl⟩ := remember_eq_ok h
  exact .memory m hupdated hfree

theorem writes_step (s : Store) (call : Call) :
    Writes root call.now s (step iso sha root s call) := by
  cases call with
  | ingest tenantId source content imported m newId now =>
    simp only [step]
    split
    · exact writes_ingest ‹_›
    · exact .same
  | remember tenantId key value scope ttlSeconds source now =>
    simp only [step]
    split
    · exact writes_remember ‹_›
    · exact .same

/-! ## What holds of every store -/

/-- **The invariant**: every document has its artifact, and no two revisions of a subject
have one number. -/
structure Sound (root : String) (s : Store) : Prop where
  artifact : ∀ d ∈ s.documents.rows, s.artifacts.find? (artifactPath root d.tenantId d.id) =
      some ⟨artifactPath root d.tenantId d.id, d.content⟩
  unique : ∀ d ∈ s.documents.rows, ∀ d' ∈ s.documents.rows, d'.subject = d.subject →
    d'.revision = d.revision → d' = d

theorem Writes.sound (h : Writes root now s s') (hs : Sound root s) : Sound root s' := by
  cases h with
  | same => exact hs
  | memory m hupdated hfree => exact ⟨hs.artifact, hs.unique⟩
  | document d chunks hobserved hpath hfree habsent hfresh =>
    constructor
    · intro d' hd'
      show (s.artifacts.insertOnce ⟨d.referencePath, d.content⟩).find? _ = _
      obtain hd' | rfl := (mem_rows_insertOnce hfree).mp hd'
      · exact find?_insertOnce_of_find? (hs.artifact d' hd')
      · rw [← hpath]
        exact find?_insertOnce_self (r := (⟨d'.referencePath, d'.content⟩ : Artifact)) habsent
    · intro d₁ h₁ d₂ h₂ hsubject hrevision
      obtain hold₁ | rfl := (mem_rows_insertOnce hfree).mp h₁
      · obtain hold₂ | rfl := (mem_rows_insertOnce hfree).mp h₂
        · exact hs.unique d₁ hold₁ d₂ hold₂ hsubject hrevision
        · exact absurd hrevision.symm (hfresh d₁ hold₁ hsubject.symm)
      · obtain hold₂ | rfl := (mem_rows_insertOnce hfree).mp h₂
        · exact absurd hrevision (hfresh d₂ hold₂ hsubject)
        · rfl

theorem sound_after (iso : String → Option ℚ) (sha : String → String) (root : String)
    (calls : List Call) : Sound root (after iso sha root calls) :=
  inv_run (Sound root) (fun s call hs => (writes_step s call).sound hs)
    ⟨fun _ hd => absurd hd not_mem_nil, fun _ hd => absurd hd not_mem_nil⟩ calls

/-- **What the checks let in**: contents of the lengths that are allowed, and values under their
digests. -/
structure Admitted (sha : String → String) (s : Store) : Prop where
  content : ∀ d ∈ s.documents.rows, 0 < d.content.length ∧ d.content.length ≤ MAX_DOCUMENT_CHARS
  digest : ∀ m ∈ s.memories.rows, sha m.value = m.sha256

section

variable (h : Admitted sha s)
include h

theorem Admitted.write (hlength : 0 < d.content.length ∧ d.content.length ≤ MAX_DOCUMENT_CHARS)
    (hwrite : s.write sha d = .ok (d', s')) : Admitted sha s' := by
  obtain ⟨hfree, hwrite⟩ := of_raiseIf hwrite
  obtain ⟨-, hwrite⟩ := of_raiseIf hwrite
  obtain ⟨-, hwrite⟩ := of_raiseIf hwrite
  obtain ⟨-, rfl⟩ := Prod.mk.inj (ok.inj hwrite)
  refine ⟨fun e he => ?_, h.digest⟩
  rcases (mem_rows_insertOnce (not_ne_iff.mp hfree)).mp he with he | rfl
  · exact h.content e he
  · exact hlength

theorem Admitted.ingestText
    (hingest : s.ingestText iso sha root tenantId source content m newId now = .ok (d, s')) :
    Admitted sha s' := by
  obtain ⟨hlength, hingest⟩ := of_raiseIf hingest
  obtain ⟨c, -, hingest⟩ := of_bind hingest
  obtain ⟨hzero, hle⟩ := not_or.mp hlength
  have hallowed : 0 < content.length ∧ content.length ≤ MAX_DOCUMENT_CHARS :=
    ⟨Nat.pos_of_ne_zero hzero, not_lt.mp hle⟩
  split at hingest
  · split_ifs at hingest
    · obtain ⟨-, rfl⟩ := Prod.mk.inj (ok.inj hingest)
      exact h
    · exact h.write hallowed hingest
  · exact h.write hallowed hingest

theorem Admitted.ingest {content : Option String}
    (hingest : s.ingest iso sha root tenantId source content imported m newId now = .ok (d, s')) :
    Admitted sha s' := by
  obtain ⟨-, -, hingest⟩ := of_bind hingest
  obtain ⟨-, -, hingest⟩ := of_bind hingest
  obtain ⟨-, -, hingest⟩ := of_bind hingest
  cases content with
  | some text => exact h.ingestText hingest
  | none =>
    obtain ⟨-, hingest⟩ := of_raiseIf hingest
    obtain ⟨-, -, hingest⟩ := of_bind hingest
    obtain ⟨text, -, hingest⟩ := of_bind hingest
    exact h.ingestText hingest

theorem Admitted.remember {source : Option String} {m : Memory}
    (hremember : s.remember sha tenantId key value scope ttlSeconds source now = .ok (m, s')) :
    Admitted sha s' := by
  obtain ⟨hfree, -, hdigest, rfl⟩ := remember_eq_ok hremember
  refine ⟨h.content, fun m' hm' => ?_⟩
  rcases (mem_rows_insertOnce hfree).mp hm' with hm' | rfl
  · exact h.digest m' hm'
  · exact hdigest

theorem Admitted.step (call : Call) :
    Admitted sha (step iso sha root s call) := by
  cases call with
  | ingest tenantId source content imported m newId now =>
    simp only [Context.step]
    split
    · exact h.ingest ‹_›
    · exact h
  | remember tenantId key value scope ttlSeconds source now =>
    simp only [Context.step]
    split
    · exact h.remember ‹_›
    · exact h

end

theorem admitted_after (iso : String → Option ℚ) (sha : String → String) (root : String)
    (calls : List Call) : Admitted sha (after iso sha root calls) :=
  inv_run (Admitted sha) (fun _ call hs => hs.step call)
    ⟨fun _ hd => absurd hd not_mem_nil, fun _ hm => absurd hm not_mem_nil⟩ calls

/-! ## What later calls leave as it is -/

/-- **Stores that agree up to** an observation time: what had been observed is the same, and
what is stored stays. -/
structure Agrees (known : ℚ) (s s' : Store) : Prop where
  documents : ∀ moment, s'.documents.rows.filter (Document.Eligible moment (some known)) =
    s.documents.rows.filter (Document.Eligible moment (some known))
  memories : ∀ cutoff ≤ known, s'.memories.rows.filter (fun m => m.updatedAt ≤ cutoff) =
    s.memories.rows.filter (fun m => m.updatedAt ≤ cutoff)
  stored : ∀ id d, s.documents.find? id = some d → s'.documents.find? id = some d
  artifacts : ∀ path a, s.artifacts.find? path = some a → s'.artifacts.find? path = some a

theorem Agrees.refl (known : ℚ) (s : Store) : Agrees known s s :=
  ⟨fun _ => rfl, fun _ _ => rfl, fun _ _ h => h, fun _ _ h => h⟩

variable {known : ℚ}

theorem Agrees.trans {t u : Store} (h : Agrees known s t) (h' : Agrees known t u) :
    Agrees known s u where
  documents moment := (h'.documents moment).trans (h.documents moment)
  memories cutoff hcutoff := (h'.memories cutoff hcutoff).trans (h.memories cutoff hcutoff)
  stored id d hd := h'.stored id d (h.stored id d hd)
  artifacts path a ha := h'.artifacts path a (h.artifacts path a ha)

theorem Writes.stored (h : Writes root now s s') {id : String} (hd : s.documents.find? id = some d)
    : s'.documents.find? id = some d := by
  cases h with
  | same => exact hd
  | document => exact find?_insertOnce_of_find? hd
  | memory => exact hd

/-- **The step**: what is written later was not observed. -/
theorem Writes.agrees {s' : Store} (h : Writes root now s s') (hnow : known < now) :
    Agrees known s s' := by
  cases h with
  | same => exact .refl known s
  | document d chunks hobserved hpath hfree habsent hfresh =>
    refine ⟨fun moment => ?_, fun _ _ => rfl, fun _ _ hd => find?_insertOnce_of_find? hd,
      fun _ _ ha => find?_insertOnce_of_find? ha⟩
    have hnot : ¬ d.Eligible moment (some known) := fun heligible =>
      absurd (heligible.2.2 known rfl) (not_le.mpr (hobserved ▸ hnow))
    show (s.documents.insertOnce d).rows.filter _ = _
    rw [rows_insertOnce hfree, filter_append,
      filter_cons_of_neg (by simpa using hnot), filter_nil, append_nil]
  | memory m hupdated hfree =>
    refine ⟨fun _ => rfl, fun cutoff hcutoff => ?_, fun _ _ hd => hd, fun _ _ ha => ha⟩
    have hnot : ¬ m.updatedAt ≤ cutoff := not_le.mpr (hupdated ▸ hcutoff.trans_lt hnow)
    show (s.memories.insertOnce m).rows.filter _ = _
    rw [rows_insertOnce hfree, filter_append,
      filter_cons_of_neg (by simpa using hnot), filter_nil, append_nil]

theorem agrees_run (s : Store) {later : List Call} (hlater : ∀ call ∈ later, known < call.now) :
    Agrees known s (Machine.run (step iso sha root) s later) :=
  inv_run_of_meets (C := fun _ call => known < call.now) (Agrees known s)
    (fun s' call h hnow => h.trans ((writes_step s' call).agrees hnow)) (.refl known s)
    (meets_of_forall_mem hlater s)

theorem find?_run {id : String} (hd : s.documents.find? id = some d) (calls : List Call) :
    (Machine.run (step iso sha root) s calls).documents.find? id = some d :=
  inv_run (fun s : Store => s.documents.find? id = some d)
    (fun s call hd => (writes_step s call).stored hd) hd calls

/-! ## Reads -/

theorem Agrees.visible (h : Agrees known s s') (tenantId : String) (moment : ℚ) :
    s'.visible tenantId moment (some known) = s.visible tenantId moment (some known) := by
  unfold Store.visible
  rw [current_congr (h.documents moment)]

theorem Agrees.recalled (h : Agrees known s s') (tenantId : String) (scope : Option String)
    (moment : ℚ) {cutoff : ℚ} (hcutoff : cutoff ≤ known) :
    s'.recalled tenantId scope moment cutoff = s.recalled tenantId scope moment cutoff := by
  unfold Store.recalled
  rw [current_congr (h.memories cutoff hcutoff)]

variable {moment : ℚ}

theorem mem_visible {known : Option ℚ} : d ∈ s.visible tenantId moment known ↔
      d ∈ s.documents.rows.current Document.subject Document.revision
        (Document.Eligible moment known) ∧ d.tenantId = tenantId ∧ d.Live moment := by
  simp [Store.visible]

theorem mem_rows_of_visible {known : Option ℚ} (h : d ∈ s.visible tenantId moment known) :
    d ∈ s.documents.rows :=
  (mem_current.mp (mem_visible.mp h).1).1

theorem Agrees.verifiedContent (h : Agrees known s s') (hs : Sound root s)
    (hd : d ∈ s.documents.rows) : s'.verifiedContent sha root d = s.verifiedContent sha root d := by
  unfold Store.verifiedContent
  rw [hs.artifact d hd, h.artifacts _ _ (hs.artifact d hd)]

theorem Agrees.validateReference (h : Agrees known s s') (hs : Sound root s) (tenantId : String)
    (moment : ℚ) (allowed : List (String × String)) (r : Reference) :
    s'.validateReference sha root (s'.visible tenantId moment (some known)) allowed r =
      s.validateReference sha root (s.visible tenantId moment (some known)) allowed r := by
  rw [h.visible]
  unfold Store.validateReference
  cases r.key with
  | none => rfl
  | some key =>
    show (match allowed.lookup key with | none => _ | some expected => _) =
      (match allowed.lookup key with | none => _ | some expected => _)
    cases allowed.lookup key with
    | none => rfl
    | some expected =>
      simp only
      cases hfind : (s.visible tenantId moment (some known)).find? fun d => d.id = key with
      | none => rfl
      | some d =>
        simp only [h.verifiedContent hs (mem_rows_of_visible (mem_of_find?_eq_some hfind))]

variable (iso)

/-- A time that is handed in does not depend on the default. -/
theorem timestamp_ways (value : Stamp) :
    (∃ e, ∀ default, timestamp iso (some value) default = .error e) ∨
      ∃ q, ∀ default, timestamp iso (some value) default = .ok (some q) := by
  cases value with
  | number q => exact .inr ⟨q, fun _ => rfl⟩
  | other => exact .inl ⟨_, fun _ => rfl⟩
  | text s =>
    cases hiso : iso s with
    | none => exact .inl ⟨_, fun _ => by simp only [timestamp, hiso]; rfl⟩
    | some q => exact .inr ⟨q, fun _ => by simp only [timestamp, hiso]⟩

theorem timestampOr_some (value : Stamp) (now now' : ℚ) :
    timestampOr iso (some value) now = timestampOr iso (some value) now' := by
  unfold timestampOr
  obtain ⟨e, he⟩ | ⟨q, hq⟩ := timestamp_ways iso value
  · rw [he, he]
    rfl
  · rw [hq, hq]
    rfl

variable {iso}

theorem timestampOr_eq_ok {value : Stamp} {q : ℚ}
    (h : timestamp iso (some value) none = .ok (some q)) (now : ℚ) :
    timestampOr iso (some value) now = .ok q := by
  unfold timestampOr
  obtain ⟨e, he⟩ | ⟨q', hq⟩ := timestamp_ways iso value
  · cases (he none).symm.trans h
  · cases (hq none).symm.trans h
    rw [hq]
    rfl

variable {knownAt : Stamp}

/-- **Evidence is validated as before.** -/
theorem Agrees.validateEvidence (h : Agrees known s s') (hs : Sound root s)
    (hknown : timestamp iso (some knownAt) none = .ok (some known)) (tenantId : String)
    (references allowed : List Reference) (asOf : Stamp) (now now' : ℚ) :
    s'.validateEvidence iso sha root tenantId references allowed (some asOf) (some knownAt) now' =
      s.validateEvidence iso sha root tenantId references allowed (some asOf) (some knownAt)
        now := by
  unfold Store.validateEvidence
  rw [timestampOr_some iso asOf now' now, hknown]
  refine bind_congr fun _ => bind_congr fun _ => bind_congr fun allowed => ?_
  refine bind_congr fun moment => ?_
  simp only [ok_bind, h.validateReference hs]

variable {digest : Option String}

/-- A reference that is verified names a document that is stored. -/
theorem find?_of_validateReference {visible : List Document} {allowed : List (String × String)}
    {id : String} {verified : Verified}
    (h : s.validateReference sha root visible allowed (.entry (some id) digest) = .ok verified) :
    ∃ d ∈ visible, d.id = id := by
  unfold Store.validateReference at h
  simp only [Reference.key] at h
  split at h
  · cases h
  · split_ifs at h
    split at h
    · cases h
    · rename_i d hfind
      exact ⟨d, mem_of_find?_eq_some hfind, by simpa using find?_some hfind⟩

theorem find?_of_validateEvidence {id : String} {allowed : List Reference}
    {asOf knownAt : Option Stamp} {validation : Validation} {reference : Verified}
    (h : s.validateEvidence iso sha root tenantId [.entry (some id) digest] allowed asOf knownAt now
      = .ok validation)
    (href : validation.references.head? = some reference) : ∃ d, s.documents.find? id = some d := by
  obtain ⟨-, -, h⟩ := of_bind h
  obtain ⟨-, h⟩ := of_raiseIf h
  obtain ⟨allowed', -, h⟩ := of_bind h
  obtain ⟨moment, -, h⟩ := of_bind h
  obtain ⟨known, -, h⟩ := of_bind h
  have hvalidation := ok.inj h
  subst hvalidation
  simp only [foldl_cons, foldl_nil] at href
  cases hreference : s.validateReference sha root (s.visible tenantId moment known) allowed'
      (.entry (some id) digest) with
  | error refusal =>
    rw [hreference] at href
    cases href
  | ok verified =>
    obtain ⟨d, hd, hid⟩ := find?_of_validateReference hreference
    exact ⟨d, hid ▸ find?_of_mem (mem_rows_of_visible hd)⟩

/-- **Documents are retrieved as before.** -/
theorem Agrees.readChunk (h : Agrees known s s') (hs : Sound root s)
    (hknown : timestamp iso (some knownAt) none = .ok (some known))
    (tenantId documentId digest : String) (allowed : List Reference) (offset limitChars : ℕ)
    (asOf : Stamp) (now now' : ℚ) :
    s'.readChunk iso sha root tenantId documentId digest allowed offset limitChars (some asOf)
        (some knownAt) now' =
      s.readChunk iso sha root tenantId documentId digest allowed offset limitChars (some asOf)
        (some knownAt) now := by
  unfold Store.readChunk
  rw [h.validateEvidence hs hknown tenantId _ allowed asOf now now']
  refine bind_congr fun _ => ?_
  cases hvalidation : s.validateEvidence iso sha root tenantId
      [.entry (some documentId) (some digest)] allowed (some asOf) (some knownAt) now with
  | error e => rfl
  | ok validation =>
    simp only [ok_bind]
    cases href : validation.references.head? with
    | none => cases validation.errors.head? <;> rfl
    | some reference =>
      obtain ⟨d, hd⟩ := find?_of_validateEvidence hvalidation href
      rw [hd, h.stored _ _ hd]
      cases validation.errors.head? with
      | some refusal => rfl
      | none =>
        rw [Option.filter_some]
        split_ifs
        · simp only [h.verifiedContent hs (mem_of_find? hd)]
        · rfl

/-- **Memories are recalled as before.** -/
theorem Agrees.recall (h : Agrees known s s')
    (hknown : timestamp iso (some knownAt) none = .ok (some known)) (tenantId : String)
    (scope : Option String) (asOf : Stamp) (now now' : ℚ) :
    s'.recall iso sha tenantId scope (some asOf) (some knownAt) now' =
      s.recall iso sha tenantId scope (some asOf) (some knownAt) now := by
  unfold Store.recall
  rw [timestampOr_some iso asOf now' now]
  refine bind_congr fun _ => bind_congr fun moment => ?_
  rw [timestampOr_eq_ok hknown]
  simp only [ok_bind, h.recalled tenantId scope moment (min_le_right moment known)]

/-! ## The reads of a run -/

/-- **Reads as of the past are stable.** What evidence, retrieval and memories report at a
cutoff that lies before every later call stays as it is. Of the revisions of a document at
most one is visible, the highest eligible one; and a revision that an eligible one has
followed is not visible again, at this or any later cutoff, whether that one expires or not. -/
theorem context_reads (iso : String → Option ℚ) (sha : String → String) (root : String)
    (calls later : List Call) :
    (∀ asOf knownAt known, timestamp iso (some knownAt) none = .ok (some known) →
      (∀ call ∈ later, known < call.now) → ∀ tenantId now now', (∀ references allowed,
          (after iso sha root (calls ++ later)).validateEvidence iso sha root tenantId references
              allowed (some asOf) (some knownAt) now' =
            (after iso sha root calls).validateEvidence iso sha root tenantId references allowed
              (some asOf) (some knownAt) now) ∧
        (∀ documentId digest allowed offset limitChars,
          (after iso sha root (calls ++ later)).readChunk iso sha root tenantId documentId digest
              allowed offset limitChars (some asOf) (some knownAt) now' =
            (after iso sha root calls).readChunk iso sha root tenantId documentId digest allowed
              offset limitChars (some asOf) (some knownAt) now) ∧
        ∀ scope, (after iso sha root (calls ++ later)).recall iso sha tenantId scope (some asOf)
            (some knownAt) now' =
          (after iso sha root calls).recall iso sha tenantId scope (some asOf) (some knownAt) now) ∧
      (∀ tenantId moment known, ∀ d ∈ (after iso sha root calls).visible tenantId moment known,
        (∀ d' ∈ (after iso sha root calls).visible tenantId moment known,
          d'.subject = d.subject → d' = d) ∧
        ∀ d' ∈ (after iso sha root calls).documents.rows, d'.subject = d.subject →
          d'.Eligible moment known → d'.revision ≤ d.revision) ∧
      ∀ moment known, ∀ d ∈ (after iso sha root calls).documents.rows, d.Eligible moment known →
        ∀ older : Document, older.subject = d.subject → older.revision < d.revision →
          ∀ tenantId, ∀ moment' ≥ moment, ∀ known' : Option ℚ,
            (∀ k' ∈ known', ∃ k ∈ known, k ≤ k') →
              older ∉ (after iso sha root (calls ++ later)).visible tenantId moment' known' := by
  refine ⟨fun asOf knownAt known hknown hlater tenantId now now' => ?_,
    fun tenantId moment known d hd => ⟨fun d' hd' hsubject => ?_, fun d' hd' hsubject hp => ?_⟩,
    fun moment known d hd heligible older hsubject hlt tenantId moment' hmoment known' hknown => ?_⟩
  · have hagrees : Agrees known (after iso sha root calls)
        (after iso sha root (calls ++ later)) := by
      rw [after, after, run_append]
      exact agrees_run _ hlater
    have hsound := sound_after iso sha root calls
    exact ⟨fun references allowed =>
        hagrees.validateEvidence hsound hknown tenantId references allowed asOf now now',
      fun documentId digest allowed offset limitChars =>
        hagrees.readChunk hsound hknown tenantId documentId digest allowed offset limitChars asOf
          now now',
      fun scope => hagrees.recall hknown tenantId scope asOf now now'⟩
  · exact eq_of_mem_current (sound_after iso sha root calls).unique (mem_visible.mp hd).1
      (mem_visible.mp hd').1 hsubject
  · exact revision_le_of_mem_current (mem_visible.mp hd).1 hd' hsubject hp
  · intro holder
    have hrows : d ∈ (after iso sha root (calls ++ later)).documents.rows := by
      rw [after, run_append]
      exact mem_of_find? (find?_run (find?_of_mem hd) later)
    have heligible' : d.Eligible moment' known' := by
      refine ⟨heligible.1.trans hmoment, heligible.2.1.trans hmoment, fun k' hk' => ?_⟩
      obtain ⟨k, hk, hle⟩ := hknown k' hk'
      exact (heligible.2.2 k hk).trans hle
    exact not_mem_current_of_lt hrows hsubject.symm hlt heligible' (mem_visible.mp holder).1

/-- A document that is replaced by one which expires. -/
example :
    let s := after (fun _ => none) id "root"
      [.ingest "alpha" "guide" (some "old") (.ok "") ⟨"note", none, none, none, none, none⟩ "a" 1,
        .ingest "alpha" "guide" (some "new") (.ok "")
          ⟨"note", none, some (.number 3), none, none, none⟩ "b" 2]
    (s.visible "alpha" 1 (some 1)).map Document.id = ["a"] ∧
      (s.visible "alpha" 2 (some 2)).map Document.id = ["b"] ∧ s.visible "alpha" 3 none = [] := by
  decide +kernel

end

end Qt.Context
