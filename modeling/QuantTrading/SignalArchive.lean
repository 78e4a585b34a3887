import Mathlib.Data.List.DropRight
import Mathlib.Data.Prod.Lex
import Mathlib.Data.String.Basic
import QuantTrading.Lib.DecimalText
import QuantTrading.Lib.Firsts
import QuantTrading.Lib.JsonText
import QuantTrading.Lib.Machine
import QuantTrading.Lib.Raise

/-!
# The signal archive

`btc_backtest.signals.store`: an archive of observations, published under the hash of
its content. A batch is merged into what is published, one observation for each
provider and source event, and the merge is published as a whole.

An observation that was recorded is kept: one that comes later with its provider,
source event and payload hash is taken for a replay, even where it has another id or
other times, and one with another payload hash is refused with its whole batch. So
the archive is made of the observations that came first (`archive_eq`), and the order
of batches does not matter as far as replays are what they replay.

What is loaded has gone through texts of decimals, JSON and a frame. Timestamps are
instants, of any linear order. The parquet file, the texts of timestamps and the hash
are parameters of the model.
-/

namespace Qt.Backtest

open Except List Function Machine

/-! ## Observations -/

/-- The characters of Unicode's `White_Space`, which the contracts strip from texts. -/
def isWhiteSpace (c : Char) : Bool :=
  (9 ≤ c.toNat && c.toNat ≤ 13) || (0x2000 ≤ c.toNat && c.toNat ≤ 0x200a) ||
    [0x20, 0x85, 0xa0, 0x1680, 0x2028, 0x2029, 0x202f, 0x205f, 0x3000].contains c.toNat

/-- The characters that Python's `str.strip` takes away. -/
def isSpace (c : Char) : Bool := isWhiteSpace c || (0x1c ≤ c.toNat && c.toNat ≤ 0x1f)

/-- A text without the blanks around it. -/
def strip (blank : Char → Bool) (s : String) : String :=
  String.ofList ((s.toList.dropWhile blank).rdropWhile blank)

/-- `IDENTIFIER_PATTERN`. -/
def IsIdentifier (s : String) : Prop :=
  s.toList.head?.any (·.isLower) ∧ s.toList.all fun c => c.isLower || c.isDigit || c == '_'
deriving Decidable

/-- `SHA256_PATTERN`. -/
def IsSha256 (s : String) : Prop :=
  s.toList.length = 64 ∧ s.toList.all fun c => c.isDigit || ('a' ≤ c && c ≤ 'f')
deriving Decidable

/-- The fields of `SignalObservation`. -/
structure Observation (T : Type) where
  id : String
  sourceEventId : String
  provider : String
  sourceType : String
  symbol : String
  horizon : String
  direction : Decimal
  confidence : Decimal
  rawValue : Option Decimal
  observedAt : T
  effectiveAt : T
  expiresAt : T
  provenance : String
  payloadSha256 : String
  qualityFlags : List String
deriving DecidableEq

variable {T : Type} [LinearOrder T]

namespace Observation

variable (o : Observation T)

omit [LinearOrder T] in
/-- `str_strip_whitespace`. -/
def stripped : Observation T where
  id := strip isWhiteSpace o.id
  sourceEventId := strip isWhiteSpace o.sourceEventId
  provider := strip isWhiteSpace o.provider
  sourceType := strip isWhiteSpace o.sourceType
  symbol := strip isWhiteSpace o.symbol
  horizon := strip isWhiteSpace o.horizon
  direction := o.direction
  confidence := o.confidence
  rawValue := o.rawValue
  observedAt := o.observedAt
  effectiveAt := o.effectiveAt
  expiresAt := o.expiresAt
  provenance := strip isWhiteSpace o.provenance
  payloadSha256 := strip isWhiteSpace o.payloadSha256
  qualityFlags := o.qualityFlags.map (strip isWhiteSpace)

/-- What the fields and the validators of `SignalObservation` ask for. -/
@[mk_iff]
structure Valid (o : Observation T) : Prop where
  id : o.id ≠ ""
  sourceEventId : o.sourceEventId ≠ ""
  provider : IsIdentifier o.provider
  sourceType : IsIdentifier o.sourceType
  symbol : o.symbol ≠ ""
  horizon : o.horizon ≠ ""
  direction : -1 ≤ o.direction.value ∧ o.direction.value ≤ 1
  confidence : 0 ≤ o.confidence.value ∧ o.confidence.value ≤ 1
  provenance : o.provenance ≠ ""
  payloadSha256 : IsSha256 o.payloadSha256
  flagsTrimmed : ∀ flag ∈ o.qualityFlags, flag ≠ "" ∧ strip isSpace flag = flag
  flagsUnique : o.qualityFlags.Nodup
  effective : o.effectiveAt ≤ o.expiresAt
  observed : o.observedAt ≤ o.expiresAt

instance (o : Observation T) : Decidable o.Valid := decidable_of_iff' _ (valid_iff o)

/-- `(item.provider, item.source_event_id)`. -/
def identity : String × String := (o.provider, o.sourceEventId)

/-- The key that an archive is sorted by. -/
def sortKey : T ×ₗ T ×ₗ String ×ₗ String ×ₗ String :=
  toLex (o.effectiveAt, toLex (o.observedAt, toLex (o.provider, toLex (o.sourceEventId, o.id))))

end Observation

theorem strip_strip (blank : Char → Bool) (s : String) :
    strip blank (strip blank s) = strip blank s := by
  unfold strip
  rw [String.toList_ofList]
  congr 1
  have hhead : ((s.toList.dropWhile blank).rdropWhile blank).dropWhile blank
      = (s.toList.dropWhile blank).rdropWhile blank := by
    rw [dropWhile_eq_self_iff]
    intro hpos
    have hpre := rdropWhile_prefix blank (s.toList.dropWhile blank)
    have hlen := hpos.trans_le hpre.length_le
    have hget := hpre.getElem hpos
    rw [hget]
    exact dropWhile_get_zero_not blank s.toList hlen
  rw [hhead, rdropWhile_idempotent]

omit [LinearOrder T] in
@[simp] theorem Observation.stripped_stripped (o : Observation T) :
    o.stripped.stripped = o.stripped := by
  simp [Observation.stripped, strip_strip, comp_def]

/-- **`SignalObservation`**: the fields are stripped, and valid. -/
structure SignalObservation (T : Type) [LinearOrder T] extends Observation T where
  stripped_eq : toObservation.stripped = toObservation
  valid : toObservation.Valid
deriving DecidableEq

/-- `SignalObservation(…)`, with its validators. -/
def SignalObservation.validate (o : Observation T) : Option (SignalObservation T) :=
  if h : o.stripped.Valid then some ⟨o.stripped, o.stripped_stripped, h⟩ else none

theorem SignalObservation.validate_self (o : SignalObservation T) :
    validate o.toObservation = some o := by
  obtain ⟨o, hstripped, hvalid⟩ := o
  unfold validate
  simp only [hstripped]
  rw [dif_pos hvalid]

/-! ## Frames -/

/-- What the archive raises. -/
inductive ArchiveError
  | dataValidation (message : String)
  | invalidOperation
deriving DecidableEq

/-- A value in a frame. -/
inductive Cell (T : Type)
  | text (s : String)
  | none
  | time (t : T)
deriving DecidableEq

/-- A frame: the columns, and each row as a record. -/
structure Frame (T : Type) where
  columns : List String
  rows : List (List (String × Cell T))
deriving DecidableEq

structure Digest where
  text : String
  isSha256 : IsSha256 text
deriving DecidableEq

/-- What the store takes from the libraries: `D` is what a parquet file holds. -/
structure ArchiveCodec (T D : Type) where
  /-- A timestamp in JSON, for `model_dump`. -/
  isoformat : T → String
  /-- `str` of a timestamp. -/
  timestampStr : T → String
  /-- `pd.Timestamp` of a text. -/
  timestamp : String → Option T
  /-- `hashlib.sha256(…).hexdigest()`. -/
  sha256 : String → Digest
  toParquet : Frame T → D
  readParquet : D → Option (Frame T)

variable {D : Type} (codec : ArchiveCodec T D)

/-- `str(value)` of a cell. -/
def Cell.str : Cell T → String
  | .text s => s
  | .none => "None"
  | .time t => codec.timestampStr t

def Cell.datetime : Cell T → Option T
  | .text s => codec.timestamp s
  | .none => Option.none
  | .time t => some t

/-- The separators of `json.dumps` by default have a blank after them. -/
def blank : List Char := [' ']

def archiveColumns : List String :=
  ["id", "source_event_id", "provider", "source_type", "symbol", "horizon", "direction",
    "confidence", "raw_value", "observed_at", "effective_at", "expires_at", "provenance",
    "payload_sha256", "quality_flags"]

/-- The text of `raw_value`, if there is one. -/
def rawCell : Option Decimal → Cell T
  | some value => .text value.str
  | none => .none

/-- A row of `_frame`. -/
def Observation.row (item : Observation T) : List (String × Cell T) :=
  [("id", .text item.id), ("source_event_id", .text item.sourceEventId),
    ("provider", .text item.provider),
    ("source_type", .text item.sourceType),
    ("symbol", .text item.symbol),
    ("horizon", .text item.horizon),
    ("direction", .text item.direction.str),
    ("confidence", .text item.confidence.str),
    ("raw_value", rawCell item.rawValue),
    ("observed_at", .time item.observedAt),
    ("effective_at", .time item.effectiveAt),
    ("expires_at", .time item.expiresAt),
    ("provenance", .text item.provenance),
    ("payload_sha256", .text item.payloadSha256),
    ("quality_flags", .text (Json.dumps blank (.arr (item.qualityFlags.map .str))))]

def frame (observations : List (SignalObservation T)) : Frame T where
  columns := archiveColumns
  rows := observations.map (·.row)

/-- What a corrupt archive raises. -/
def corrupt : ArchiveError := .dataValidation "published signal archive is corrupt"

/-- `Decimal(str(cell))`. -/
def readDecimal (cell : Cell T) : Except ArchiveError Decimal :=
  match Decimal.parse (cell.str codec) with
  | some d => .ok d
  | none => .error .invalidOperation

/-- `raw_value` of a cell. -/
def readRaw (cell : Cell T) : Except ArchiveError (Option Decimal) :=
  match cell with
  | .none => .ok none
  | cell => some <$> readDecimal codec cell

/-- The texts of a JSON array of texts. -/
def readFlags (s : String) : Except ArchiveError (List String) :=
  match Json.loads s with
  | some (.arr items) => items.mapM fun
    | .str s => .ok s
    | _ => .error corrupt
  | _ => .error corrupt

/-- A value that a library could not read makes an archive corrupt. -/
def orCorrupt {α : Type} : Option α → Except ArchiveError α
  | some a => .ok a
  | none => .error corrupt

/-- One row of `_observations`. -/
def readRow (row : List (String × Cell T)) : Except ArchiveError (SignalObservation T) := do
  let cell (column : String) : Cell T := (row.lookup column).getD .none
  let text (column : String) : String := (cell column).str codec
  let direction ← readDecimal codec (cell "direction")
  let confidence ← readDecimal codec (cell "confidence")
  let rawValue ← readRaw codec (cell "raw_value")
  let observedAt ← orCorrupt ((cell "observed_at").datetime codec)
  let effectiveAt ← orCorrupt ((cell "effective_at").datetime codec)
  let expiresAt ← orCorrupt ((cell "expires_at").datetime codec)
  let qualityFlags ← readFlags (text "quality_flags")
  orCorrupt <| SignalObservation.validate
    { id := text "id"
      sourceEventId := text "source_event_id"
      provider := text "provider"
      sourceType := text "source_type"
      symbol := text "symbol"
      horizon := text "horizon"
      direction, confidence, rawValue, observedAt, effectiveAt, expiresAt
      provenance := text "provenance"
      payloadSha256 := text "payload_sha256"
      qualityFlags }

def observations (frame : Frame T) : Except ArchiveError (List (SignalObservation T)) := do
  raiseIf (¬ (frame.columns ⊆ archiveColumns ∧ archiveColumns ⊆ frame.columns))
    (.dataValidation "signal archive columns do not match schema")
  frame.rows.mapM (readRow codec)

/-! ### Reading a frame back -/

omit [LinearOrder T] in
theorem readDecimal_text (d : Decimal) : readDecimal codec (T := T) (.text d.str) = .ok d := by
  unfold readDecimal
  rw [show Cell.str codec (Cell.text d.str) = d.str from rfl, Decimal.parse_str]

omit [LinearOrder T] in
theorem readRaw_rawCell (raw : Option Decimal) :
    readRaw codec (T := T) (rawCell raw) = .ok raw := by
  cases raw with
  | none => rfl
  | some d =>
    show some <$> readDecimal codec (Cell.text d.str) = _
    rw [readDecimal_text]
    rfl

theorem isSpace_blank : ∀ c ∈ blank, Json.IsSpace c = true := by
  intro c hc
  obtain rfl : c = ' ' := mem_singleton.mp hc
  rfl

theorem readFlags_dumps (flags : List String) :
    readFlags (Json.dumps blank (.arr (flags.map .str))) = .ok flags := by
  unfold readFlags
  rw [Json.loads_dumps isSpace_blank]
  exact mapM_map_of_ok fun _ _ => rfl

/-- **An observation is read back from its row.** -/
theorem readRow_row (o : SignalObservation T) : readRow codec o.row = .ok o := by
  simp only [readRow, Observation.row, lookup_cons, String.reduceBEq, Option.getD_some,
    readDecimal_text, readRaw_rawCell, ok_bind, Cell.datetime, orCorrupt, Cell.str,
    readFlags_dumps]
  show orCorrupt (SignalObservation.validate o.toObservation) = _
  rw [SignalObservation.validate_self]
  rfl

variable (items : List (SignalObservation T))

/-- **The observations are read back from their frame.** -/
theorem observations_frame : observations codec (frame items) = .ok items := by
  unfold observations
  rw [raiseIf_bind_of_not (not_not.mpr ⟨List.Subset.refl _, List.Subset.refl _⟩)]
  exact mapM_map_of_ok fun o _ => readRow_row codec o

/-! ## The store -/

def dumpRaw : Option Decimal → Json
  | some value => .str value.str
  | none => .null

/-- `item.model_dump(mode="json")`, by sorted keys. -/
def Observation.dump (item : Observation T) : Json :=
  .obj [("confidence", .str item.confidence.str), ("direction", .str item.direction.str),
      ("effective_at", .str (codec.isoformat item.effectiveAt)),
      ("expires_at", .str (codec.isoformat item.expiresAt)),
      ("horizon", .str item.horizon),
      ("id", .str item.id),
      ("observed_at", .str (codec.isoformat item.observedAt)),
      ("payload_sha256", .str item.payloadSha256),
      ("provenance", .str item.provenance),
      ("provider", .str item.provider),
      ("quality_flags", .arr (item.qualityFlags.map .str)),
      ("raw_value", dumpRaw item.rawValue),
      ("source_event_id", .str item.sourceEventId),
      ("source_type", .str item.sourceType),
      ("symbol", .str item.symbol)]

/-- What is hashed of an archive. -/
def encoded (observations : List (SignalObservation T)) : String :=
  Json.dumps [] (.arr (observations.map (·.dump codec)))

def fingerprint (observations : List (SignalObservation T)) : Digest :=
  codec.sha256 (encoded codec observations)

structure ArchiveManifest where
  fingerprint : Digest
  observationCount : ℕ

/-- A directory of `versions`: the manifest and the parquet file. -/
structure ArchiveVersion (D : Type) where
  manifest : ArchiveManifest
  data : D

/-- **`SignalStore`**: the versions by their names, and the pointer to one of them. -/
structure SignalStore (D : Type) where
  versions : List (Digest × ArchiveVersion D)
  current : Option Digest

/-- An empty directory. -/
def SignalStore.empty : SignalStore D := ⟨[], none⟩

/-- A version is read and checked. -/
def loadVersion (pointer : Digest) (version : ArchiveVersion D) :
    Except ArchiveError (List (SignalObservation T)) := do
  raiseIf (version.manifest.fingerprint ≠ pointer)
    (.dataValidation "signal archive manifest does not match pointer")
  let frame ← orCorrupt (codec.readParquet version.data)
  let items ← observations codec frame
  raiseIf (version.manifest.observationCount ≠ items.length)
    (.dataValidation "signal archive count does not match manifest")
  raiseIf (fingerprint codec items ≠ pointer)
    (.dataValidation "signal archive fingerprint does not match content")
  return items

def SignalStore.loadPublished (s : SignalStore D) :
    Except ArchiveError (List (SignalObservation T)) :=
  match s.current with
  | none => .ok []
  | some pointer =>
    match s.versions.lookup pointer with
    | some version => loadVersion codec pointer version
    | none => .error corrupt

variable (byIdentity : List (SignalObservation T)) (item : SignalObservation T)

/-- `by_identity[identity] = item`. -/
def setIdentity : List (SignalObservation T) :=
  if item.identity ∈ byIdentity.map (·.identity) then
    byIdentity.map fun prior => if prior.identity = item.identity then item else prior
  else byIdentity ++ [item]

/-- One item of a batch. -/
def mergeItem : Except ArchiveError (List (SignalObservation T)) :=
  match byIdentity.find? (·.identity = item.identity) with
  | none => .ok (setIdentity byIdentity item)
  | some prior =>
    if prior.payloadSha256 ≠ item.payloadSha256 then
      .error (.dataValidation
        ("conflicting signal payload for " ++ item.provider ++ "/" ++ item.sourceEventId))
    else .ok byIdentity

def merge (existing incoming : List (SignalObservation T)) :
    Except ArchiveError (List (SignalObservation T)) := do
  let byIdentity ← incoming.foldlM mergeItem (existing.foldl setIdentity [])
  return byIdentity.orderBy (·.sortKey)

def SignalStore.publish (observations : List (SignalObservation T)) (fingerprint : Digest)
    (s : SignalStore D) : SignalStore D where
  versions :=
    match s.versions.lookup fingerprint with
    | some _ => s.versions
    | none =>
      (fingerprint, ⟨⟨fingerprint, observations.length⟩, codec.toParquet (frame observations)⟩)
        :: s.versions
  current := some fingerprint

/-- **`append`**, on observations. -/
def SignalStore.append (incoming : List (SignalObservation T)) (s : SignalStore D) :
    Except ArchiveError (Digest × SignalStore D) := do
  let existing ← s.loadPublished codec
  let merged ← merge existing incoming
  let fp := fingerprint codec merged
  return (fp, s.publish codec merged fp)

/-! ## Merging -/

namespace SignalObservation

/-- What a replay is recognised by. -/
def tag (o : SignalObservation T) : (String × String) × String := (o.identity, o.payloadSha256)

omit [LinearOrder T] in
theorem ext_toObservation [LinearOrder T] {o o' : SignalObservation T}
    (h : o.toObservation = o'.toObservation) : o = o' := by
  obtain ⟨o, _, _⟩ := o
  obtain rfl : o = o'.toObservation := h
  rfl

end SignalObservation

/-- **No two payloads for one source event.** -/
def Consistent (l : List (SignalObservation T)) : Prop :=
  ∀ a ∈ l, ∀ b ∈ l, a.identity = b.identity → a.payloadSha256 = b.payloadSha256

variable {l : List (SignalObservation T)}

theorem Consistent.of_tags {l' : List (SignalObservation T)} (h : Consistent l')
    (hsub : l.map (·.tag) ⊆ l'.map (·.tag)) : Consistent l := by
  have htag : ∀ a ∈ l, ∃ b ∈ l', b.identity = a.identity ∧ b.payloadSha256 = a.payloadSha256 := by
    intro a ha
    obtain ⟨b, hb, hab⟩ := mem_map.mp (hsub (mem_map_of_mem ha))
    exact ⟨b, hb, Prod.ext_iff.mp hab⟩
  intro a ha b hb hid
  obtain ⟨a', ha', hida, hpa⟩ := htag a ha
  obtain ⟨b', hb', hidb, hpb⟩ := htag b hb
  rw [← hpa, ← hpb]
  exact h a' ha' b' hb' (hida.trans (hid.trans hidb.symm))

/-- Observations of different identities are consistent. -/
theorem consistent_of_nodup (h : (l.map (·.identity)).Nodup) : Consistent l := by
  intro a ha b hb hid
  rw [inj_on_of_nodup_map h ha hb hid]

variable {acc : List (SignalObservation T)}

theorem foldl_setIdentity (h : ((acc ++ l).map (·.identity)).Nodup) :
    l.foldl setIdentity acc = acc ++ l := by
  induction l generalizing acc with
  | nil => simp
  | cons a l ih =>
    have hnew : a.identity ∉ acc.map (·.identity) := by
      rw [map_append, nodup_append] at h
      exact fun ha => h.2.2 _ ha _ (mem_map_of_mem mem_cons_self) rfl
    rw [foldl_cons, setIdentity, if_neg hnew, ih (by simpa using h)]
    simp

/-- What a batch raises that has another payload for a source event. -/
def conflict : ArchiveError :=
  .dataValidation ("conflicting signal payload for " ++ item.provider ++ "/" ++ item.sourceEventId)

theorem mergeItem_eq (hnodup : (acc.map (·.identity)).Nodup) (item : SignalObservation T) :
    mergeItem acc item =
      if ∃ prior ∈ acc, prior.identity = item.identity ∧
          prior.payloadSha256 ≠ item.payloadSha256 then .error (conflict item)
      else .ok (List.addFirst (·.identity) acc item) := by
  unfold mergeItem
  cases hfind : acc.find? (·.identity = item.identity) with
  | none =>
    have hnew : item.identity ∉ acc.map (·.identity) := by
      intro hmem
      obtain ⟨prior, hprior, hid⟩ := mem_map.mp hmem
      have := List.find?_eq_none.mp hfind prior hprior
      simp [hid] at this
    have hfree : ¬ ∃ prior ∈ acc, prior.identity = item.identity ∧
        prior.payloadSha256 ≠ item.payloadSha256 := by
      rintro ⟨prior, hprior, hid, _⟩
      exact hnew (hid ▸ mem_map_of_mem hprior)
    rw [if_neg hfree]
    show Except.ok (setIdentity acc item) = _
    rw [setIdentity, List.addFirst, if_neg hnew, if_neg hnew]
  | some prior =>
    have hprior := mem_of_find?_eq_some hfind
    have hid : prior.identity = item.identity := by
      simpa using find?_some hfind
    have honly : (∃ p ∈ acc, p.identity = item.identity ∧ p.payloadSha256 ≠ item.payloadSha256) ↔
        prior.payloadSha256 ≠ item.payloadSha256 := by
      constructor
      · rintro ⟨p, hp, hpid, hne⟩
        rwa [inj_on_of_nodup_map hnodup hprior hp (hid.trans hpid.symm)]
      · exact fun hne => ⟨prior, hprior, hid, hne⟩
    have hold : item.identity ∈ acc.map (·.identity) := hid ▸ mem_map_of_mem hprior
    simp only [honly]
    rw [List.addFirst, if_pos hold]
    rfl

variable {item}

theorem mem_tags_addFirst
    (h : ¬ ∃ prior ∈ acc, prior.identity = item.identity ∧ prior.payloadSha256 ≠ item.payloadSha256)
    (t : (String × String) × String) :
    t ∈ (List.addFirst (·.identity) acc item).map (·.tag) ↔ t ∈ (acc ++ [item]).map (·.tag) := by
  unfold List.addFirst
  split_ifs with hold
  · obtain ⟨prior, hprior, hid⟩ := mem_map.mp hold
    have hpayload : prior.payloadSha256 = item.payloadSha256 := by
      by_contra hne
      exact h ⟨prior, hprior, hid, hne⟩
    rw [map_append, mem_append]
    refine ⟨Or.inl, fun ht => ht.elim id fun ht => ?_⟩
    obtain rfl : t = item.tag := by simpa using ht
    rw [show item.tag = prior.tag from Prod.ext hid.symm hpayload.symm]
    exact mem_map_of_mem hprior
  · exact Iff.rfl

variable {incoming : List (SignalObservation T)}

/-- **A batch is merged** exactly when it agrees with what is there, and within itself,
on the payload of each source event. -/
theorem foldlM_mergeItem_eq_ok {out : List (SignalObservation T)}
    (hnodup : (acc.map (·.identity)).Nodup) : incoming.foldlM mergeItem acc = .ok out ↔
      out = incoming.foldl (List.addFirst (·.identity)) acc ∧ Consistent (acc ++ incoming) := by
  induction incoming generalizing acc with
  | nil =>
    rw [append_nil]
    exact ⟨fun h => ⟨(ok.inj h).symm, consistent_of_nodup hnodup⟩, fun h => h.1 ▸ rfl⟩
  | cons item incoming ih =>
    rw [foldlM_cons, mergeItem_eq hnodup]
    split_ifs with hconflict
    · constructor
      · nofun
      · rintro ⟨_, hall⟩
        obtain ⟨prior, hprior, hid, hne⟩ := hconflict
        exact absurd (hall prior (mem_append_left _ hprior) item
          (mem_append_right _ mem_cons_self) hid) hne
    · have hnodup' := nodup_map_addFirst (·.identity) hnodup item
      rw [ok_bind, foldl_cons, ih hnodup']
      refine and_congr_right fun _ => ?_
      have htags := mem_tags_addFirst hconflict
      constructor
      · refine fun h => h.of_tags fun t ht => ?_
        rw [← singleton_append, ← append_assoc, map_append, mem_append] at ht
        rw [map_append, mem_append]
        exact ht.imp_left (htags t).mpr
      · refine fun h => h.of_tags fun t ht => ?_
        rw [map_append, mem_append] at ht
        rw [← singleton_append, ← append_assoc, map_append, mem_append]
        exact ht.imp_left (htags t).mp

/-! ## The archive -/

variable {existing : List (SignalObservation T)}

/-- **A merge**: the observations that came first, sorted. -/
theorem merge_eq_ok {merged : List (SignalObservation T)}
    (hnodup : (existing.map (·.identity)).Nodup) : merge existing incoming = .ok merged ↔
      merged = (List.firsts (·.identity) (existing ++ incoming)).orderBy (·.sortKey) ∧
        Consistent (existing ++ incoming) := by
  have hfirsts : List.firsts (·.identity) (existing ++ incoming)
      = incoming.foldl (List.addFirst (·.identity)) existing := by
    rw [firsts_append, firsts_eq_self _ hnodup]
  have hexisting : existing.foldl setIdentity [] = existing := foldl_setIdentity hnodup
  unfold merge
  rw [hexisting, bind_eq_ok, hfirsts]
  constructor
  · rintro ⟨byIdentity, hfold, hout⟩
    obtain ⟨rfl, hall⟩ := (foldlM_mergeItem_eq_ok hnodup).mp hfold
    exact ⟨(ok.inj hout).symm, hall⟩
  · rintro ⟨rfl, hall⟩
    exact ⟨_, (foldlM_mergeItem_eq_ok hnodup).mpr ⟨rfl, hall⟩, rfl⟩

/-- A merge raises for an item whose payload is another. -/
theorem merge_eq_error {e : ArchiveError} (hnodup : (existing.map (·.identity)).Nodup)
    (h : merge existing incoming = .error e) : ∃ item ∈ incoming, e = conflict item := by
  have hexisting : existing.foldl setIdentity [] = existing := foldl_setIdentity hnodup
  unfold merge at h
  rw [hexisting] at h
  clear hexisting
  induction incoming generalizing existing with
  | nil => cases h
  | cons item incoming ih =>
    rw [foldlM_cons, mergeItem_eq hnodup] at h
    split_ifs at h with hconflict
    · exact ⟨item, mem_cons_self, (Except.error.inj h).symm⟩
    · obtain ⟨other, hother, he⟩ := ih (nodup_map_addFirst (·.identity) hnodup item) h
      exact ⟨other, mem_cons_of_mem item hother, he⟩

theorem nodup_sortKey (h : (l.map (·.identity)).Nodup) : (l.map (·.sortKey)).Nodup := by
  refine List.Nodup.of_map (fun key => ((ofLex (ofLex (ofLex key).2).2).1,
    (ofLex (ofLex (ofLex (ofLex key).2).2).2).1)) ?_
  rw [map_map]
  exact h

variable (batches : List (List (SignalObservation T)))

/-- **What is published after batches**, a refused one being dropped. -/
def archive : List (SignalObservation T) :=
  batches.foldl (fun existing incoming => match merge existing incoming with
    | .ok merged => merged
    | .error _ => existing) []

theorem archive_concat (incoming : List (SignalObservation T)) : archive (batches ++ [incoming]) =
      match merge (archive batches) incoming with
      | .ok merged => merged
      | .error _ => archive batches := by
  unfold archive
  rw [foldl_append]
  rfl

theorem nodup_archive : ((archive batches).map (·.identity)).Nodup := by
  induction batches using List.reverseRecOn with
  | nil => exact nodup_nil
  | append_singleton batches incoming ih =>
    rw [archive_concat]
    cases hmerge : merge (archive batches) incoming with
    | error e => exact ih
    | ok merged =>
      obtain ⟨rfl, _⟩ := (merge_eq_ok ih).mp hmerge
      exact ((orderBy_perm _ _).map _).nodup_iff.mpr (nodup_map_firsts _ _)

variable {batches}

/-- **The archive of batches that agree** is made of the observations that came first. -/
theorem archive_eq (h : Consistent batches.flatten) :
    archive batches = (List.firsts (·.identity) batches.flatten).orderBy (·.sortKey) := by
  induction batches using List.reverseRecOn with
  | nil => rfl
  | append_singleton batches incoming ih =>
    rw [flatten_append, flatten_singleton] at h ⊢
    have hold : Consistent batches.flatten := h.of_tags fun t ht => by
      rw [map_append]
      exact mem_append_left _ ht
    have hperm : (List.firsts (·.identity) (archive batches ++ incoming)).Perm
        (List.firsts (·.identity) (batches.flatten ++ incoming)) := by
      rw [firsts_append, firsts_append, firsts_eq_self _ (nodup_archive batches), ih hold]
      exact foldl_addFirst_perm _ (orderBy_perm _ _) incoming
    have hall : Consistent (archive batches ++ incoming) := by
      refine h.of_tags fun t ht => ?_
      rw [map_append, mem_append] at ht ⊢
      refine ht.imp_left fun ht => ?_
      rw [ih hold] at ht
      obtain ⟨a, ha, rfl⟩ := mem_map.mp ht
      exact mem_map_of_mem ((firsts_sublist _ _).subset (mem_orderBy.mp ha))
    rw [archive_concat, (merge_eq_ok (nodup_archive batches)).mpr ⟨rfl, hall⟩]
    exact orderBy_eq_of_perm _ hperm (nodup_sortKey (nodup_map_firsts _ _))

/-! ## What is published is loaded -/

theorem str_map_injective : Function.Injective (List.map Json.str) :=
  map_injective_iff.mpr fun _ _ h => Json.str.inj h

theorem dumpRaw_injective : Function.Injective dumpRaw := by
  intro raw raw' h
  cases raw with
  | none =>
    cases raw' with
    | none => rfl
    | some d' => cases h
  | some d =>
    cases raw' with
    | none => cases h
    | some d' => rw [Decimal.str_injective (Json.str.inj h)]

omit [LinearOrder T] in
theorem Observation.dump_injective (hiso : Function.Injective codec.isoformat) :
    Function.Injective (Observation.dump (T := T) codec) := by
  intro o o' h
  simp only [Observation.dump, Json.obj.injEq, List.cons.injEq, Prod.mk.injEq, Json.str.injEq,
    Json.arr.injEq, Decimal.str_injective.eq_iff, hiso.eq_iff, str_map_injective.eq_iff,
    dumpRaw_injective.eq_iff,
    true_and, and_true] at h
  obtain ⟨hconfidence, hdirection, heffective, hexpires, hhorizon, hid, hobserved, hpayload,
    hprovenance, hprovider, hflags, hraw, hevent, hsource, hsymbol⟩ := h
  cases o
  cases o'
  congr

/-- **Archives with one text are the same.** -/
theorem encoded_injective (hiso : Function.Injective codec.isoformat) :
    Function.Injective (encoded (T := T) codec) := by
  intro l l' h
  have hgap : ∀ c ∈ ([] : List Char), Json.IsSpace c = true := fun c hc => by cases hc
  have hdumps := Json.arr.inj (Json.dumps_injective hgap h)
  refine map_injective_iff.mpr (fun o o' ho => ?_) hdumps
  exact SignalObservation.ext_toObservation (Observation.dump_injective codec hiso ho)

/-- The version that an archive is published as. -/
def versionOf : ArchiveVersion D :=
  ⟨⟨fingerprint codec items, items.length⟩, codec.toParquet (frame items)⟩

variable {items}

/-- **A version is loaded as it was published.** -/
theorem loadVersion_versionOf
    (hparquet : codec.readParquet (codec.toParquet (frame items)) = some (frame items)) :
    loadVersion codec (fingerprint codec items) (versionOf codec items) = .ok items := by
  unfold loadVersion versionOf
  rw [raiseIf_bind_of_not (not_not.mpr rfl), hparquet]
  show (observations codec (frame items) >>= _) = _
  rw [observations_frame, ok_bind, raiseIf_bind_of_not (not_not.mpr rfl),
    raiseIf_bind_of_not (not_not.mpr rfl)]
  rfl

/-- A batch, with nothing done when it is refused. -/
def SignalStore.step (s : SignalStore D) (incoming : List (SignalObservation T)) : SignalStore D :=
  match s.append codec incoming with
  | .ok (_, s') => s'
  | .error _ => s

variable (batches)

def SignalStore.after : SignalStore D :=
  Machine.run (SignalStore.step codec) .empty batches

/-- **No two archives on the way have one hash** without being one text. -/
def NoCollision : Prop :=
  ∀ p q, p <+: batches → q <+: batches →
    codec.sha256 (encoded codec (archive p)) = codec.sha256 (encoded codec (archive q)) →
      encoded codec (archive p) = encoded codec (archive q)

/-- What a store holds after batches: every version is an archive on the way, and the
pointer is to the last of them. -/
structure Published (batches : List (List (SignalObservation T))) (s : SignalStore D) : Prop where
  versions : ∀ fp version, s.versions.lookup fp = some version → ∃ p, p <+: batches ∧
    fp = fingerprint codec (archive p) ∧ version = versionOf codec (archive p)
  current : (s.current = none ∧ archive batches = []) ∨
    (s.current = some (fingerprint codec (archive batches)) ∧
      (s.versions.lookup (fingerprint codec (archive batches))).isSome)

section Store

variable {codec}
variable (hparquet : ∀ items : List (SignalObservation T),
  codec.readParquet (codec.toParquet (frame items)) = some (frame items))
variable (hiso : Function.Injective codec.isoformat)
variable {batches : List (List (SignalObservation T))} {s : SignalStore D}

theorem NoCollision.mono {batches' : List (List (SignalObservation T))}
    (h : NoCollision codec batches') (hpre : batches <+: batches') : NoCollision codec batches :=
  fun p q hp hq => h p q (hp.trans hpre) (hq.trans hpre)

section

variable (h : Published codec batches s)
include h

include hparquet hiso in
/-- **What was published is loaded.** -/
theorem Published.load (hsha : NoCollision codec batches) :
    s.loadPublished codec = .ok (archive batches) := by
  unfold SignalStore.loadPublished
  rcases h.current with ⟨hcurrent, harchive⟩ | ⟨hcurrent, hsome⟩
  · rw [hcurrent, harchive]
  · obtain ⟨version, hlookup⟩ := Option.isSome_iff_exists.mp hsome
    obtain ⟨p, hp, hfp, rfl⟩ := h.versions _ _ hlookup
    have hsame : archive batches = archive p :=
      encoded_injective codec hiso (hsha batches p (prefix_refl _) hp hfp)
    simp only [hcurrent, hlookup]
    rw [hfp, hsame]
    exact loadVersion_versionOf codec (hparquet _)

include hparquet hiso in
theorem Published.append_eq (hsha : NoCollision codec batches)
    (incoming : List (SignalObservation T)) : s.append codec incoming =
      (merge (archive batches) incoming >>= fun merged =>
        .ok (fingerprint codec merged, s.publish codec merged (fingerprint codec merged))) := by
  unfold SignalStore.append
  rw [h.load hparquet hiso hsha, ok_bind]
  rfl

/-- The archive is published after the batch that it comes from. -/
theorem Published.publish (incoming : List (SignalObservation T)) :
    Published codec (batches ++ [incoming]) (s.publish codec (archive (batches ++ [incoming]))
        (fingerprint codec (archive (batches ++ [incoming])))) where
  versions fp version hlookup := by
    have hold : s.versions.lookup fp = some version → ∃ p, p <+: batches ++ [incoming] ∧
        fp = fingerprint codec (archive p) ∧ version = versionOf codec (archive p) := by
      intro hlookup
      obtain ⟨p, hp, hfp⟩ := h.versions fp version hlookup
      exact ⟨p, hp.trans (prefix_append _ _), hfp⟩
    unfold SignalStore.publish at hlookup
    cases hexists : s.versions.lookup (fingerprint codec (archive (batches ++ [incoming]))) with
    | some _ =>
      simp only [hexists] at hlookup
      exact hold hlookup
    | none =>
      simp only [hexists, lookup_cons] at hlookup
      split at hlookup
      · rename_i heq
        exact ⟨_, prefix_refl _, eq_of_beq heq, (Option.some.inj hlookup).symm⟩
      · exact hold hlookup
  current := by
    refine .inr ⟨rfl, ?_⟩
    unfold SignalStore.publish
    cases hexists : s.versions.lookup (fingerprint codec (archive (batches ++ [incoming]))) with
    | some _ =>
      simp only
      rw [hexists]
      rfl
    | none =>
      simp only [lookup_cons]
      rw [beq_self_eq_true]
      rfl

end

include hparquet hiso in
/-- **The store follows the archive.** -/
theorem published_after (hsha : NoCollision codec batches) :
    Published codec batches (SignalStore.after codec batches) := by
  induction batches using List.reverseRecOn with
  | nil => exact ⟨nofun, .inl ⟨rfl, rfl⟩⟩
  | append_singleton batches incoming ih =>
    have hpre : batches <+: batches ++ [incoming] := prefix_append _ _
    have hbefore := hsha.mono hpre
    have hold := ih hbefore
    have hstep : SignalStore.after codec (batches ++ [incoming])
        = (SignalStore.after codec batches).step codec incoming := run_concat _ _ _ _
    rw [hstep, SignalStore.step, hold.append_eq hparquet hiso hbefore]
    cases hmerge : merge (archive batches) incoming with
    | error e =>
      have hsame : archive (batches ++ [incoming]) = archive batches := by
        rw [archive_concat, hmerge]
      refine ⟨fun fp version hlookup => ?_, ?_⟩
      · obtain ⟨p, hp, hfp⟩ := hold.versions fp version hlookup
        exact ⟨p, hp.trans hpre, hfp⟩
      · rw [hsame]
        exact hold.current
    | ok merged =>
      have hsame : archive (batches ++ [incoming]) = merged := by
        rw [archive_concat, hmerge]
      subst hsame
      exact hold.publish incoming

omit hparquet hiso in
theorem current_ne_none_of_append {incoming : List (SignalObservation T)}
    {x : Digest × SignalStore D}
    (h : (SignalStore.after codec batches).append codec incoming = .ok x) :
    (SignalStore.after codec (batches ++ [incoming])).current ≠ none := by
  have hstep : SignalStore.after codec (batches ++ [incoming]) = x.2 := by
    show Machine.run _ _ _ = _
    rw [run_concat]
    show SignalStore.step codec (SignalStore.after codec batches) incoming = _
    rw [SignalStore.step, h]
  rw [hstep]
  obtain ⟨existing, _, h⟩ := of_bind h
  obtain ⟨merged, _, h⟩ := of_bind h
  obtain rfl := ok.inj h
  exact Option.some_ne_none _

/-- **No batch is refused.** -/
def Accepted (codec : ArchiveCodec T D) (batches : List (List (SignalObservation T))) : Prop :=
  ∀ p incoming, p ++ [incoming] <+: batches →
    ∃ x, (SignalStore.after codec p).append codec incoming = .ok x

include hparquet hiso in
/-- A batch is accepted when it agrees with the archive on every payload. -/
theorem append_isOk_iff (hsha : NoCollision codec batches) (incoming : List (SignalObservation T)) :
    (∃ x, (SignalStore.after codec batches).append codec incoming = .ok x) ↔
      Consistent (archive batches ++ incoming) := by
  rw [(published_after hparquet hiso hsha).append_eq hparquet hiso hsha]
  constructor
  · rintro ⟨x, hx⟩
    obtain ⟨merged, hmerge, _⟩ := of_bind hx
    exact ((merge_eq_ok (nodup_archive batches)).mp hmerge).2
  · intro h
    rw [(merge_eq_ok (nodup_archive batches)).mpr ⟨rfl, h⟩]
    exact ⟨_, rfl⟩

/-- The archive has the identities and the payloads of batches that agree. -/
theorem mem_tags_archive (h : Consistent batches.flatten) (t : (String × String) × String) :
    t ∈ (archive batches).map (·.tag) ↔ t ∈ batches.flatten.map (·.tag) := by
  rw [archive_eq h]
  constructor
  · intro ht
    obtain ⟨a, ha, rfl⟩ := mem_map.mp ht
    exact mem_map_of_mem ((firsts_sublist _ _).subset (mem_orderBy.mp ha))
  · intro ht
    obtain ⟨a, ha, rfl⟩ := mem_map.mp ht
    have hid : a.identity ∈ (List.firsts (·.identity) batches.flatten).map (·.identity) :=
      (mem_map_firsts _).mpr (mem_map_of_mem ha)
    obtain ⟨b, hb, hba⟩ := mem_map.mp hid
    have hpayload := h b ((firsts_sublist _ _).subset hb) a ha hba
    rw [show a.tag = b.tag from Prod.ext hba.symm hpayload.symm]
    exact mem_map_of_mem (mem_orderBy.mpr hb)

include hparquet hiso in
/-- **Batches are accepted when they agree**, in whatever order they come. -/
theorem accepted_iff (hsha : NoCollision codec batches) :
    Accepted codec batches ↔ Consistent batches.flatten := by
  induction batches using List.reverseRecOn with
  | nil => exact ⟨fun _ a ha => absurd ha not_mem_nil, fun _ p incoming hp => by simp at hp⟩
  | append_singleton batches incoming ih =>
    have hpre : batches <+: batches ++ [incoming] := prefix_append _ _
    have hbefore := hsha.mono hpre
    rw [flatten_append, flatten_singleton]
    have hlast := append_isOk_iff hparquet hiso hbefore incoming
    constructor
    · intro h
      have hold := (ih hbefore).mp fun p q hp => h p q (hp.trans hpre)
      refine (hlast.mp (h batches incoming (prefix_refl _))).of_tags fun t ht => ?_
      rw [map_append, mem_append] at ht ⊢
      exact ht.imp_left (mem_tags_archive hold t).mpr
    · intro h
      have hold : Consistent batches.flatten := h.of_tags fun t ht => by
        rw [map_append]
        exact mem_append_left _ ht
      intro p q hp
      rcases prefix_concat_iff.mp hp with heq | hp
      · obtain ⟨rfl, hq⟩ := append_inj' heq rfl
        obtain rfl := singleton_inj.mp hq
        refine hlast.mpr (h.of_tags fun t ht => ?_)
        rw [map_append, mem_append] at ht ⊢
        exact ht.imp_left (mem_tags_archive hold t).mp
      · exact (ih hbefore).mpr hold p q hp

end Store

/-- **The signal archive** after any batches. What is loaded is what was published, with
one observation for each provider and source event, and a batch with another payload
for one of them is refused and changes nothing.

If no batch was refused, then the batches may come in any order, split and repeated:
none is refused then either, and the archives have the same identities with the same
payloads. Each observation is the one that came first, so that the archives and their
hashes are the same where observations of one identity are the same observation. -/
theorem published_archive (codec : ArchiveCodec T D)
    (hparquet : ∀ items : List (SignalObservation T),
      codec.readParquet (codec.toParquet (frame items)) = some (frame items))
    (hiso : Function.Injective codec.isoformat) (batches : List (List (SignalObservation T)))
    (hsha : NoCollision codec batches) :
    (SignalStore.after codec batches).loadPublished codec = .ok (archive batches) ∧
      ((archive batches).map (·.identity)).Nodup ∧
      (∀ incoming, ¬ Consistent (archive batches ++ incoming) →
        (∃ item ∈ incoming, (SignalStore.after codec batches).append codec incoming
          = .error (conflict item)) ∧
        SignalStore.after codec (batches ++ [incoming]) = SignalStore.after codec batches) ∧
      (Accepted codec batches →
        archive batches = (List.firsts (·.identity) batches.flatten).orderBy (·.sortKey) ∧
        (batches ≠ [] → (SignalStore.after codec batches).current
          = some (fingerprint codec (archive batches))) ∧
        ∀ batches' : List (List (SignalObservation T)), NoCollision codec batches' →
          (∀ o, o ∈ batches'.flatten ↔ o ∈ batches.flatten) →
          Accepted codec batches' ∧
            (∀ t, t ∈ (archive batches').map (·.tag) ↔ t ∈ (archive batches).map (·.tag)) ∧
            ((∀ a ∈ batches.flatten, ∀ b ∈ batches.flatten, a.identity = b.identity → a = b) →
              archive batches' = archive batches ∧ fingerprint codec (archive batches')
                = fingerprint codec (archive batches))) := by
  have hpublished := published_after hparquet hiso hsha
  refine ⟨hpublished.load hparquet hiso hsha, nodup_archive batches, fun incoming hnot => ?_,
    fun haccepted => ?_⟩
  · -- the merge raises, and nothing was written before it
    have hrefused : ∃ item ∈ incoming, (SignalStore.after codec batches).append codec incoming
        = .error (conflict item) := by
      rw [hpublished.append_eq hparquet hiso hsha]
      cases hmerge : merge (archive batches) incoming with
      | ok merged => exact absurd ((merge_eq_ok (nodup_archive batches)).mp hmerge).2 hnot
      | error e =>
        obtain ⟨item, hitem, rfl⟩ := merge_eq_error (nodup_archive batches) hmerge
        exact ⟨item, hitem, rfl⟩
    refine ⟨hrefused, ?_⟩
    obtain ⟨item, _, happend⟩ := hrefused
    show Machine.run _ _ _ = _
    rw [run_concat]
    show SignalStore.step codec (SignalStore.after codec batches) incoming = _
    rw [SignalStore.step, happend]
  · have hall := (accepted_iff hparquet hiso hsha).mp haccepted
    refine ⟨archive_eq hall, fun hne => ?_, fun batches' hsha' hsame => ?_⟩
    · refine hpublished.current.elim (fun hnone => ?_) And.left
      obtain rfl | ⟨p, incoming, rfl⟩ := eq_nil_or_concat' batches
      · exact absurd rfl hne
      · obtain ⟨x, hx⟩ := haccepted p incoming (prefix_refl _)
        exact absurd hnone.1 (current_ne_none_of_append hx)
    · have hall' : Consistent batches'.flatten := fun a ha b hb =>
        hall a ((hsame a).mp ha) b ((hsame b).mp hb)
      refine ⟨(accepted_iff hparquet hiso hsha').mpr hall', fun t => ?_, fun hreplay => ?_⟩
      · rw [mem_tags_archive hall', mem_tags_archive hall, mem_map, mem_map]
        simp only [hsame]
      · have harchive : archive batches' = archive batches := by
          rw [archive_eq hall', archive_eq hall]
          refine eq_of_pairwise_rank (·.sortKey)
            (pairwise_lt_orderBy _ (nodup_sortKey (nodup_map_firsts _ _)))
            (pairwise_lt_orderBy _ (nodup_sortKey (nodup_map_firsts _ _))) fun o => ?_
          rw [mem_orderBy, mem_orderBy, mem_firsts_of_replay hreplay, mem_firsts_of_replay, hsame]
          intro a ha b hb
          exact hreplay a ((hsame a).mp ha) b ((hsame b).mp hb)
        exact ⟨harchive, by rw [harchive]⟩

/-! ## Two runs -/

namespace Sample

/-- An observation under an id. -/
def signal (id : String) (h : id = "a" ∨ id = "b") : SignalObservation String where
  id := id
  sourceEventId := "sentiment-1"
  provider := "network"
  sourceType := "sentiment"
  symbol := "BTC/USD"
  horizon := "1d"
  direction := ⟨false, 1, 0⟩
  confidence := ⟨false, 8, -1⟩
  rawValue := none
  observedAt := "2024-01-02T00:00:00Z"
  effectiveAt := "2024-01-02T00:00:00Z"
  expiresAt := "2024-01-04T00:00:00Z"
  provenance := "signals.example"
  payloadSha256 := "0000000000000000000000000000000000000000000000000000000000000000"
  qualityFlags := ["revised"]
  stripped_eq := by rcases h with rfl | rfl <;> decide +kernel
  valid := by rcases h with rfl | rfl <;> decide +kernel

def first : SignalObservation String := signal "a" (.inl rfl)

/-- A replay of it, under another id. -/
def replay : SignalObservation String := signal "b" (.inr rfl)

/-- The archive of the first observation, as it is hashed. -/
def firstText : String :=
  Json.dumps [] (.arr [.obj [("confidence", .str "0.8"), ("direction", .str "1"),
      ("effective_at", .str "2024-01-02T00:00:00Z"), ("expires_at", .str "2024-01-04T00:00:00Z"),
      ("horizon", .str "1d"), ("id", .str "a"), ("observed_at", .str "2024-01-02T00:00:00Z"),
      ("payload_sha256", .str "0000000000000000000000000000000000000000000000000000000000000000"),
      ("provenance", .str "signals.example"), ("provider", .str "network"),
      ("quality_flags", .arr [.str "revised"]), ("raw_value", .null),
      ("source_event_id", .str "sentiment-1"), ("source_type", .str "sentiment"),
      ("symbol", .str "BTC/USD")]])

/-- Timestamps are their own texts here, a file holds its frame, and the hash is that of
SHA-256 for the archives of the runs. -/
def archiveCodec : ArchiveCodec String (Frame String) where
  isoformat := id
  timestampStr := id
  timestamp := some
  sha256 s :=
    if s = "[]" then
      ⟨"4f53cda18c2baa0c0354bb5f9a3ecbe5ed12ab4d8e11ba873c2f11161202b945", by decide +kernel⟩
    else if s = firstText then
      ⟨"e2fafe02d893ee1f92774d1e1a402538d9094add51482b29fc0f62502534c50b", by decide +kernel⟩
    else
      ⟨"a3641db1eb7a26abd18bb3b156d80e5b640b9f993dd383d25bcdc248c66c668e", by decide +kernel⟩
  toParquet := id
  readParquet := some

theorem encoded_nil : encoded archiveCodec (T := String) [] = "[]" := rfl

theorem encoded_first : encoded archiveCodec [first] = firstText := by
  have h : first.dump archiveCodec = _ := rfl
  unfold encoded firstText
  rw [map_singleton, h]
  congr

theorem sha256_cases {s s' : String} (h : archiveCodec.sha256 s = archiveCodec.sha256 s') :
    (s = "[]" ↔ s' = "[]") ∧ (s = firstText ↔ s' = firstText) := by
  have hne : firstText ≠ "[]" := by
    rw [← encoded_first, ← encoded_nil, Ne, (encoded_injective archiveCodec injective_id).eq_iff]
    exact cons_ne_nil _ _
  have htext := congrArg Digest.text h
  simp only [archiveCodec] at htext
  by_cases h0 : s = "[]" <;> by_cases h0' : s' = "[]" <;> by_cases h1 : s = firstText <;>
    by_cases h1' : s' = firstText <;> simp_all

theorem encoded_eq_of_sha256 {l l' : List (SignalObservation String)}
    (hl : l = [] ∨ l = [first] ∨ l = [replay]) (hl' : l' = [] ∨ l' = [first] ∨ l' = [replay])
    (h : archiveCodec.sha256 (encoded archiveCodec l)
      = archiveCodec.sha256 (encoded archiveCodec l')) :
    encoded archiveCodec l = encoded archiveCodec l' := by
  obtain ⟨hnil, hfirst⟩ := sha256_cases h
  have hinj : ∀ m m' : List (SignalObservation String),
      encoded archiveCodec m = encoded archiveCodec m' ↔ m = m' := fun _ _ =>
    (encoded_injective archiveCodec injective_id).eq_iff
  rw [← encoded_nil, hinj, hinj] at hnil
  rw [← encoded_first, hinj, hinj] at hfirst
  rw [hinj]
  rcases hl with rfl | rfl | rfl
  · exact (hnil.mp rfl).symm
  · exact (hfirst.mp rfl).symm
  · rcases hl' with rfl | rfl | rfl
    · exact hnil.mpr rfl
    · exact hfirst.mpr rfl
    · rfl

theorem noCollision_pair {a b : SignalObservation String}
    (h : ∀ p, p = [] ∨ p = [[a]] ∨ p = [[a], [b]] →
      archive p = [] ∨ archive p = [first] ∨ archive p = [replay]) :
    NoCollision archiveCodec [[a], [b]] := by
  have hpre : ∀ p : List (List (SignalObservation String)), p <+: [[a], [b]] →
      p = [] ∨ p = [[a]] ∨ p = [[a], [b]] := by
    intro p hp
    rcases prefix_concat_iff.mp (show p <+: [[a]] ++ [[b]] from hp) with hp | hp
    · exact .inr (.inr hp)
    · rcases prefix_concat_iff.mp (show p <+: [] ++ [[a]] from hp) with hp | hp
      · exact .inr (.inl hp)
      · exact .inl (prefix_nil.mp hp)
  exact fun p q hp hq hsha => encoded_eq_of_sha256 (h p (hpre p hp)) (h q (hpre q hq)) hsha

theorem noCollision_first_replay : NoCollision archiveCodec [[first], [replay]] := by
  refine noCollision_pair fun p hp => ?_
  rcases hp with rfl | rfl | rfl <;> decide +kernel

theorem noCollision_replay_first : NoCollision archiveCodec [[replay], [first]] := by
  refine noCollision_pair fun p hp => ?_
  rcases hp with rfl | rfl | rfl <;> decide +kernel

end Sample

/-- A replay after its original: the original is what is loaded. -/
theorem published_archive_first :
    (SignalStore.after Sample.archiveCodec [[Sample.first], [Sample.replay]]).loadPublished
      Sample.archiveCodec = .ok [Sample.first] := by
  have h := (published_archive Sample.archiveCodec (fun _ => rfl) injective_id
    [[Sample.first], [Sample.replay]] Sample.noCollision_first_replay).1
  rw [h]
  decide +kernel

/-- **A replay under another id**: both orders are accepted, and each keeps the
observation that came first. -/
theorem first_replay_kept : Accepted Sample.archiveCodec [[Sample.first], [Sample.replay]] ∧
      Accepted Sample.archiveCodec [[Sample.replay], [Sample.first]] ∧
      (SignalStore.after Sample.archiveCodec [[Sample.first], [Sample.replay]]).loadPublished
        Sample.archiveCodec = .ok [Sample.first] ∧
      (SignalStore.after Sample.archiveCodec [[Sample.replay], [Sample.first]]).loadPublished
        Sample.archiveCodec = .ok [Sample.replay] ∧ Sample.first ≠ Sample.replay := by
  have hparquet : ∀ items : List (SignalObservation String), Sample.archiveCodec.readParquet
      (Sample.archiveCodec.toParquet (frame items)) = some (frame items) := fun _ => rfl
  have hiso : Function.Injective Sample.archiveCodec.isoformat := injective_id
  have hload := (published_after hparquet hiso Sample.noCollision_first_replay).load hparquet hiso
    Sample.noCollision_first_replay
  have hload' := (published_after hparquet hiso Sample.noCollision_replay_first).load hparquet hiso
    Sample.noCollision_replay_first
  rw [accepted_iff hparquet hiso Sample.noCollision_first_replay,
    accepted_iff hparquet hiso Sample.noCollision_replay_first, hload, hload']
  unfold Consistent
  decide +kernel

end Qt.Backtest
