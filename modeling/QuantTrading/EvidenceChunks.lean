import Mathlib.Data.String.Basic
import QuantTrading.ContextSearch
import QuantTrading.Lib.Images
import QuantTrading.Lib.Slice

/-!
# Chunks of evidence

`retrieve_chunks` of `qt.agent_hub.context`: of the documents that a run may cite, those with a term
of the query are ranked, and of each a chunk around its first term is read.

The terms are looked for in the lower case of a document, and the chunk is cut from the document
itself. Where a character has a lower case of several, the positions differ, and the chunk may begin
behind the term or behind the document: `chunks_located_iff` says when it does not.

The lower case of a text is that of its characters, and the lower case of a character is a
parameter. The clock does not move during a call.
-/

namespace Qt.Context

open Except List

/-! ## The call -/

/-- A document with terms of a query. -/
structure Match where
  reference : Verified
  document : Document
  hits : ℕ
  first : ℕ
deriving DecidableEq

/-- The order of the matches: `sort(key=lambda item: (-item[0], item[2]["id"]))`. -/
def Match.order (m : Match) : ℤ ×ₗ String := toLex (-m.hits, m.reference.id)

section

variable (lower : Char → List Char)

/-- `str.lower`. -/
def lowerText (s : String) : String := String.ofList (s.toList.flatMap lower)

/-- `[content.find(term) for term in terms if term in content]`. -/
def hitsOf (terms : List (List Char)) (content : String) : List ℕ :=
  terms.filterMap fun term => (content.toList.flatMap lower).firstAt term

/-- The document of a reference, if it has a term. -/
def Store.match? (s : Store) (tenantId : String) (terms : List (List Char))
    (reference : Verified) : Option Match :=
  ((s.documents.find? reference.id).filter fun d => d.tenantId = tenantId).bind fun d =>
    (hitsOf lower terms d.content).min?.map fun first =>
      ⟨reference, d, (hitsOf lower terms d.content).length, first⟩

/-- The documents that have a term. -/
def Store.matches (s : Store) (tenantId : String) (terms : List (List Char))
    (references : List Verified) : List Match :=
  references.filterMap (s.match? lower tenantId terms)

/-- Where the chunk of a match is to begin. -/
def Match.offset (m : Match) (limitChars : ℕ) : ℕ := m.first - limitChars / 4

end

/-- The arguments of `retrieve_chunks`. -/
structure ChunkRequest where
  tenantId : String
  query : String
  allowed : List Reference
  limit : ℕ
  limitChars : ℕ
  asOf : Option Stamp
  knownAt : Option Stamp

section

variable (iso : String → Option ℚ) (sha : String → String) (root : String)
  (lower : Char → List Char) (wordChar : Char → Bool)

/-- The references that are verified, after the checks of the arguments. -/
def Store.verified (s : Store) (q : ChunkRequest) (now : ℚ) : Except Exc (List Verified) := do
  raiseIf (q.query.length = 0 ∨ 4096 < q.query.length) (.valueError "invalid chunk query")
  raiseIf (q.limit = 0 ∨ 10 < q.limit) (.valueError "invalid chunk limit")
  raiseIf (q.limitChars = 0 ∨ MAX_CHUNK_CHARS < q.limitChars)
    (.valueError "invalid evidence chunk bounds")
  let allowed ← referenceMap q.allowed
  let ids := (allowed.map Prod.fst).firsts id
  raiseIf (50 < ids.length) (.valueError "chunk retrieval supports at most 50 run references")
  if ids = [] then return []
  else do
    let validation ← s.validateEvidence iso sha root q.tenantId (ids.map .name) q.allowed q.asOf
      q.knownAt now
    return validation.references

/-- The terms of a query. -/
def ChunkRequest.terms (q : ChunkRequest) : List (List Char) :=
  wordsOf (lowerText lower) wordChar q.query

def Store.readMatch (s : Store) (q : ChunkRequest) (now : ℚ) (m : Match) : Except Exc Passage :=
  s.readChunk iso sha root q.tenantId m.reference.id m.reference.sha256 q.allowed
    (m.offset q.limitChars) q.limitChars q.asOf q.knownAt now

def Store.retrieveChunks (s : Store) (q : ChunkRequest) (now : ℚ) : Except Exc (List Passage) := do
  let references ← s.verified iso sha root q now
  ((s.matches lower q.tenantId (q.terms lower wordChar) references).top Match.order q.limit).mapM
    (s.readMatch iso sha root q now)

end

/-! ## The length of documents -/

/-- No document is longer than the limit. -/
def Bounded (s : Store) : Prop := ∀ d ∈ s.documents.rows, d.content.length ≤ MAX_DOCUMENT_CHARS

theorem bounded_after (iso : String → Option ℚ) (sha : String → String) (root : String)
    (calls : List Call) : Bounded (after iso sha root calls) :=
  fun d hd => ((admitted_after iso sha root calls).content d hd).2

/-! ## What a verified reference names -/

section

variable {iso : String → Option ℚ} {sha : String → String} {root : String}
  {lower : Char → List Char} {s : Store}

/-- What a reference that is verified comes from. -/
structure Names (sha : String → String) (root : String) (s : Store) (visible : List Document)
    (allowed : List (String × String)) (reference : Verified) (d : Document) : Prop where
  allowed_eq : allowed.lookup reference.id = some reference.sha256
  found : visible.find? (fun d => d.id = reference.id) = some d
  digest_eq : d.sha256 = reference.sha256
  content : s.verifiedContent sha root d = .ok d.content
  reference_eq : reference = ⟨reference.id, reference.sha256, d.source, d.revision, d.availableAt,
    d.observedAt, d.validFrom, d.validUntil⟩

variable {content : String} {d : Document}

theorem verifiedContent_eq_ok (h : s.verifiedContent sha root d = .ok content) :
    content = d.content := by
  obtain ⟨-, h⟩ := of_raiseIf h
  obtain ⟨-, h⟩ := of_raiseIf h
  split at h
  · cases h
  · obtain ⟨-, h⟩ := of_raiseIf h
    exact (ok.inj h).symm

variable {reference : Verified} {visible : List Document} {allowed : List (String × String)}

/-- **A name is verified** as a document. -/
theorem names_of_validateReference {r : Reference}
    (h : s.validateReference sha root visible allowed r = .ok reference) :
    r.key = some reference.id ∧ ∃ d, Names sha root s visible allowed reference d := by
  unfold Store.validateReference at h
  split at h
  · cases h
  · rename_i key hkey
    split at h
    · cases h
    · rename_i expected hexpected
      split_ifs at h
      split at h
      · cases h
      · rename_i d hfind
        split_ifs at h with hdigest
        split at h
        · cases h
        · rename_i content hcontent
          obtain rfl := ok.inj h
          refine ⟨hkey, d, hexpected, hfind, not_not.mp hdigest, ?_, rfl⟩
          rw [hcontent, verifiedContent_eq_ok hcontent]

theorem Names.validateReference (h : Names sha root s visible allowed reference d) :
    s.validateReference sha root visible allowed
      (.entry (some reference.id) (some reference.sha256)) = .ok reference := by
  unfold Store.validateReference
  simp only [Reference.key, Reference.digest, h.allowed_eq, h.found, h.digest_eq, h.content,
    Option.getD_some, ne_eq, not_true_eq_false, if_false]
  exact congrArg _ h.reference_eq.symm

theorem references_foldl {f : Reference → Except Refusal Verified} (references : List Reference)
    (v : Validation) : (references.foldl (fun v r => v.add (f r)) v).references
      = v.references ++ references.filterMap fun r => (f r).toOption := by
  induction references generalizing v with
  | nil => exact (append_nil _).symm
  | cons r references ih =>
    rw [foldl_cons, ih]
    cases hr : f r with
    | error refusal => rw [filterMap_cons_none (by rw [hr]; rfl)]; rfl
    | ok verified =>
      rw [filterMap_cons_some (by rw [hr]; rfl)]
      exact append_assoc _ _ _

variable {q : ChunkRequest} {now : ℚ} {references : List Verified}

/-- **What was checked of a call**, and of the references that it may use. -/
structure Cleared (iso : String → Option ℚ) (sha : String → String) (root : String) (s : Store)
    (q : ChunkRequest) (now : ℚ) (references : List Verified) (allowed : List (String × String))
    (moment : ℚ) (known : Option ℚ) : Prop where
  limitChars_mem : 0 < q.limitChars ∧ q.limitChars ≤ MAX_CHUNK_CHARS
  nodup : (references.map Verified.id).Nodup
  tenant_eq : references ≠ [] → ∃ tenant, identifier q.tenantId = .ok tenant
  allowed_eq : referenceMap q.allowed = .ok allowed
  moment_eq : references ≠ [] → timestampOr iso q.asOf now = .ok moment
  known_eq : references ≠ [] → timestamp iso q.knownAt none = .ok known
  names : ∀ reference ∈ references, ∃ d,
    Names sha root s (s.visible q.tenantId moment known) allowed reference d

theorem cleared_of_verified (h : s.verified iso sha root q now = .ok references) :
    ∃ allowed moment known, Cleared iso sha root s q now references allowed moment known := by
  obtain ⟨-, h⟩ := of_raiseIf h
  obtain ⟨-, h⟩ := of_raiseIf h
  obtain ⟨hlimit, h⟩ := of_raiseIf h
  obtain ⟨allowed, hallowed, h⟩ := of_bind h
  obtain ⟨-, h⟩ := of_raiseIf h
  rw [not_or, not_lt] at hlimit
  have hlimitChars : 0 < q.limitChars ∧ q.limitChars ≤ MAX_CHUNK_CHARS :=
    ⟨Nat.pos_of_ne_zero hlimit.1, hlimit.2⟩
  split at h
  · obtain rfl := ok.inj h
    exact ⟨allowed, 0, none, hlimitChars, nodup_nil, fun hne => absurd rfl hne, hallowed,
      fun hne => absurd rfl hne, fun hne => absurd rfl hne, fun _ hr => absurd hr not_mem_nil⟩
  · obtain ⟨validation, hvalidation, h⟩ := of_bind h
    obtain rfl := ok.inj h
    obtain ⟨tenant, htenant, h⟩ := of_bind hvalidation
    obtain ⟨-, h⟩ := of_raiseIf h
    obtain ⟨allowed', hallowed', h⟩ := of_bind h
    obtain rfl := ok.inj (hallowed.symm.trans hallowed')
    obtain ⟨moment, hmoment, h⟩ := of_bind h
    obtain ⟨known, hknown, h⟩ := of_bind h
    obtain rfl := ok.inj h
    rw [references_foldl, nil_append, filterMap_map]
    refine ⟨allowed, moment, known, hlimitChars, ?_, fun _ => ⟨tenant, htenant⟩, hallowed,
      fun _ => hmoment, fun _ => hknown, fun reference hreference => ?_⟩
    · refine (nodup_map_firsts id (allowed.map Prod.fst)).sublist
        (map_filterMap_sublist (fun id reference hok => ?_) _)
      have hkey : (Reference.name id).key = some reference.id :=
        (names_of_validateReference (toOption_eq_some.mp hok)).1
      exact (Option.some.inj hkey).symm
    · obtain ⟨id, -, hok⟩ := mem_filterMap.mp hreference
      exact (names_of_validateReference (toOption_eq_some.mp hok)).2

variable {moment : ℚ} {known : Option ℚ} {wordChar : Char → Bool} {terms : List (List Char)}
  {m : Match}

/-! ## The chunk of a match -/

structure Matched (lower : Char → List Char) (s : Store) (tenantId : String)
    (terms : List (List Char)) (references : List Verified) (m : Match) : Prop where
  reference_mem : m.reference ∈ references
  found : (s.documents.find? m.reference.id).filter (fun d => d.tenantId = tenantId)
    = some m.document
  first_mem : (hitsOf lower terms m.document.content).min? = some m.first
  match_eq : s.match? lower tenantId terms m.reference = some m

variable {tenantId : String}

theorem matched_of_mem (h : m ∈ s.matches lower tenantId terms references) :
    Matched lower s tenantId terms references m := by
  obtain ⟨reference, hreference, hmatch⟩ := mem_filterMap.mp h
  have hmatch' := hmatch
  obtain ⟨d, hd, hmap⟩ := Option.bind_eq_some_iff.mp hmatch
  obtain ⟨first, hfirst, rfl⟩ := Option.map_eq_some_iff.mp hmap
  exact ⟨hreference, hd, hfirst, hmatch'⟩

/-- **The chunk of a match** is cut from its document. -/
theorem readMatch_eq (h : Cleared iso sha root s q now references allowed moment known)
    (hm : Matched lower s q.tenantId terms references m) : s.readMatch iso sha root q now m
      = (raiseIf (MAX_DOCUMENT_CHARS < m.offset q.limitChars)
          (.valueError "invalid evidence chunk bounds") >>= fun _ =>
        passage sha m.reference m.document.content (m.offset q.limitChars) q.limitChars) := by
  have hne : references ≠ [] := ne_nil_of_mem hm.reference_mem
  obtain ⟨tenant, htenant⟩ := h.tenant_eq hne
  obtain ⟨d, hnames⟩ := h.names m.reference hm.reference_mem
  have hbounds : (MAX_DOCUMENT_CHARS < m.offset q.limitChars ∨ q.limitChars = 0
      ∨ MAX_CHUNK_CHARS < q.limitChars) ↔ MAX_DOCUMENT_CHARS < m.offset q.limitChars := by
    refine or_iff_left ?_
    rintro (hzero | hlarge)
    · exact absurd hzero h.limitChars_mem.1.ne'
    · exact absurd hlarge (not_lt.mpr h.limitChars_mem.2)
  have hvalidation : s.validateEvidence iso sha root q.tenantId
      [.entry (some m.reference.id) (some m.reference.sha256)] q.allowed q.asOf q.knownAt now
      = .ok ⟨[m.reference], []⟩ := by
    unfold Store.validateEvidence
    rw [htenant, ok_bind, raiseIf_bind_of_not (by simp), h.allowed_eq, ok_bind, h.moment_eq hne,
      ok_bind, h.known_eq hne, ok_bind, foldl_cons, foldl_nil,
      hnames.validateReference]
    rfl
  have hdocument : m.document = d := by
    have hvisible := mem_of_find?_eq_some hnames.found
    have hid : d.id = m.reference.id := by simpa using find?_some hnames.found
    have hstored : s.documents.find? m.reference.id = some d :=
      hid ▸ Table.find?_of_mem (mem_rows_of_visible hvisible)
    have hfound := hm.found
    rw [hstored] at hfound
    exact (Option.some.inj (Option.filter_eq_some_iff.mp hfound).1).symm
  subst hdocument
  unfold Store.readMatch Store.readChunk
  rw [hvalidation, hm.found]
  refine congrArg₂ (· >>= ·) ?_ (funext fun _ => ?_)
  · unfold raiseIf
    exact if_congr hbounds rfl rfl
  · rw [ok_bind]
    show (s.verifiedContent sha root m.document >>= fun content => passage sha m.reference content
      (m.offset q.limitChars) q.limitChars) = _
    rw [hnames.content, ok_bind]

/-- Where the first term of a match starts. -/
def Match.start (lower : Char → List Char) (m : Match) : ℕ :=
  m.document.content.toList.origin lower m.first

/-- **A chunk shows where the first term starts**, and its text is that of the document. -/
structure Locates (lower : Char → List Char) (m : Match) (p : Passage) : Prop where
  reference_eq : p.reference = m.reference
  content_eq : p.content.toList
    = m.document.content.toList.slice p.offset (p.offset + p.content.length)
  start_mem : p.offset ≤ m.start lower ∧ m.start lower < p.offset + p.content.length

/-- The first term starts in the document, and not behind where it was found. -/
theorem Matched.start_lt (hlower : ∀ c, lower c ≠ []) (hterms : ∀ term ∈ terms, term ≠ [])
    (hm : Matched lower s tenantId terms references m) :
    m.start lower < m.document.content.length ∧ m.start lower ≤ m.first := by
  obtain ⟨term, hterm, hfirst⟩ := mem_filterMap.mp (min?_mem hm.first_mem)
  have hlt := firstAt_lt (hterms term hterm) hfirst
  refine ⟨?_, origin_le hlower _ _⟩
  rw [← String.length_toList]
  exact origin_lt hlt

variable (sha reference) in
theorem passage_eq_ok (limitChars : ℕ) {offset : ℕ} (h : offset ≤ content.length) :
    ∃ p, passage sha reference content offset limitChars = .ok p
      ∧ p.reference = reference ∧ p.offset = offset
      ∧ p.content.length = min limitChars (content.length - offset)
      ∧ p.content.toList = content.toList.slice p.offset (p.offset + p.content.length) := by
  have hdrop : (content.toList.drop offset).length = content.length - offset := by
    rw [length_drop, String.length_toList]
  have hlength : ((content.toList.drop offset).take limitChars).length
      = min limitChars (content.length - offset) := by
    rw [length_take, hdrop]
  refine ⟨_, raiseIf_bind_of_not (not_lt.mpr h), rfl, rfl, ?_, ?_⟩
  · exact String.length_ofList.trans hlength
  · show (String.ofList _).toList = content.toList.slice offset (offset + (String.ofList _).length)
    unfold List.slice
    rw [String.toList_ofList, String.length_ofList, hlength, Nat.add_sub_cancel_left, ← hdrop]
    exact take_eq_take_min

/-- **The chunk of a match shows its first term** exactly if lower-casing has not moved the term by
more than a quarter of a chunk. -/
theorem readMatch_locates_iff (hlower : ∀ c, lower c ≠ []) (hs : Bounded s)
    (hterms : ∀ term ∈ terms, term ≠ [])
    (h : Cleared iso sha root s q now references allowed moment known)
    (hm : Matched lower s q.tenantId terms references m) :
    (∃ p, s.readMatch iso sha root q now m = .ok p ∧ Locates lower m p)
      ↔ m.first ≤ m.start lower + q.limitChars / 4 := by
  obtain ⟨hlt, hle⟩ := hm.start_lt hlower hterms
  rw [readMatch_eq h hm]
  constructor
  · rintro ⟨p, hp, hlocates⟩
    obtain ⟨-, hp⟩ := of_raiseIf hp
    obtain ⟨-, hp⟩ := of_raiseIf hp
    obtain rfl := ok.inj hp
    have hstart : m.offset q.limitChars ≤ m.start lower := hlocates.start_mem.1
    unfold Match.offset at hstart
    omega
  · intro hdrift
    have hoffset : m.offset q.limitChars ≤ m.start lower := by
      unfold Match.offset
      omega
    have hmem := Table.mem_of_find? (Option.filter_eq_some_iff.mp hm.found).1
    have hin : m.offset q.limitChars ≤ m.document.content.length := hoffset.trans hlt.le
    obtain ⟨p, hp, hreference, hpoffset, hlength, hcontent⟩ :=
      passage_eq_ok sha m.reference q.limitChars hin
    refine ⟨p, ?_, hreference, hcontent, ?_⟩
    · rw [raiseIf_bind_of_not (not_lt.mpr (hin.trans (hs _ hmem)))]
      exact hp
    · rw [hpoffset, hlength]
      have hpos := h.limitChars_mem.1
      unfold Match.offset at hoffset ⊢
      omega

/-- **A match is shown** if fewer others come before it than are asked for. -/
def Shown (found : List Match) (limit : ℕ) (m : Match) : Prop :=
  m ∈ found ∧ (found.filter fun other => other.order < m.order).length < limit

/-- The matches of a call. -/
def Store.matchesFor (s : Store) (lower : Char → List Char) (wordChar : Char → Bool)
    (q : ChunkRequest) (references : List Verified) : List Match :=
  s.matches lower q.tenantId (q.terms lower wordChar) references

theorem terms_ne_nil {term : List Char} (h : term ∈ q.terms lower wordChar) : term ≠ [] := by
  have hmem := mem_of_mem_take h
  simpa using (mem_filter.mp hmem).2

theorem nodup_order (h : (references.map Verified.id).Nodup) :
    ((s.matchesFor lower wordChar q references).map Match.order).Nodup := by
  refine List.Nodup.of_map (fun rank => (ofLex rank).2) ?_
  rw [map_map]
  refine h.sublist (map_filterMap_sublist (fun reference m hm => ?_) references)
  obtain ⟨d, -, hmap⟩ := Option.bind_eq_some_iff.mp hm
  obtain ⟨first, -, rfl⟩ := Option.map_eq_some_iff.mp hmap
  rfl

theorem reference_of_readMatch {p : Passage}
    (h : Cleared iso sha root s q now references allowed moment known)
    (hm : Matched lower s q.tenantId terms references m)
    (hp : s.readMatch iso sha root q now m = .ok p) : p.reference = m.reference := by
  rw [readMatch_eq h hm] at hp
  obtain ⟨-, hp⟩ := of_raiseIf hp
  obtain ⟨-, hp⟩ := of_raiseIf hp
  obtain rfl := ok.inj hp
  rfl

/-- **Chunks of evidence**: the call returns, and each document that is shown has a chunk with the
start of its first term, exactly if no term of these has moved by more than a quarter of a chunk. -/
theorem chunks_located_iff (iso : String → Option ℚ) (sha : String → String) (root : String)
    (lower : Char → List Char) (hlower : ∀ c, lower c ≠ []) (wordChar : Char → Bool)
    (calls : List Call) (q : ChunkRequest) (now : ℚ) {references : List Verified}
    (h : (after iso sha root calls).verified iso sha root q now = .ok references) :
    (∃ chunks, (after iso sha root calls).retrieveChunks iso sha root lower wordChar q now
        = .ok chunks
      ∧ ∀ m, Shown ((after iso sha root calls).matchesFor lower wordChar q references) q.limit m →
        ∃ p ∈ chunks, Locates lower m p)
    ↔ ∀ m, Shown ((after iso sha root calls).matchesFor lower wordChar q references) q.limit m →
      m.first ≤ m.start lower + q.limitChars / 4 := by
  obtain ⟨allowed, moment, known, hcleared⟩ := cleared_of_verified h
  have hlocates : ∀ m ∈ (after iso sha root calls).matchesFor lower wordChar q references, _ :=
    fun m hm => readMatch_locates_iff hlower (bounded_after iso sha root calls)
      (fun _ hterm => terms_ne_nil hterm) hcleared (matched_of_mem hm)
  have htop : ∀ m, m ∈ ((after iso sha root calls).matchesFor lower wordChar q references).top
      Match.order q.limit ↔ Shown ((after iso sha root calls).matchesFor lower wordChar q
        references) q.limit m := fun m => mem_top_iff (nodup_order hcleared.nodup)
  have hretrieve : (after iso sha root calls).retrieveChunks iso sha root lower wordChar q now
      = (((after iso sha root calls).matchesFor lower wordChar q references).top Match.order
        q.limit).mapM ((after iso sha root calls).readMatch iso sha root q now) := by
    unfold Store.retrieveChunks
    rw [h]
    rfl
  rw [hretrieve]
  constructor
  · rintro ⟨chunks, hchunks, hall⟩ m hm
    obtain ⟨p, hp, hlocated⟩ := hall m hm
    obtain ⟨m', hm', hread⟩ := (mem_of_mapM_eq_ok hchunks).mp hp
    have hmatched := matched_of_mem hm.1
    have hmatched' := matched_of_mem ((htop m').mp hm').1
    have hsame : m'.reference = m.reference :=
      (reference_of_readMatch hcleared hmatched' hread).symm.trans hlocated.reference_eq
    have heq := hmatched'.match_eq
    rw [hsame, hmatched.match_eq] at heq
    obtain rfl := Option.some.inj heq
    exact (hlocates m hm.1).mp ⟨p, hread, hlocated⟩
  · intro hdrift
    have hread : ∀ m, Shown ((after iso sha root calls).matchesFor lower wordChar q references)
        q.limit m → ∃ p, (after iso sha root calls).readMatch iso sha root q now m = .ok p
          ∧ Locates lower m p := fun m hm => (hlocates m hm.1).mpr (hdrift m hm)
    cases hchunks : (((after iso sha root calls).matchesFor lower wordChar q references).top
        Match.order q.limit).mapM ((after iso sha root calls).readMatch iso sha root q now) with
    | error e =>
      obtain ⟨m, hm, he⟩ := exists_of_mapM_eq_error hchunks
      obtain ⟨p, hp, -⟩ := hread m ((htop m).mp hm)
      cases he.symm.trans hp
    | ok chunks =>
      refine ⟨chunks, rfl, fun m hm => ?_⟩
      obtain ⟨p, hp, hlocated⟩ := hread m hm
      exact ⟨p, (mem_of_mapM_eq_ok hchunks).mpr ⟨m, (htop m).mpr hm, hp⟩, hlocated⟩

end

/-! ## A sample document -/

/-- The lower case of ASCII, and that of the one letter that has two. -/
def sampleLower (c : Char) : List Char := if c = 'İ' then ['i', Char.ofNat 0x307] else [c.toLower]

theorem sampleLower_ne_nil (c : Char) : sampleLower c ≠ [] := by
  unfold sampleLower
  split <;> simp

def sampleDigest : String := "0000000000000000000000000000000000000000000000000000000000000000"

/-- A document with five letters whose lower case is longer. -/
def dottedStore : List Call :=
  [.ingest "alpha" "guide" (some "İİİİİbtc") (.ok "") ⟨"note", none, none, none, none, none⟩ "a" 1]

/-- Four characters around a term. -/
def sampleRequest : ChunkRequest :=
  ⟨"alpha", "btc", [.entry (some "a") (some sampleDigest)], 5, 4, none, none⟩

def sampleVerified : Except Exc (List Verified) :=
  (after (fun _ => none) (fun _ => sampleDigest) "root" dottedStore).verified (fun _ => none)
    (fun _ => sampleDigest) "root" sampleRequest 2

theorem sampleVerified_isSome : sampleVerified.toOption.isSome = true := by decide +kernel

/-- The chunk of the sample would begin behind its document. -/
theorem sample_raises : (after (fun _ => none) (fun _ => sampleDigest) "root"
    dottedStore).retrieveChunks (fun _ => none) (fun _ => sampleDigest) "root" sampleLower
      Char.isAlpha sampleRequest 2
    = .error (.valueError "evidence chunk offset exceeds document") := by
  decide +kernel

/-- **A document with a term, for which the call raises.** -/
theorem chunks_not_located : ¬ ∀ (iso : String → Option ℚ) (sha : String → String) (root : String)
    (lower : Char → List Char), (∀ c, lower c ≠ []) → ∀ (wordChar : Char → Bool)
    (calls : List Call) (q : ChunkRequest) (now : ℚ) (references : List Verified),
    (after iso sha root calls).verified iso sha root q now = .ok references →
    ∃ chunks, (after iso sha root calls).retrieveChunks iso sha root lower wordChar q now
        = .ok chunks
      ∧ ∀ m, Shown ((after iso sha root calls).matchesFor lower wordChar q references) q.limit m →
        ∃ p ∈ chunks, Locates lower m p := by
  intro h
  obtain ⟨references, hreferences⟩ := Option.isSome_iff_exists.mp sampleVerified_isSome
  obtain ⟨chunks, hchunks, -⟩ := h (fun _ => none) (fun _ => sampleDigest) "root" sampleLower
    sampleLower_ne_nil Char.isAlpha dottedStore sampleRequest 2 references
    (toOption_eq_some.mp hreferences)
  cases sample_raises.symm.trans hchunks

theorem chunks_located_dotted : ∃ references, sampleVerified = .ok references
    ∧ ¬ ∀ m, Shown ((after (fun _ => none) (fun _ => sampleDigest) "root"
        dottedStore).matchesFor sampleLower Char.isAlpha sampleRequest references) 5 m →
      m.first ≤ m.start sampleLower + 1 := by
  obtain ⟨references, hreferences⟩ := Option.isSome_iff_exists.mp sampleVerified_isSome
  have hverified := toOption_eq_some.mp hreferences
  refine ⟨references, hverified, fun hdrift => ?_⟩
  obtain ⟨chunks, hchunks, -⟩ := (chunks_located_iff (fun _ => none) (fun _ => sampleDigest) "root"
    sampleLower sampleLower_ne_nil Char.isAlpha dottedStore sampleRequest 2 hverified).mpr hdrift
  cases sample_raises.symm.trans hchunks

end Qt.Context
