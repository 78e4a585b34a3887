import Mathlib.Data.Fintype.EquivFin
import QuantTrading.ContextStore
import QuantTrading.Lib.Ranking

/-!
# Searching the context store

`search` of `qt.agent_hub.context`. Documents are ranked by full text and by the terms that
they contain, among those that are visible at the cutoff. What is added for chunks is not: the
hits are counted among all chunks of the tenant, whether their document is visible or not, and
a document gets more the earlier its hits come. So a document that is not available yet, or
had not been observed, moves others; `search_isolated_iff` says when it cannot.

Full-text ranks are a function of the document and of the words. The lower case of a text and
the characters of a word are parameters, since Unicode decides about them; the lower case of
SQL is that of ASCII. Rows that an `ORDER BY` leaves equal come in the order of their table.
The index of full texts holds what `hub_documents` does.
-/

namespace Qt.Context

open Except List

/-! ## Terms -/

section

variable (lower : String → String) (wordChar : Char → Bool)

/-- `re.findall(r"[\w]+", query.lower())[:30]`. -/
def wordsOf (query : String) : List (List Char) :=
  (((lower query).toList.splitOnP fun c => ¬ wordChar c).filter (· ≠ [])).take 30

/-- `[\u3400-\u9fff]`. -/
def isCjk (c : Char) : Bool := 0x3400 ≤ c.toNat && c.toNat ≤ 0x9fff

/-- The pairs of characters of a word. -/
def bigrams (word : List Char) : List (List Char) :=
  (List.range (min (word.length - 1) 30)).map fun i => (word.drop i).take 2

/-- The terms of a query: its words, and the pairs of those that have ideographs. -/
def termsOf (words : List (List Char)) : List (List Char) :=
  ((words ++ (words.filter fun word => word.any isCjk).flatMap bigrams).firsts id).take 64

/-- `lower` of SQLite. -/
def sqlLower (content : String) : List Char := content.toList.map Char.toLower

/-- `instr`: where a text comes first, from one on. -/
def instr (content term : List Char) : ℕ :=
  ((content.tails.findIdx? fun rest => term.isPrefixOf rest).map (· + 1)).getD 0

variable (terms : List (List Char))

/-- The text has a term. -/
def HasTerm (content : String) : Prop :=
  ∃ term ∈ terms, 0 < instr (sqlLower content) term

instance (terms : List (List Char)) (content : String) : Decidable (HasTerm terms content) :=
  inferInstanceAs (Decidable (∃ term ∈ terms, 0 < instr (sqlLower content) term))

/-- What `substr` and `length` of SQLite read of a text: they stop at the first NUL, where
`lower` and `instr` go on. -/
def sqlText (content : String) : List Char := content.toList.takeWhile (· ≠ '\x00')

/-- The part of a document around a term. -/
def excerpt (content : String) : String :=
  let anchor := ((terms.map (instr (sqlLower content))).find? (· ≠ 0)).getD 1
  String.ofList (((sqlText content).drop (max 1 (anchor - 500) - 1)).take 4000)

/-- `str.count`: how often a text occurs, without overlaps. -/
def occurrences (term : List Char) : ℕ → List Char → ℕ
  | 0, _ => 0
  | _ + 1, [] => 0
  | fuel + 1, c :: cs =>
    if term.isPrefixOf (c :: cs) then 1 + occurrences term fuel ((c :: cs).drop term.length)
    else occurrences term fuel cs

/-- What the terms give for a text. -/
def termScore (content : String) : ℚ :=
  let text := (lower content).toList
  (terms.map fun term => ((min (occurrences term text.length text) 20 * term.length : ℕ) : ℚ)).sum

end

/-! ## Ranking -/

/-- A document that is ranked, with its excerpt. -/
structure Scored where
  score : ℚ
  document : Document
  content : String
deriving DecidableEq

/-- The id of a ranked document. -/
def Scored.id (item : Scored) : String := item.document.id

section

variable (lower : String → String) (rank : List (List Char) → String → Option ℚ) (fts : Bool)

/-- The hits of the full texts: `ORDER BY rank LIMIT ?`. -/
def fullText (words terms : List (List Char)) (limit : ℕ) (visible : List Document) : List Scored :=
  if fts = true ∧ words ≠ [] then
    ((visible.filterMap fun d => (rank words d.content).map fun r => (r, d)).top Prod.fst limit).map
      fun (r, d) => ⟨10 - r, d, excerpt terms d.content⟩
  else []

/-- The documents with a term: `ORDER BY created_at DESC LIMIT ?`. -/
def withTerm (terms : List (List Char)) (limit : ℕ) (visible : List Document) : List Document :=
  (visible.filter fun d => terms = [] ∨ HasTerm terms d.content).top
    (fun d => -d.createdAt) (max 100 (limit * 5))

/-- The score of the terms is added to that of the full text. -/
def addTerms (terms : List (List Char)) (ranked : List Scored) (d : Document) : List Scored :=
  let content := excerpt terms d.content
  let score := termScore lower terms content
  if terms = [] ∨ score ≠ 0 then
    if d.id ∈ ranked.map Scored.id then
      ranked.map fun item => if item.id = d.id then ⟨item.score + score, d, content⟩ else item
    else ranked ++ [⟨score, d, content⟩]
  else ranked

/-- **The ranked documents**, before their chunks are counted. -/
def ranked (words terms : List (List Char)) (limit : ℕ) (visible : List Document) : List Scored :=
  (withTerm terms limit visible).foldl (addTerms lower terms)
    (fullText rank fts words terms limit visible)

end

/-- **The hits among chunks**: `WHERE tenant_id=? AND (...) ORDER BY ordinal LIMIT 50`. -/
def chunkHits (tenantId : String) (terms : List (List Char)) (chunks : List Chunk) : List Chunk :=
  (chunks.filter fun c => c.tenantId = tenantId ∧ HasTerm terms c.content).top Chunk.ordinal 50

/-- What a document gets for a hit. -/
def addHit (ranked : List Scored) (hit : Chunk × ℕ) : List Scored :=
  ranked.map fun item =>
    if item.id = hit.1.docId then { item with score := item.score + 1 / (60 + hit.2) } else item

/-- The order of the results: the sort is stable, and `i` is where a document was ranked. -/
def order (item : Scored × ℕ) : ℚ ×ₗ ℚ ×ₗ ℕ :=
  toLex (-item.1.score, toLex (-item.1.document.createdAt, item.2))

/-- The ranked documents in order. -/
def ordered (limit : ℕ) (ranked : List Scored) : List Scored :=
  (ranked.zipIdx.top order limit).map Prod.fst

section

variable (iso : String → Option ℚ) (lower : String → String) (wordChar : Char → Bool)
  (rank : List (List Char) → String → Option ℚ) (fts : Bool)

/-- A search as it is asked for. -/
structure Request where
  tenantId : String
  query : String
  asOf : Option Stamp
  knownAt : Option Stamp
  limit : ℕ

/-- The checks of a search, which return the cutoff. -/
def Request.check (q : Request) (now : ℚ) : Except Exc (ℚ × Option ℚ) := do
  let _ ← identifier q.tenantId
  raiseIf (4096 < q.query.length ∨ q.limit = 0 ∨ 50 < q.limit)
    (.valueError "invalid search query or limit")
  let moment ← timestampOr iso q.asOf now
  let known ← timestamp iso q.knownAt none
  return (moment, known)

/-- What a search finds at a cutoff. -/
def Store.found (s : Store) (q : Request) (moment : ℚ) (known : Option ℚ) : List Scored :=
  let words := wordsOf lower wordChar q.query
  let terms := termsOf words
  ordered q.limit ((chunkHits q.tenantId terms s.chunks.rows).zipIdx.foldl addHit
    (ranked lower rank fts words terms q.limit (s.visible q.tenantId moment known)))

def Store.search (s : Store) (q : Request) (now : ℚ) : Except Exc (List Scored) := do
  let (moment, known) ← q.check iso now
  return s.found lower wordChar rank fts q moment known

end

/-! ## What a search may not depend on -/

/-- **A document is hidden** at a cutoff: it is of another tenant, was not available, or had not
been observed. -/
def Document.Hidden (tenantId : String) (moment : ℚ) (known : Option ℚ) (d : Document) : Prop :=
  d.tenantId ≠ tenantId ∨ moment < d.availableAt ∨ ∃ k ∈ known, k < d.observedAt
deriving Decidable

section

variable (tenantId : String) (moment : ℚ) (known : Option ℚ)

/-- The documents that are not hidden. -/
def Store.shown (s : Store) : List Document :=
  s.documents.rows.filter fun d => ¬ d.Hidden tenantId moment known

/-- The chunks of the documents that are not hidden. -/
def Store.shownChunks (s : Store) : List Chunk :=
  s.chunks.rows.filter fun c => c.docId ∈ (s.shown tenantId moment known).map Document.id

/-- **Hidden documents were added or removed**, with their chunks. -/
structure SameShown (s s' : Store) : Prop where
  documents : s'.shown tenantId moment known = s.shown tenantId moment known
  chunks : s'.shownChunks tenantId moment known = s.shownChunks tenantId moment known

end

variable (hits : List Chunk)

/-- What the hits give to a document. -/
def bonus (id : String) : ℚ :=
  List.positions (fun i => 1 / (60 + i : ℚ)) Chunk.docId id 0 hits

/-- A ranked document with what it gets for hits. -/
def Scored.raise (item : Scored) : Scored :=
  { item with score := item.score + bonus hits item.id }

/-- The order of the results, for given hits. -/
def orderWith (item : Scored × ℕ) : ℚ ×ₗ ℚ ×ₗ ℕ :=
  order (item.1.raise hits, item.2)

section

variable (lower : String → String) (wordChar : Char → Bool)
  (rank : List (List Char) → String → Option ℚ) (fts : Bool)

/-- The ranked documents of a search, before their chunks are counted. -/
def Store.rankedFor (s : Store) (q : Request) (moment : ℚ) (known : Option ℚ) : List Scored :=
  ranked lower rank fts (wordsOf lower wordChar q.query) (termsOf (wordsOf lower wordChar q.query))
    q.limit (s.visible q.tenantId moment known)

/-- The hits of a search among the chunks of the documents that are not hidden. -/
def Store.shownHits (s : Store) (q : Request) (moment : ℚ) (known : Option ℚ) : List Chunk :=
  chunkHits q.tenantId (termsOf (wordsOf lower wordChar q.query))
    (s.shownChunks q.tenantId moment known)

/-- **Every ranked document with a hit is outranked**, by as many as are returned. -/
def Outranked (s : Store) (q : Request) (moment : ℚ) (known : Option ℚ) : Prop :=
  ∀ item ∈ (s.rankedFor lower wordChar rank fts q moment known).zipIdx,
    item.1.id ∈ (s.shownHits lower wordChar q moment known).map Chunk.docId →
      q.limit ≤ ((s.rankedFor lower wordChar rank fts q moment known).zipIdx.filter fun other =>
        orderWith (s.shownHits lower wordChar q moment known) other <
          orderWith (s.shownHits lower wordChar q moment known) item).length

end

/-! ## What is visible -/

section

variable {tenantId : String} {moment : ℚ} {known : Option ℚ} {s s' : Store} {d : Document}

theorem not_hidden_of_eligible (h : d.Eligible moment known) (htenant : d.tenantId = tenantId) :
    ¬ d.Hidden tenantId moment known := by
  rintro (hne | hlt | ⟨k, hk, hlt⟩)
  · exact hne htenant
  · exact absurd h.2.1 (not_le.mpr hlt)
  · exact absurd (h.2.2 k hk) (not_le.mpr hlt)

theorem visible_eq_shown (s : Store) (tenantId : String) (moment : ℚ) (known : Option ℚ) :
    s.visible tenantId moment known =
      ((s.shown tenantId moment known).current Document.subject Document.revision
        (Document.Eligible moment known)).filter fun d => d.Live moment := by
  have htenant : ∀ d d' : Document, d'.subject = d.subject → d.tenantId = tenantId →
      d'.tenantId = tenantId := fun d d' h hd => (congrArg Prod.fst h).trans hd
  have hshown : (s.documents.rows.filter fun d => d.tenantId = tenantId).filter
        (Document.Eligible moment known) =
      (s.shown tenantId moment known).filter (Document.Eligible moment known) := by
    unfold Store.shown
    rw [filter_filter, filter_filter]
    refine filter_congr fun d _ => ?_
    by_cases hd : d.Eligible moment known
    · have hiff : ¬ d.Hidden tenantId moment known ↔ d.tenantId = tenantId :=
        ⟨fun h => not_not.mp fun hne => h (.inl hne), not_hidden_of_eligible hd⟩
      simp [hd, hiff]
    · simp [hd]
  unfold Store.visible
  rw [← current_congr hshown, ← filter_current htenant, filter_filter]
  refine filter_congr fun d _ => ?_
  rw [Bool.and_comm]
  simp

theorem SameShown.visible (h : SameShown tenantId moment known s s') :
    s'.visible tenantId moment known = s.visible tenantId moment known := by
  rw [visible_eq_shown, visible_eq_shown, h.documents]

theorem mem_shown_of_visible (h : d ∈ s.visible tenantId moment known) :
    d ∈ s.shown tenantId moment known := by
  rw [visible_eq_shown] at h
  exact (mem_current.mp (mem_of_mem_filter h)).1

theorem nodup_visible (s : Store) (tenantId : String) (moment : ℚ) (known : Option ℚ) :
    ((s.visible tenantId moment known).map Document.id).Nodup :=
  s.documents.nodup.sublist ((filter_sublist.trans filter_sublist).map _)

end

/-! ## What is ranked -/

section

variable {lower : String → String} {rank : List (List Char) → String → Option ℚ} {fts : Bool}

/-- What is ranked of some documents: each at most once. -/
structure Ranks (visible : List Document) (items : List Scored) : Prop where
  nodup : (items.map Scored.id).Nodup
  mem : ∀ item ∈ items, item.document ∈ visible

variable {visible : List Document}

theorem ranks_fullText (words terms : List (List Char)) (limit : ℕ)
    (hnodup : (visible.map Document.id).Nodup) :
    Ranks visible (fullText rank fts words terms limit visible) := by
  unfold fullText
  split_ifs
  swap
  · exact ⟨nodup_nil, fun _ hitem => absurd hitem not_mem_nil⟩
  have hsub : ∀ l : List Document, ((l.filterMap fun d =>
      (rank words d.content).map fun r => (r, d)).map Prod.snd).Sublist l := by
    intro l
    induction l with
    | nil => exact .slnil
    | cons d l ih =>
      cases hrank : rank words d.content with
      | none => rw [filterMap_cons_none (by simp [hrank])]; exact ih.cons d
      | some r =>
        have hcons : (d :: l).filterMap (fun d => (rank words d.content).map fun r => (r, d)) =
            (r, d) :: l.filterMap fun d => (rank words d.content).map fun r => (r, d) :=
          filterMap_cons_some (by simp [hrank])
        rw [hcons]
        exact ih.cons_cons d
  have hids : (((visible.filterMap fun d =>
      (rank words d.content).map fun r => (r, d)).top Prod.fst limit).map
        fun pair => pair.2.id).Nodup := by
    have hpairs : ((visible.filterMap fun d =>
        (rank words d.content).map fun r => (r, d)).map fun pair => pair.2.id).Nodup := by
      have := hnodup.sublist ((hsub visible).map Document.id)
      rwa [List.map_map] at this
    exact (((orderBy_perm _ _).map _).nodup_iff.mpr hpairs).sublist ((take_sublist _ _).map _)
  constructor
  · rw [List.map_map]
    exact hids
  · intro item hitem
    obtain ⟨⟨r, d⟩, hpair, rfl⟩ := mem_map.mp hitem
    have hmem := mem_orderBy.mp ((take_sublist _ _).subset hpair)
    exact (hsub visible).subset (mem_map_of_mem hmem)

theorem Ranks.addTerms {items : List Scored} (h : Ranks visible items) (terms : List (List Char))
    {d : Document} (hd : d ∈ visible) : Ranks visible (addTerms lower terms items d) := by
  simp only [Context.addTerms]
  split_ifs with hscore hid
  · constructor
    · have hids : (items.map fun item => if item.id = d.id then
          (⟨item.score + termScore lower terms (excerpt terms d.content), d,
            excerpt terms d.content⟩ : Scored) else item).map Scored.id = items.map Scored.id := by
        rw [List.map_map]
        refine map_congr_left fun item _ => ?_
        rw [Function.comp_apply]
        split_ifs with hitem
        · exact hitem.symm
        · rfl
      rw [hids]
      exact h.nodup
    · intro item hitem
      obtain ⟨item', hitem', rfl⟩ := mem_map.mp hitem
      split_ifs
      · exact hd
      · exact h.mem item' hitem'
  · constructor
    · rw [map_append, map_singleton, ← concat_eq_append]
      exact h.nodup.concat hid
    · intro item hitem
      obtain hitem | hitem := mem_append.mp hitem
      · exact h.mem item hitem
      · rw [mem_singleton.mp hitem]
        exact hd
  · exact h

theorem ranks_ranked (words terms : List (List Char)) (limit : ℕ)
    (hnodup : (visible.map Document.id).Nodup) :
    Ranks visible (ranked lower rank fts words terms limit visible) := by
  unfold ranked
  have hmem : ∀ d ∈ withTerm terms limit visible, d ∈ visible := fun d hd =>
    mem_of_mem_filter (mem_orderBy.mp ((take_sublist _ _).subset hd))
  generalize withTerm terms limit visible = docs at hmem
  have hfold : ∀ items, Ranks visible items →
      Ranks visible (docs.foldl (addTerms lower terms) items) := by
    induction docs with
    | nil => exact fun _ h => h
    | cons d docs ih =>
      intro items h
      exact ih (fun d' hd' => hmem d' (mem_cons_of_mem d hd')) _
        (h.addTerms terms (hmem d mem_cons_self))
  exact hfold _ (ranks_fullText words terms limit hnodup)

end

/-! ## What is added for hits -/

theorem foldl_addHit (items : List Scored) :
    hits.zipIdx.foldl addHit items = items.map (Scored.raise hits) := by
  have hfrom : ∀ (hits : List Chunk) (i : ℕ) (items : List Scored),
      (hits.zipIdx i).foldl addHit items = items.map fun item =>
        { item with score := item.score +
          List.positions (fun i => 1 / (60 + i : ℚ)) Chunk.docId item.id i hits } := by
    intro hits
    induction hits with
    | nil => intro i items; simp [List.positions]
    | cons hit hits ih =>
      intro i items
      rw [zipIdx_cons, foldl_cons, ih, addHit, List.map_map]
      refine map_congr_left fun item _ => ?_
      rw [Function.comp_apply, List.positions]
      by_cases hid : item.id = hit.docId
      · rw [if_pos hid, if_pos hid.symm]
        show Scored.mk _ _ _ = _
        rw [add_assoc]
        rfl
      · rw [if_neg hid, if_neg (Ne.symm hid), zero_add]
  exact hfrom hits 0 items

/-! ## Results -/

section

variable {lower : String → String} {wordChar : Char → Bool}
  {rank : List (List Char) → String → Option ℚ} {fts : Bool} {s s' : Store} {q : Request}
  {moment : ℚ} {known : Option ℚ}

/-- The results for given hits. -/
def resultsFor (items : List Scored) (limit : ℕ) (hits : List Chunk) : List Scored :=
  (items.zipIdx.top (orderWith hits) limit).map fun item => item.1.raise hits

theorem found_eq (s : Store) (q : Request) (moment : ℚ) (known : Option ℚ) :
    s.found lower wordChar rank fts q moment known =
      resultsFor (s.rankedFor lower wordChar rank fts q moment known) q.limit
        (chunkHits q.tenantId (termsOf (wordsOf lower wordChar q.query)) s.chunks.rows) := by
  show ordered q.limit ((chunkHits q.tenantId (termsOf (wordsOf lower wordChar q.query))
    s.chunks.rows).zipIdx.foldl addHit (s.rankedFor lower wordChar rank fts q moment known)) = _
  rw [foldl_addHit, ordered, List.zipIdx_map, List.map_top, List.map_map]
  rfl

theorem nodup_orderWith (hits : List Chunk) (items : List Scored) :
    (items.zipIdx.map (orderWith hits)).Nodup := by
  refine List.Nodup.of_map (fun o : ℚ ×ₗ ℚ ×ₗ ℕ => (ofLex (ofLex o).2).2) ?_
  rw [List.map_map]
  show (items.zipIdx.map Prod.snd).Nodup
  rw [zipIdx_map_snd]
  exact nodup_range'

theorem orderWith_le {hits hits' : List Chunk} {item : Scored × ℕ}
    (h : bonus hits' item.1.id ≤ bonus hits item.1.id) :
    orderWith hits item ≤ orderWith hits' item := by
  have hscore : -(item.1.score + bonus hits item.1.id) ≤ -(item.1.score + bonus hits' item.1.id) :=
    neg_le_neg (add_le_add_right h _)
  exact Prod.Lex.toLex_mono ⟨hscore, le_rfl⟩

theorem ranks_rankedFor (s : Store) (q : Request) (moment : ℚ) (known : Option ℚ) :
    Ranks (s.visible q.tenantId moment known)
      (s.rankedFor lower wordChar rank fts q moment known) :=
  ranks_ranked _ _ _ (nodup_visible s q.tenantId moment known)

/-- The weights of the first hits: they decrease, to nothing after the last one. -/
theorem bonus_take (hits : List Chunk) (id : String) : bonus (hits.take 50) id =
    List.positions (fun i => if i < 0 + 50 then 1 / (60 + i : ℚ) else 0) Chunk.docId id 0 hits :=
  positions_take _ _ _ 50 hits 0

theorem weight_succ_lt {i : ℕ} (h : i < 0 + 50) :
    (if i + 1 < 0 + 50 then 1 / (60 + (i + 1 : ℕ) : ℚ) else 0) <
      if i < 0 + 50 then 1 / (60 + i : ℚ) else 0 := by
  rw [if_pos h]
  split_ifs
  · refine one_div_lt_one_div_of_lt (by positivity) ?_
    push_cast
    linarith
  · positivity

theorem antitone_weight : Antitone fun i : ℕ => if i < 0 + 50 then 1 / (60 + i : ℚ) else 0 := by
  refine antitone_nat_of_succ_le fun i => ?_
  by_cases h : i < 0 + 50
  · exact (weight_succ_lt h).le
  · rw [if_neg h, if_neg (by omega)]

variable {id : String} {chunks : List Chunk} {tenantId : String} {terms : List (List Char)}

/-- **Chunks of other documents** only take away from what a document gets. -/
theorem bonus_le {p : Chunk → Bool} (hp : ∀ c ∈ chunks, c.docId = id → p c = true) :
    bonus (chunkHits tenantId terms chunks) id ≤
      bonus (chunkHits tenantId terms (chunks.filter p)) id := by
  have hcomm : (chunks.filter p).filter (fun c => c.tenantId = tenantId ∧ HasTerm terms c.content) =
      (chunks.filter fun c => c.tenantId = tenantId ∧ HasTerm terms c.content).filter p :=
    filter_comm _ _ _
  unfold chunkHits List.top
  rw [bonus_take, bonus_take, hcomm, ← filter_orderBy _ p]
  refine positions_le_filter antitone_weight _ (fun c hc => hp c ?_) le_rfl
  exact mem_of_mem_filter (mem_orderBy.mp hc)

theorem shown_of_docId (hid : id ∈ (s.shown q.tenantId moment known).map Document.id) :
    ∀ c ∈ s.chunks.rows, c.docId = id →
      decide (c.docId ∈ (s.shown q.tenantId moment known).map Document.id) = true :=
  fun _ _ hc => decide_eq_true (hc ▸ hid)

/-- **Documents that are outranked do not matter.** -/
theorem found_of_outranked (h : Outranked lower wordChar rank fts s q moment known)
    (hs : SameShown q.tenantId moment known s s') :
    s'.found lower wordChar rank fts q moment known =
      resultsFor (s.rankedFor lower wordChar rank fts q moment known) q.limit
        (s.shownHits lower wordChar q moment known) := by
  have hranked : s'.rankedFor lower wordChar rank fts q moment known =
      s.rankedFor lower wordChar rank fts q moment known := by
    unfold Store.rankedFor
    rw [hs.visible]
  have hshown : s.shownHits lower wordChar q moment known =
      chunkHits q.tenantId (termsOf (wordsOf lower wordChar q.query))
        (s'.shownChunks q.tenantId moment known) := by
    unfold Store.shownHits
    rw [hs.chunks]
  rw [found_eq, hranked]
  generalize hhits : chunkHits q.tenantId (termsOf (wordsOf lower wordChar q.query))
    s'.chunks.rows = hits
  have hids : ∀ item ∈ (s.rankedFor lower wordChar rank fts q moment known).zipIdx,
      bonus hits item.1.id ≤ bonus (s.shownHits lower wordChar q moment known) item.1.id := by
    intro item hitem
    have hranks : Ranks (s.visible q.tenantId moment known)
        (s.rankedFor lower wordChar rank fts q moment known) := ranks_rankedFor s q moment known
    have hdocument := hranks.mem item.1 (fst_mem_of_mem_zipIdx hitem)
    have hid : item.1.id ∈ (s'.shown q.tenantId moment known).map Document.id := by
      rw [hs.documents]
      exact mem_map_of_mem (mem_shown_of_visible hdocument)
    rw [hshown, ← hhits]
    exact bonus_le (shown_of_docId hid)
  have hnone : ∀ item ∈ (s.rankedFor lower wordChar rank fts q moment known).zipIdx.top
      (orderWith (s.shownHits lower wordChar q moment known)) q.limit,
      bonus hits item.1.id = bonus (s.shownHits lower wordChar q moment known) item.1.id := by
    intro item hitem
    obtain ⟨hmem, hlength⟩ := (mem_top_iff (nodup_orderWith _ _)).mp hitem
    have hnot : item.1.id ∉ (s.shownHits lower wordChar q moment known).map Chunk.docId :=
      fun hhit => absurd hlength (not_lt.mpr (h item hmem hhit))
    have hzero : bonus (s.shownHits lower wordChar q moment known) item.1.id = 0 :=
      positions_eq_zero hnot 0
    refine le_antisymm (hids item hmem) ?_
    rw [hzero]
    exact positions_nonneg (fun i => by positivity) hits 0
  have htop := top_eq_of_le (n := q.limit)
    (nodup_orderWith (s.shownHits lower wordChar q moment known) _) (nodup_orderWith hits _)
    (fun item hitem => orderWith_le (hids item hitem)) fun item hitem => by
      unfold orderWith Scored.raise
      rw [hnone item hitem]
  unfold resultsFor
  rw [htop]
  refine map_congr_left fun item hitem => ?_
  unfold Scored.raise
  rw [hnone item hitem]

/-! ## A hidden document that matters -/

/-- The store without the chunks of hidden documents. -/
def Store.withoutHidden (s : Store) (tenantId : String) (moment : ℚ) (known : Option ℚ) : Store :=
  { s with chunks :=
      ⟨s.shownChunks tenantId moment known, s.chunks.nodup.sublist (filter_sublist.map _)⟩ }

theorem sameShown_withoutHidden (s : Store) (tenantId : String) (moment : ℚ) (known : Option ℚ) :
    SameShown tenantId moment known s (s.withoutHidden tenantId moment known) where
  documents := rfl
  chunks := by
    show (s.shownChunks tenantId moment known).filter (fun c => c.docId ∈
      (s.shown tenantId moment known).map Document.id) = _
    rw [Store.shownChunks, filter_filter]
    simp only [Bool.and_self]

/-- **A hidden document can be added** whose one chunk comes before all others. -/
theorem exists_hidden (s : Store) (tenantId : String) (moment : ℚ) (known : Option ℚ)
    (content : String) : ∃ s' c, SameShown tenantId moment known s s' ∧
      s'.chunks.rows = c :: s.shownChunks tenantId moment known ∧ c.tenantId = tenantId ∧
      c.content = content ∧ c.ordinal = 0 ∧
      c.docId ∉ (s.shown tenantId moment known).map Document.id := by
  obtain ⟨documentId, hdocument⟩ :=
    Infinite.exists_notMem_finset (s.documents.rows.map Document.id).toFinset
  obtain ⟨chunkId, hchunk⟩ := Infinite.exists_notMem_finset (s.chunks.rows.map Chunk.id).toFinset
  rw [mem_toFinset] at hdocument hchunk
  have hnotShown : documentId ∉ (s.shown tenantId moment known).map Document.id := fun h =>
    hdocument ((filter_sublist.map _).subset h)
  let d : Document := ⟨documentId, tenantId, "", "", content, "", moment, moment, none, "", 0,
    moment + 1, moment, none, none⟩
  let c : Chunk := ⟨chunkId, documentId, tenantId, 0, "", content, moment + 1, ""⟩
  have hfree : s.documents.find? d.id = none := Table.find?_eq_none_iff.mpr hdocument
  have hhidden : d.Hidden tenantId moment known := .inr (.inl (lt_add_one moment))
  have hnodup : ((c :: s.shownChunks tenantId moment known).map Chunk.id).Nodup :=
    nodup_cons.mpr ⟨fun h => hchunk ((filter_sublist.map _).subset h),
      s.chunks.nodup.sublist (filter_sublist.map _)⟩
  let s' : Store := { s with
    documents := s.documents.insertOnce d
    chunks := ⟨c :: s.shownChunks tenantId moment known, hnodup⟩ }
  have hdocuments : s'.shown tenantId moment known = s.shown tenantId moment known := by
    show (s.documents.insertOnce d).rows.filter _ = _
    rw [Table.rows_insertOnce hfree, filter_append,
      filter_cons_of_neg (by simpa using hhidden), filter_nil, append_nil]
    rfl
  refine ⟨s', c, ⟨hdocuments, ?_⟩, rfl, rfl, rfl, rfl, hnotShown⟩
  show (c :: s.shownChunks tenantId moment known).filter (fun c => c.docId ∈
    (s'.shown tenantId moment known).map Document.id) = _
  rw [hdocuments, filter_cons_of_neg (by simpa using hnotShown), Store.shownChunks,
    filter_filter]
  simp only [Bool.and_self]

/-- **A hit in front** takes away from what is given for every other hit. -/
theorem bonus_cons_lt {c : Chunk} (htenant : c.tenantId = tenantId)
    (hterm : HasTerm terms c.content) (hordinal : c.ordinal = 0) (hid : c.docId ≠ id)
    (hhit : id ∈ (chunkHits tenantId terms chunks).map Chunk.docId) :
    bonus (chunkHits tenantId terms (c :: chunks)) id <
      bonus (chunkHits tenantId terms chunks) id := by
  unfold chunkHits List.top at hhit ⊢
  rw [bonus_take, bonus_take, filter_cons_of_pos (by simpa using ⟨htenant, hterm⟩),
    orderBy_cons_of_forall_le _ fun b _ => hordinal ▸ b.ordinal.zero_le, List.positions,
    if_neg hid, zero_add]
  exact positions_succ_lt antitone_weight (fun j hj => weight_succ_lt hj) hhit

/-- **Where no hidden document matters**, every ranked document with a hit is outranked. -/
theorem outranked_of_found (h : ∀ s', SameShown q.tenantId moment known s s' →
      s'.found lower wordChar rank fts q moment known =
        s.found lower wordChar rank fts q moment known) :
    Outranked lower wordChar rank fts s q moment known := by
  intro item hitem hhit
  by_contra hlength
  obtain ⟨hit, hmem, hdocId⟩ := mem_map.mp hhit
  have hterm : HasTerm (termsOf (wordsOf lower wordChar q.query)) hit.content := by
    have hchunk := of_mem_filter (mem_orderBy.mp ((take_sublist _ _).subset hmem))
    exact (of_decide_eq_true hchunk).2
  obtain ⟨s', c, hsame, hrows, htenant, hcontent, hordinal, hnot⟩ :=
    exists_hidden s q.tenantId moment known hit.content
  have hranks : Ranks (s.visible q.tenantId moment known)
      (s.rankedFor lower wordChar rank fts q moment known) := ranks_rankedFor s q moment known
  have hranked : s'.rankedFor lower wordChar rank fts q moment known =
      s.rankedFor lower wordChar rank fts q moment known := by
    unfold Store.rankedFor
    rw [hsame.visible]
  -- the document is among the results where no hidden document has chunks
  have hresult : item.1.raise (s.shownHits lower wordChar q moment known) ∈
      (s.withoutHidden q.tenantId moment known).found lower wordChar rank fts q moment known := by
    rw [found_eq]
    exact mem_map_of_mem ((mem_top_iff (nodup_orderWith _ _)).mpr ⟨hitem, not_le.mp hlength⟩)
  rw [h _ (sameShown_withoutHidden s q.tenantId moment known), ← h s' hsame, found_eq, hranked,
    hrows] at hresult
  -- it is there with another score when a hidden document comes first
  obtain ⟨item', hitem', heq⟩ := mem_map.mp hresult
  have hsub := (take_sublist q.limit _).subset hitem'
  have hmem' := fst_mem_of_mem_zipIdx (mem_orderBy.mp hsub)
  have hraised := congrArg Scored.id heq
  have hid : item'.1.id = item.1.id := hraised
  have hitems : item'.1 = item.1 :=
    inj_on_of_nodup_map hranks.nodup hmem' (fst_mem_of_mem_zipIdx hitem) hid
  have hscore := congrArg Scored.score heq
  rw [hitems] at hscore
  have hdocument := mem_shown_of_visible (hranks.mem item.1 (fst_mem_of_mem_zipIdx hitem))
  have hne : c.docId ≠ item.1.id := fun hc => hnot (hc ▸ mem_map_of_mem hdocument)
  have hshown : item.1.id ∈ (chunkHits q.tenantId (termsOf (wordsOf lower wordChar q.query))
      (s.shownChunks q.tenantId moment known)).map Chunk.docId := hhit
  have hlt := bonus_cons_lt htenant (hcontent ▸ hterm) hordinal hne hshown
  exact absurd (add_left_cancel hscore) hlt.ne

end

/-- A document about bitcoin, available from a time on. -/
def sampleIngest (id : String) (availableAt : Option Stamp) (now : ℚ) : Call :=
  .ingest "alpha" id (some "btc") (.ok "") ⟨"note", none, none, availableAt, none, none⟩ id now

/-- The scores of what is found about bitcoin at time 5. -/
def sampleScores (calls : List Call) : Except Exc (List (String × ℚ)) :=
  ((after (fun _ => none) id "root" calls).search (fun _ => none) id Char.isAlpha
    (fun _ _ => none) false ⟨"alpha", "btc", some (.number 5), none, 5⟩ 5).map
      fun items => items.map fun item => (item.id, item.score)

end Qt.Context
