import Mathlib.Data.List.TakeWhile
import QuantTrading.ContextSearch
import QuantTrading.Lib.JsonPlain
import QuantTrading.Lib.Loops

/-!
# Assembling a context

`assemble` of `qt.agent_hub.context`: documents that a search found and memories are put into a
bundle whose JSON text must fit a budget. A reference that does not fit is left out with its
document, a text is halved until it fits, a memory that does not fit is left out, and at the end
the query is halved. What was cut or left out is flagged, with one exception. Whether a text was
cut is told from `length(d.content)`, which ends at a NUL as the text of `substr` does: so what
follows a NUL is lost without a flag (`assemble_iff`).

The texts of numbers with a fraction, and of a value that was read from its JSON text, are
parameters.
-/

namespace Qt.Context

open Except Json List

/-! ## Bundles -/

/-- A text of a bundle. -/
structure Knowledge where
  id : String
  content : String
deriving DecidableEq

structure Citation where
  id : String
  source : String
  referencePath : String
  sha256 : String
  revision : ℕ
  availableAt : ℚ
  observedAt : ℚ
deriving DecidableEq

/-- A memory of a bundle. The value is the JSON text that was stored. -/
structure Recollection where
  key : String
  value : String
  scope : String
  source : Option String
  revision : ℕ
  sha256 : String
deriving DecidableEq

structure Bundle where
  query : String
  knowledge : List Knowledge
  memories : List Recollection
  references : List Citation
  truncated : Bool
deriving DecidableEq

/-- The reference to a document. -/
def Scored.citation (item : Scored) : Citation :=
  ⟨item.id, item.document.source, item.document.referencePath, item.document.sha256,
    item.document.revision, item.document.availableAt, item.document.observedAt⟩

/-- `length(d.content) AS content_chars`. -/
def Scored.contentChars (item : Scored) : ℕ := (sqlText item.document.content).length

/-- The text of a document. -/
def Scored.knowledge (item : Scored) : Knowledge := ⟨item.id, item.content⟩

/-- What is told of a memory. -/
def Memory.recollection (m : Memory) : Recollection :=
  ⟨m.key, m.value, m.scope, m.source, m.revision, m.sha256⟩

namespace Bundle

variable (b : Bundle)

/-- A reference is added. -/
def cite (item : Scored) : Bundle :=
  { b with references := b.references ++ [item.citation] }

/-- A text is added. -/
def quote (id : String) (text : List Char) : Bundle :=
  { b with knowledge := b.knowledge ++ [⟨id, String.ofList text⟩] }

/-- A text is added, unless it is empty. -/
def quoteSome (id : String) (text : List Char) : Bundle :=
  if text = [] then b else b.quote id text

/-- A memory is added. -/
def recollect (m : Memory) : Bundle :=
  { b with memories := b.memories ++ [m.recollection] }

/-- `result["truncated"] = True`, if something was cut. -/
def flag (c : Prop) [Decidable c] : Bundle :=
  { b with truncated := b.truncated || c }

end Bundle

/-! ## The text of a bundle -/

section

variable (float : ℚ → String) (recode : String → String)

/-- The JSON text of a text. -/
def Knowledge.text (k : Knowledge) : List Char :=
  object [("id", quotePlain k.id), ("content", quotePlain k.content)]

/-- The JSON text of a reference. -/
def Citation.text (c : Citation) : List Char :=
  object [("id", quotePlain c.id), ("source", quotePlain c.source),
    ("reference_path", quotePlain c.referencePath), ("sha256", quotePlain c.sha256),
    ("revision", (toString c.revision).toList), ("available_at", (float c.availableAt).toList),
    ("observed_at", (float c.observedAt).toList)]

/-- The JSON text of a memory. -/
def Recollection.text (m : Recollection) : List Char :=
  object [("key", quotePlain m.key), ("value", (recode m.value).toList),
    ("scope", quotePlain m.scope), ("source", (m.source.map quotePlain).getD "null".toList),
    ("revision", (toString m.revision).toList), ("sha256", quotePlain m.sha256),
    ("trust", quotePlain "unverified_memory")]

namespace Bundle

/-- `json.dumps(result, ensure_ascii=False)`. -/
def text (b : Bundle) : List Char :=
  object [("query", quotePlain b.query), ("knowledge", array (b.knowledge.map Knowledge.text)),
    ("memories", array (b.memories.map (Recollection.text recode))),
    ("references", array (b.references.map (Citation.text float))),
    ("truncated", (if b.truncated then "true" else "false").toList)]

def size (b : Bundle) : ℕ := (b.text float recode).length

/-! ## Filling a bundle -/

variable (budget : ℕ)

/-- The text of a document is halved until the bundle fits. -/
def fitted (cited : Bundle) (item : Scored) : List Char :=
  let available := budget - (cited.quote item.id []).size float recode - 8
  let text := item.content.toList.take available
  Loops.whileDo (fun t => budget < (cited.quote item.id t).size float recode ∧ t ≠ [])
    (fun t => t.take (t.length / 2)) (text.length + 1) text

/-- **A document is added**: its reference, and as much of its text as fits. -/
def addDocument (b : Bundle) (item : Scored) : Bundle :=
  let cited := b.cite item
  if budget < cited.size float recode then b.flag True
  else
    let content := cited.fitted float recode budget item
    (cited.quoteSome item.id content).flag (content.length < item.contentChars)

/-- **A memory is added**, if it fits. -/
def addMemory (b : Bundle) (m : Memory) : Bundle :=
  if budget < (b.recollect m).size float recode then b.flag True else b.recollect m

/-- Half of the query is left. -/
def halveQuery (b : Bundle) : Bundle :=
  { b with
    query := String.ofList (b.query.toList.take (b.query.length / 2))
    truncated := true }

/-- The query is halved until the bundle fits. -/
def fitQuery (b : Bundle) : Bundle :=
  Loops.whileDo (fun b : Bundle => budget < b.size float recode ∧ b.query ≠ "") halveQuery
    (b.query.length + 1) b

end Bundle

end

/-! ## Assembling -/

/-- The arguments of `assemble`. -/
structure BundleRequest where
  tenantId : String
  query : String
  budgetChars : ℕ
  asOf : Option Stamp
  knownAt : Option Stamp
  runId : Option String

/-- The search of `assemble`. -/
def BundleRequest.search (q : BundleRequest) : Request :=
  ⟨q.tenantId, q.query, q.asOf, q.knownAt, 5⟩

/-- A memory of a run: it is kept for long, or the run wrote it. -/
def Memory.OfRun (runId : String) (m : Memory) : Prop :=
  m.scope = "long" ∨ ("run:" ++ runId).toList <+: (m.source.getD "").toList ∨
    ("job:" ++ runId).toList <+: (m.source.getD "").toList
deriving Decidable

/-- The memories that pass the run filter. -/
def ofRun (runId : Option String) (memories : List Memory) : List Memory :=
  match runId.filter (· ≠ "") with
  | some runId => memories.filter fun m => m.OfRun runId
  | none => memories

/-- The bundle before anything is added. -/
def Bundle.start (query : String) : Bundle :=
  ⟨String.ofList (query.toList.take 256), [], [], [], false⟩

section

variable (float : ℚ → String) (recode : String → String)

/-- The bundle of what was found. -/
def Bundle.fill (budget : ℕ) (query : String) (documents : List Scored) (memories : List Memory) :
    Bundle :=
  (memories.foldl (Bundle.addMemory float recode budget)
    (documents.foldl (Bundle.addDocument float recode budget) (.start query))).fitQuery
      float recode budget

variable (iso : String → Option ℚ) (sha : String → String) (lower : String → String)
  (wordChar : Char → Bool) (rank : List (List Char) → String → Option ℚ) (fts : Bool)

/-- **`assemble`.** The clock is read by the search, and again for the memories. -/
def Store.assemble (s : Store) (q : BundleRequest) (now now' : ℚ) : Except Exc Bundle := do
  raiseIf (q.budgetChars < 256 ∨ 65536 < q.budgetChars)
    (.valueError "context budget must be between 256 and 65536 characters")
  let documents ← s.search iso lower wordChar rank fts q.search now
  let memories ← s.recall iso sha q.tenantId none q.asOf q.knownAt now'
  return .fill float recode q.budgetChars q.query documents (ofRun q.runId memories)

end

/-! ## What a bundle must be -/

/-- **Everything is in the bundle**: each text in full, each reference and each memory. -/
structure Bundle.Complete (b : Bundle) (documents : List Scored) (memories : List Memory) :
    Prop where
  knowledge : List.Forall₂ (fun (k : Knowledge) (item : Scored) =>
    k.id = item.id ∧ item.document.content.length ≤ k.content.length) b.knowledge documents
  references : b.references = documents.map Scored.citation
  memories : b.memories = memories.map Memory.recollection

/-- **What is in the bundle** is in the order in which it was retrieved, and each text is the
beginning of the one that was found. -/
structure Bundle.Ordered (documents : List Scored) (memories : List Memory) (b : Bundle) :
    Prop where
  knowledge : ∃ kept : List Scored, kept.Sublist documents ∧
    List.Forall₂ (fun (k : Knowledge) (item : Scored) =>
      k.id = item.id ∧ k.content ≠ "" ∧ k.content.toList <+: item.content.toList) b.knowledge kept
  references : ∃ kept : List Scored, kept.Sublist documents ∧
    b.references = kept.map Scored.citation
  memories : ∃ kept : List Memory, kept.Sublist memories ∧ b.memories = kept.map Memory.recollection

/-- **A bundle is well assembled** from what was retrieved: it fits the budget, it is in order,
and what was cut or left out is flagged. -/
structure Bundle.Assembled (float : ℚ → String) (recode : String → String) (budget : ℕ)
    (documents : List Scored) (memories : List Memory) (b : Bundle) : Prop where
  size_le : b.size float recode ≤ budget
  ordered : b.Ordered documents memories
  flagged : ¬ b.Complete documents memories → b.truncated = true

/-- The bundle of everything that was retrieved. -/
def Bundle.whole (query : String) (documents : List Scored) (memories : List Memory) : Bundle where
  query := String.ofList (query.toList.take 256)
  knowledge := (documents.filter fun item => item.content ≠ "").map Scored.knowledge
  memories := memories.map Memory.recollection
  references := documents.map Scored.citation
  truncated := false

/-- **What was retrieved fits**: the text of each document was found up to its end (or up to its
first NUL), everything together is within the budget, and when a text is added eight characters
are left for what its escapes may need. -/
structure Fits (float : ℚ → String) (recode : String → String) (budget : ℕ) (query : String)
    (documents : List Scored) (memories : List Memory) : Prop where
  found : ∀ item ∈ documents, item.contentChars ≤ item.content.length
  size_le : (Bundle.whole query documents memories).size float recode ≤ budget
  room : ∀ before item, before ++ [item] <+: documents → item.content ≠ "" →
    (((Bundle.whole query before []).cite item).quote item.id []).size float recode + 8 +
      item.content.length ≤ budget

namespace Bundle

section

variable {float : ℚ → String} {recode : String → String} {budget : ℕ} {b b' : Bundle}
  {item : Scored}

/-! ## Sizes -/

/-- **The size of a bundle** is the sum of what its parts take. -/
theorem size_eq (b : Bundle) : b.size float recode = 71 + (quotePlain b.query).length +
    (array (b.knowledge.map Knowledge.text)).length +
    (array (b.memories.map (Recollection.text recode))).length +
    (array (b.references.map (Citation.text float))).length +
    if b.truncated then 4 else 5 := by
  have hbool : (if b.truncated then "true" else "false").toList.length =
      if b.truncated then 4 else 5 := by
    split_ifs <;> rfl
  have hkeys : (quotePlain "query").length = 7 ∧ (quotePlain "knowledge").length = 11 ∧
      (quotePlain "memories").length = 10 ∧ (quotePlain "references").length = 12 ∧
      (quotePlain "truncated").length = 11 := by decide
  obtain ⟨hquery, hknowledge, hmemories, hreferences, htruncated⟩ := hkeys
  unfold size text object
  simp only [map_cons, map_nil, commas, field, length_cons, length_append,
    length_nil, hbool, hquery, hknowledge, hmemories, hreferences, htruncated]
  omega

theorem size_flag_le (b : Bundle) (c : Prop) [Decidable c] :
    (b.flag c).size float recode ≤ b.size float recode := by
  have hle : ∀ t t' : Bool, (if (t || t') = true then 4 else 5) ≤ if t = true then 4 else 5 := by
    decide
  rw [size_eq, size_eq]
  exact Nat.add_le_add_left (hle b.truncated (decide c)) _

/-- **What is added** does not make a bundle smaller. -/
theorem size_le_of_sublist (hquery : b.query = b'.query)
    (hknowledge : b.knowledge.Sublist b'.knowledge) (hmemories : b.memories.Sublist b'.memories)
    (hreferences : b.references.Sublist b'.references) (htruncated : b.truncated = b'.truncated) :
    b.size float recode ≤ b'.size float recode := by
  have h₁ := length_array_le (hknowledge.map Knowledge.text)
  have h₂ := length_array_le (hmemories.map (Recollection.text recode))
  have h₃ := length_array_le (hreferences.map (Citation.text float))
  rw [size_eq, size_eq, hquery, htruncated]
  omega

/-- Without its query, a bundle with nothing in it fits every budget. -/
theorem size_empty_le (h : b.knowledge = [] ∧ b.memories = [] ∧ b.references = [])
    (hquery : b.query = "") : b.size float recode ≤ 256 := by
  obtain ⟨hknowledge, hmemories, hreferences⟩ := h
  rw [size_eq, hquery, hknowledge, hmemories, hreferences]
  show 71 + 2 + 2 + 2 + 2 + _ ≤ 256
  split_ifs <;> omega

/-! ## One document more -/

variable (float recode) in
theorem fitted_isPrefix (budget : ℕ) (cited : Bundle) (item : Scored) :
    cited.fitted float recode budget item <+: item.content.toList.take
      (budget - (cited.quote item.id []).size float recode - 8) := by
  unfold fitted
  exact Loops.inv_whileDo (fun t => t <+: item.content.toList.take _)
    (fun t _ ht => ( take_prefix _ t).trans ht) (prefix_refl _) _

/-- **It fits**, unless nothing is left of it. -/
theorem size_fitted (budget : ℕ) (cited : Bundle) (item : Scored)
    (h : cited.fitted float recode budget item ≠ []) :
    (cited.quote item.id (cited.fitted float recode budget item)).size float recode ≤ budget := by
  have hhalf : ∀ t : List Char, budget < (cited.quote item.id t).size float recode ∧ t ≠ [] →
        (t.take (t.length / 2)).length < t.length := by
    intro t ht
    have hpos : 0 < t.length := length_pos_iff.mpr ht.2
    rw [length_take]
    omega
  have hexit := Loops.not_whileDo List.length hhalf (Nat.lt_succ_self (item.content.toList.take
    (budget - (cited.quote item.id []).size float recode - 8)).length)
  exact not_lt.mp fun hlt => hexit ⟨hlt, h⟩

theorem fitted_of_size {cited : Bundle}
    (h : (cited.quote item.id item.content.toList).size float recode ≤ budget)
    (hroom : (cited.quote item.id []).size float recode + 8 + item.content.length ≤ budget) :
    cited.fitted float recode budget item = item.content.toList := by
  have htake : item.content.toList.take
      (budget - (cited.quote item.id []).size float recode - 8) = item.content.toList := by
    refine take_of_length_le ?_
    rw [String.length_toList]
    omega
  unfold fitted
  simp only [htake]
  exact Loops.whileDo_of_not (fun hbig => absurd hbig.1 (not_lt.mpr h)) _

/-- **What a document adds to a bundle.** -/
inductive Added (float : ℚ → String) (recode : String → String) (budget : ℕ) (b : Bundle)
    (item : Scored) : Bundle → Prop
  | left : Added float recode budget b item (b.flag True)
  | cited (c : Prop) [Decidable c] (hsize : (b.cite item).size float recode ≤ budget) :
      Added float recode budget b item ((b.cite item).flag c)
  | quoted (c : Prop) [Decidable c] (text : List Char) (hne : text ≠ [])
      (hbegin : text <+: item.content.toList)
      (hsize : ((b.cite item).quote item.id text).size float recode ≤ budget) :
      Added float recode budget b item (((b.cite item).quote item.id text).flag c)

theorem added_addDocument (budget : ℕ) (b : Bundle) (item : Scored) :
    Added float recode budget b item (b.addDocument float recode budget item) := by
  unfold addDocument
  simp only
  split_ifs with hcited
  · exact .left
  · by_cases hnil : (b.cite item).fitted float recode budget item = []
    · rw [hnil]
      exact .cited _ (not_lt.mp hcited)
    · rw [quoteSome, if_neg hnil]
      have hbegin := fitted_isPrefix float recode budget (b.cite item) item
      exact .quoted _ _ hnil (hbegin.trans ( take_prefix _ _)) (size_fitted budget _ item hnil)

/-! ## What holds of every bundle -/

/-- The bundle fits, or nothing is in it. -/
def Within (float : ℚ → String) (recode : String → String) (budget : ℕ) (b : Bundle) : Prop :=
  b.size float recode ≤ budget ∨ b.knowledge = [] ∧ b.memories = [] ∧ b.references = []

/-- **The invariant** of what has been added. -/
structure Built (float : ℚ → String) (recode : String → String) (budget : ℕ)
    (documents : List Scored) (memories : List Memory) (b : Bundle) : Prop where
  within : b.Within float recode budget
  ordered : b.Ordered documents memories

theorem Within.flag (h : b.Within float recode budget) (c : Prop) [Decidable c] :
    (b.flag c).Within float recode budget :=
  h.imp_left (size_flag_le b c).trans

variable {documents : List Scored} {memories : List Memory}

/-- **One document more.** -/
theorem Added.built (h : Added float recode budget b item b')
    (hb : Built float recode budget documents memories b) :
    Built float recode budget (documents ++ [item]) memories b' := by
  have hold : documents.Sublist (documents ++ [item]) := sublist_append_left _ _
  obtain ⟨quoted, hquoted, hknowledge⟩ := hb.ordered.knowledge
  obtain ⟨cited, hcited, hreferences⟩ := hb.ordered.references
  have hquote : ∃ kept : List Scored, kept.Sublist (documents ++ [item]) ∧
      List.Forall₂ (fun (k : Knowledge) (item : Scored) => k.id = item.id ∧ k.content ≠ "" ∧
        k.content.toList <+: item.content.toList) b.knowledge kept :=
    ⟨quoted, hquoted.trans hold, hknowledge⟩
  have hcite : ∃ kept : List Scored, kept.Sublist (documents ++ [item]) ∧
      b.references ++ [item.citation] = kept.map Scored.citation :=
    ⟨cited ++ [item], hcited.append_right [item], by rw [hreferences, map_append]; rfl⟩
  cases h with
  | left =>
    exact ⟨hb.within.flag True,
      ⟨hquote, ⟨cited, hcited.trans hold, hreferences⟩, hb.ordered.memories⟩⟩
  | cited c hsize =>
    exact ⟨.inl ((size_flag_le _ c).trans hsize), ⟨hquote, hcite, hb.ordered.memories⟩⟩
  | quoted c text hne hbegin hsize =>
    refine ⟨.inl ((size_flag_le _ c).trans hsize),
      ⟨⟨quoted ++ [item], hquoted.append_right [item], ?_⟩, hcite, hb.ordered.memories⟩⟩
    refine rel_append hknowledge (.cons ⟨rfl, ?_, ?_⟩ .nil)
    · show String.ofList text ≠ ""
      intro hnil
      exact hne (by simpa using congrArg String.toList hnil)
    · show (String.ofList text).toList <+: item.content.toList
      rw [String.toList_ofList]
      exact hbegin

/-- **One memory more.** -/
theorem Built.addMemory (hb : Built float recode budget documents memories b) (m : Memory) :
    Built float recode budget documents (memories ++ [m]) (b.addMemory float recode budget m) := by
  have hold : memories.Sublist (memories ++ [m]) := sublist_append_left _ _
  obtain ⟨kept, hkept, hmemories⟩ := hb.ordered.memories
  unfold Bundle.addMemory
  split_ifs with hsize
  · exact ⟨hb.within.flag True, ⟨hb.ordered.knowledge, hb.ordered.references,
      ⟨kept, hkept.trans hold, hmemories⟩⟩⟩
  · refine ⟨.inl (not_lt.mp hsize), ⟨hb.ordered.knowledge, hb.ordered.references,
      ⟨kept ++ [m], hkept.append_right [m], ?_⟩⟩⟩
    show b.memories ++ [m.recollection] = _
    rw [hmemories, map_append]
    rfl

variable (float recode) in
theorem built_foldl (budget : ℕ) (query : String) (documents : List Scored)
    (memories : List Memory) : Built float recode budget documents memories
      (memories.foldl (addMemory float recode budget)
        (documents.foldl (addDocument float recode budget) (.start query))) := by
  have hdocuments : Built float recode budget documents []
      (documents.foldl (addDocument float recode budget) (.start query)) := by
    induction documents using List.reverseRecOn with
    | nil =>
      exact ⟨.inr ⟨rfl, rfl, rfl⟩, ⟨⟨[], .slnil, .nil⟩, ⟨[], .slnil, rfl⟩, ⟨[], .slnil, rfl⟩⟩⟩
    | append_singleton documents item ih =>
      rw [foldl_concat]
      exact (added_addDocument budget _ item).built ih
  induction memories using List.reverseRecOn with
  | nil => exact hdocuments
  | append_singleton memories m ih =>
    rw [foldl_concat]
    exact ih.addMemory m

/-! ## The query -/

theorem inv_fitQuery (I : Bundle → Prop)
    (hstep : ∀ b : Bundle, budget < b.size float recode → I b → I b.halveQuery) (h : I b) :
    I (b.fitQuery float recode budget) := by
  unfold fitQuery
  exact Loops.inv_whileDo I (fun b hb => hstep b hb.1) h _

theorem exit_fitQuery (budget : ℕ) (b : Bundle) :
    ¬ (budget < (b.fitQuery float recode budget).size float recode ∧
      (b.fitQuery float recode budget).query ≠ "") := by
  have hhalf : ∀ b : Bundle, budget < b.size float recode ∧ b.query ≠ "" →
      b.halveQuery.query.length < b.query.length := by
    intro b hb
    have hpos : 0 < b.query.length :=
      Nat.pos_of_ne_zero fun h => hb.2 (String.length_eq_zero_iff.mp h)
    unfold halveQuery
    rw [String.length_ofList, length_take, String.length_toList]
    omega
  unfold fitQuery
  exact Loops.not_whileDo (fun b : Bundle => b.query.length) hhalf (Nat.lt_succ_self b.query.length)

theorem Within.halveQuery (h : b.Within float recode budget)
    (hbig : budget < b.size float recode) : b.halveQuery.Within float recode budget :=
  .inr (h.resolve_left (not_le.mpr hbig))

theorem Built.fitQuery (hb : Built float recode budget documents memories b) :
    Built float recode budget documents memories (b.fitQuery float recode budget) :=
  inv_fitQuery _ (fun _ hbig h => ⟨h.within.halveQuery hbig,
    ⟨h.ordered.knowledge, h.ordered.references, h.ordered.memories⟩⟩) hb

/-- **The bundle fits in the end.** -/
theorem size_fitQuery (hbudget : 256 ≤ budget) (h : b.Within float recode budget) :
    (b.fitQuery float recode budget).size float recode ≤ budget := by
  have hwithin : (b.fitQuery float recode budget).Within float recode budget :=
    inv_fitQuery _ (fun _ hbig h => h.halveQuery hbig) h
  rcases hwithin with hsize | hempty
  · exact hsize
  · by_contra hbig
    refine exit_fitQuery budget b ⟨not_le.mp hbig, fun hquery => hbig ?_⟩
    exact (size_empty_le hempty hquery).trans hbudget

/-- **The query is cut** only with a flag. -/
theorem truncated_fitQuery (hbudget : 256 ≤ budget) (h : b.Within float recode budget) :
    (b.fitQuery float recode budget).truncated = false ↔
      b.truncated = false ∧ b.size float recode ≤ budget := by
  by_cases hbig : budget < b.size float recode
  · have hquery : b.query ≠ "" := fun hquery =>
      absurd ((size_empty_le (h.resolve_left (not_le.mpr hbig)) hquery).trans hbudget)
        (not_le.mpr hbig)
    have hround : (b.fitQuery float recode budget).truncated = true := by
      unfold fitQuery Loops.whileDo
      rw [if_pos ⟨hbig, hquery⟩]
      exact Loops.inv_whileDo (fun b : Bundle => b.truncated = true) (fun _ _ _ => rfl) rfl _
    simp [hround, not_le.mpr hbig]
  · unfold fitQuery
    rw [Loops.whileDo_of_not fun hround => hbig hround.1]
    exact (and_iff_left (not_lt.mp hbig)).symm

/-! ## What is flagged -/

/-- A document is taken as it is. -/
def takeDocument (b : Bundle) (item : Scored) : Bundle :=
  (b.cite item).quoteSome item.id item.content.toList

/-- **A document can be taken as it is.** -/
structure Takes (float : ℚ → String) (recode : String → String) (budget : ℕ) (b : Bundle)
    (item : Scored) : Prop where
  cited : (b.cite item).size float recode ≤ budget
  found : item.contentChars ≤ item.content.length
  quoted : item.content ≠ "" →
    ((b.cite item).quote item.id item.content.toList).size float recode ≤ budget
  room : item.content ≠ "" →
    ((b.cite item).quote item.id []).size float recode + 8 + item.content.length ≤ budget

/-- The text of a document that can be taken is not cut. -/
theorem Takes.fitted (h : Takes float recode budget b item) :
    (b.cite item).fitted float recode budget item = item.content.toList := by
  by_cases hnil : item.content = ""
  · have hbegin := fitted_isPrefix float recode budget (b.cite item) item
    rw [hnil] at hbegin ⊢
    exact prefix_nil.mp (hbegin.trans ( take_prefix _ _))
  · exact fitted_of_size (h.quoted hnil) (h.room hnil)

theorem Takes.addDocument (h : Takes float recode budget b item) :
    b.addDocument float recode budget item = b.takeDocument item := by
  have hflag : ¬ item.content.toList.length < item.contentChars :=
    not_lt.mpr (String.length_toList ▸ h.found)
  unfold Bundle.addDocument takeDocument
  simp only [if_neg (not_lt.mpr h.cited), h.fitted, flag, hflag, decide_false, Bool.or_false]

theorem truncated_quoteSome (b : Bundle) (id : String) (text : List Char) :
    (b.quoteSome id text).truncated = b.truncated := by
  unfold quoteSome
  split_ifs <;> rfl

/-- **What is not flagged was taken.** -/
theorem truncated_addDocument (hle : item.content.length ≤ item.contentChars) :
    (b.addDocument float recode budget item).truncated = false ↔
      b.truncated = false ∧ Takes float recode budget b item := by
  constructor
  · intro h
    unfold Bundle.addDocument at h
    simp only at h
    split_ifs at h with hcited
    · simp [flag] at h
    obtain ⟨htruncated, hlength⟩ := Bool.or_eq_false_iff.mp h
    rw [truncated_quoteSome] at htruncated
    have hbegin := fitted_isPrefix float recode budget (b.cite item) item
    have hwhole := hbegin.trans ( take_prefix _ _)
    have hfound : item.contentChars ≤
        ((b.cite item).fitted float recode budget item).length := by simpa using hlength
    have heq : (b.cite item).fitted float recode budget item = item.content.toList :=
      hwhole.eq_of_length_le (String.length_toList ▸ hle.trans hfound)
    have hnil : item.content ≠ "" → (b.cite item).fitted float recode budget item ≠ [] :=
      fun hne hnil => hne (String.toList_eq_nil_iff.mp (heq ▸ hnil))
    refine ⟨htruncated, not_lt.mp hcited, ?_, fun hne => ?_, fun hne => ?_⟩
    · rw [heq, String.length_toList] at hfound
      exact hfound
    · exact heq ▸ size_fitted budget _ item (hnil hne)
    · have hlen := hbegin.length_le
      have hpos := length_pos_iff.mpr (hnil hne)
      rw [heq, String.length_toList] at hlen hpos
      rw [length_take] at hlen
      omega
  · rintro ⟨htruncated, htakes⟩
    rw [htakes.addDocument, takeDocument, truncated_quoteSome]
    exact htruncated

theorem truncated_addMemory (b : Bundle) (m : Memory) :
    (b.addMemory float recode budget m).truncated = false ↔
      b.truncated = false ∧ (b.recollect m).size float recode ≤ budget := by
  unfold Bundle.addMemory
  split_ifs with hsize
  · simp [flag, not_le.mpr hsize]
  · exact (and_iff_left (not_lt.mp hsize)).symm

/-! ## The bundle of everything -/

variable (query : String)

theorem takeDocument_whole (before : List Scored) (item : Scored) :
    (whole query before []).takeDocument item = whole query (before ++ [item]) [] := by
  unfold takeDocument quoteSome whole
  rw [filter_append, map_append, map_append]
  by_cases hnil : item.content = ""
  · rw [if_pos (String.toList_eq_nil_iff.mpr hnil), filter_cons_of_neg (by simpa using hnil)]
    simp [cite]
  · rw [if_neg (mt String.toList_eq_nil_iff.mp hnil), filter_cons_of_pos (by simpa using hnil)]
    simp [cite, quote, Scored.knowledge]

variable (documents)

theorem recollect_whole (before : List Memory) (m : Memory) :
    (whole query documents before).recollect m = whole query documents (before ++ [m]) := by
  unfold recollect whole
  rw [map_append]
  rfl

theorem foldl_takeDocument :
    documents.foldl takeDocument (.start query) = whole query documents [] := by
  induction documents using List.reverseRecOn with
  | nil => rfl
  | append_singleton documents item ih => rw [foldl_concat, ih, takeDocument_whole]

theorem foldl_recollect (memories : List Memory) :
    memories.foldl recollect (whole query documents []) = whole query documents memories := by
  induction memories using List.reverseRecOn with
  | nil => rfl
  | append_singleton memories m ih => rw [foldl_concat, ih, recollect_whole]

variable {before : List Scored} {documents}

theorem size_whole_le {earlier : List Memory} (hbefore : before.Sublist documents)
    (hearlier : earlier.Sublist memories) : (whole query before earlier).size float recode ≤
      (whole query documents memories).size float recode :=
  size_le_of_sublist rfl ((hbefore.filter _).map _) (hearlier.map _) (hbefore.map _) rfl

/-- A bundle with a text is not smaller than without it. -/
theorem size_cite_le (b : Bundle) (item : Scored) :
    (b.cite item).size float recode ≤ (b.takeDocument item).size float recode := by
  unfold takeDocument quoteSome
  split_ifs
  · exact le_rfl
  · exact size_le_of_sublist rfl (sublist_append_left _ _) (.refl _) (.refl _) rfl

variable {query}

/-- **Where everything fits**, each document can be taken. -/
theorem takes_of_fits (h : Fits float recode budget query documents memories) {item : Scored}
    (hbefore : before ++ [item] <+: documents) :
    Takes float recode budget (whole query before []) item := by
  have htake : ((whole query before []).takeDocument item).size float recode ≤ budget := by
    rw [takeDocument_whole]
    exact (size_whole_le query hbefore.sublist (nil_sublist memories)).trans h.size_le
  refine ⟨(size_cite_le _ item).trans htake, ?_, fun hne => ?_, h.room before item hbefore⟩
  · exact h.found item (hbefore.subset (mem_append_right before mem_cons_self))
  · rw [takeDocument, quoteSome, if_neg (mt String.toList_eq_nil_iff.mp hne)] at htake
    exact htake

variable (query)

/-- **No document is flagged** exactly if each can be taken. -/
theorem truncated_documents (hle : ∀ item ∈ documents, item.content.length ≤ item.contentChars) :
    (documents.foldl (addDocument float recode budget) (.start query)).truncated = false ↔
      ∀ before item, before ++ [item] <+: documents →
        Takes float recode budget (whole query before []) item := by
  rw [Loops.flag_foldl_iff truncated (P := Takes float recode budget) (g := takeDocument)
    (fun b item hitem => truncated_addDocument (hle item hitem)) (fun b item _ h => h.addDocument)]
  simp only [foldl_takeDocument]
  exact and_iff_right rfl

theorem documents_eq_whole (hle : ∀ item ∈ documents, item.content.length ≤ item.contentChars)
    (h : (documents.foldl (addDocument float recode budget) (.start query)).truncated = false) :
    documents.foldl (addDocument float recode budget) (.start query) =
      whole query documents [] := by
  rw [Loops.foldl_eq_of_flag truncated (P := Takes float recode budget) (g := takeDocument)
    (fun b item hitem => truncated_addDocument (hle item hitem)) (fun b item _ h => h.addDocument)
    h, foldl_takeDocument]

theorem addMemory_of_size (b : Bundle) (m : Memory)
    (h : (b.recollect m).size float recode ≤ budget) :
    b.addMemory float recode budget m = b.recollect m :=
  if_neg (not_lt.mpr h)

/-- **No memory is flagged** exactly if each fits. -/
theorem truncated_memories (memories : List Memory) (b : Bundle) :
    (memories.foldl (addMemory float recode budget) b).truncated = false ↔
      b.truncated = false ∧ ∀ before m, before ++ [m] <+: memories →
        ((before.foldl recollect b).recollect m).size float recode ≤ budget :=
  Loops.flag_foldl_iff truncated (fun b m _ => truncated_addMemory b m)
    (fun b m _ h => addMemory_of_size b m h) b

theorem memories_eq_whole (h : (memories.foldl (addMemory float recode budget)
      (whole query documents [])).truncated = false) :
    memories.foldl (addMemory float recode budget) (whole query documents []) =
      whole query documents memories := by
  rw [Loops.foldl_eq_of_flag truncated (fun b m _ => truncated_addMemory b m)
    (fun b m _ h => addMemory_of_size b m h) h, foldl_recollect]

variable {query}

section

variable (hbudget : 256 ≤ budget)
  (hle : ∀ item ∈ documents, item.content.length ≤ item.contentChars)
include hbudget hle

/-- **Where nothing is flagged** everything fits, and the bundle is that of everything. -/
theorem fits_of_truncated
    (h : (fill float recode budget query documents memories).truncated = false) :
    Fits float recode budget query documents memories ∧
      fill float recode budget query documents memories = whole query documents memories := by
  have hbuilt := built_foldl float recode budget query documents memories
  obtain ⟨hmemories, hsize⟩ := (truncated_fitQuery hbudget hbuilt.within).mp h
  have hdocuments := ((truncated_memories memories _).mp hmemories).1
  have htakes := (truncated_documents query hle).mp hdocuments
  have hwhole := documents_eq_whole query hle hdocuments
  rw [hwhole] at hmemories hsize
  rw [memories_eq_whole query hmemories] at hsize
  refine ⟨⟨fun item hitem => ?_, hsize,
    fun before item hbefore => (htakes before item hbefore).room⟩, ?_⟩
  · obtain ⟨before, after, rfl⟩ := append_of_mem hitem
    exact (htakes before item ⟨after, by rw [append_assoc]; rfl⟩).found
  · unfold fill fitQuery
    rw [hwhole, memories_eq_whole query hmemories]
    exact Loops.whileDo_of_not (fun hround => absurd hround.1 (not_lt.mpr hsize)) _

/-- **Where everything fits** nothing is flagged. -/
theorem truncated_of_fits (h : Fits float recode budget query documents memories) :
    (fill float recode budget query documents memories).truncated = false := by
  have hbuilt := built_foldl float recode budget query documents memories
  have hdocuments : (documents.foldl (addDocument float recode budget)
      (.start query)).truncated = false :=
    (truncated_documents query hle).mpr fun before item hbefore => takes_of_fits h hbefore
  have hwhole := documents_eq_whole query hle hdocuments
  have hmemories : (memories.foldl (addMemory float recode budget)
      (whole query documents [])).truncated = false := by
    refine (truncated_memories memories _).mpr ⟨rfl, fun before m hbefore => ?_⟩
    rw [foldl_recollect, recollect_whole]
    exact (size_whole_le query (.refl documents) hbefore.sublist).trans h.size_le
  refine (truncated_fitQuery hbudget hbuilt.within).mpr ?_
  rw [hwhole]
  exact ⟨hmemories, memories_eq_whole query hmemories ▸ h.size_le⟩

end

/-! ## What is missing without a flag -/

theorem length_le_contentChars_iff (item : Scored) :
    item.document.content.length ≤ item.contentChars ↔ '\x00' ∉ item.document.content.toList := by
  unfold Scored.contentChars sqlText
  rw [← String.length_toList]
  constructor
  · intro hle hmem
    have heq := ( takeWhile_prefix _).eq_of_length_le hle
    have hall := takeWhile_eq_self_iff.mp heq '\x00' hmem
    simp at hall
  · intro hnone
    have hall : ∀ c ∈ item.document.content.toList, decide (c ≠ '\x00') = true :=
      fun c hc => decide_eq_true fun heq => hnone (heq ▸ hc)
    rw [takeWhile_eq_self_iff.mpr hall]

variable (query memories) in
/-- **A bundle of everything is complete** exactly if no text has a NUL. -/
theorem complete_whole_iff (hle : ∀ item ∈ documents, item.content.length ≤ item.contentChars)
    (hpos : ∀ item ∈ documents, 0 < item.document.content.length)
    (hfound : ∀ item ∈ documents, item.contentChars ≤ item.content.length) :
    (whole query documents memories).Complete documents memories ↔
      ∀ item ∈ documents, '\x00' ∉ item.document.content.toList := by
  constructor
  · intro h item hitem
    have hlength : (documents.filter fun item => item.content ≠ "").length = documents.length :=
      (length_map _).symm.trans h.knowledge.length_eq
    have hfilter := filter_sublist.eq_of_length hlength
    have hknowledge := h.knowledge
    unfold whole at hknowledge
    rw [hfilter, forall₂_map_left_iff, forall₂_same] at hknowledge
    exact (length_le_contentChars_iff item).mp ((hknowledge item hitem).2.trans (hle item hitem))
  · intro hnone
    have hall : ∀ item ∈ documents, item.document.content.length ≤ item.content.length :=
      fun item hitem => ((length_le_contentChars_iff item).mpr (hnone item hitem)).trans
        (hfound item hitem)
    have hfilter : (documents.filter fun item => item.content ≠ "") = documents := by
      refine filter_eq_self.mpr fun item hitem => decide_eq_true fun hnil => ?_
      have hlength := (hpos item hitem).trans_le (hall item hitem)
      rw [hnil] at hlength
      exact absurd hlength (lt_irrefl 0)
    refine ⟨?_, rfl, rfl⟩
    unfold whole
    rw [hfilter, forall₂_map_left_iff, forall₂_same]
    exact fun item hitem => ⟨rfl, hall item hitem⟩

/-- **When a bundle is well assembled**: no text has a NUL, or something is flagged anyway. -/
theorem assembled_fill_iff (hbudget : 256 ≤ budget) (query : String)
    (hle : ∀ item ∈ documents, item.content.length ≤ item.contentChars)
    (hpos : ∀ item ∈ documents, 0 < item.document.content.length) :
    (fill float recode budget query documents memories).Assembled float recode budget documents
        memories ↔
      (∀ item ∈ documents, '\x00' ∉ item.document.content.toList) ∨
        ¬ Fits float recode budget query documents memories := by
  have hbuilt := built_foldl float recode budget query documents memories
  have hsize := size_fitQuery hbudget hbuilt.within
  by_cases hfits : Fits float recode budget query documents memories
  · have htruncated := truncated_of_fits hbudget hle hfits
    have hcomplete := complete_whole_iff memories query hle hpos hfits.found
    rw [← (fits_of_truncated hbudget hle htruncated).2] at hcomplete
    rw [← hcomplete]
    constructor
    · intro h
      by_contra hnot
      exact absurd (h.flagged (not_or.mp hnot).1) (by simp [htruncated])
    · intro h
      exact ⟨hsize, hbuilt.fitQuery.ordered,
        fun hnot => absurd (h.resolve_right (not_not.mpr hfits)) hnot⟩
  · refine iff_of_true ⟨hsize, hbuilt.fitQuery.ordered, fun _ => ?_⟩ (.inr hfits)
    by_contra htruncated
    exact hfits (fits_of_truncated hbudget hle (Bool.eq_false_iff.mpr htruncated)).1

end

end Bundle

/-! ## What is retrieved -/

section

variable {lower : String → String} {wordChar : Char → Bool}
  {rank : List (List Char) → String → Option ℚ} {fts : Bool}

/-- An excerpt is not longer than what SQLite reads of the content. -/
theorem length_excerpt_le (terms : List (List Char)) (content : String) :
    (excerpt terms content).length ≤ (sqlText content).length := by
  unfold excerpt
  rw [String.length_ofList]
  refine (length_take_le' _ _).trans ?_
  rw [length_drop]
  exact Nat.sub_le _ _

theorem excerpt_ranked (words terms : List (List Char)) (limit : ℕ) (visible : List Document) :
    ∀ item ∈ ranked lower rank fts words terms limit visible,
      item.content = excerpt terms item.document.content := by
  have hfullText : ∀ item ∈ fullText rank fts words terms limit visible,
      item.content = excerpt terms item.document.content := by
    intro item hitem
    unfold fullText at hitem
    split_ifs at hitem
    · obtain ⟨⟨r, d⟩, -, rfl⟩ := mem_map.mp hitem
      rfl
    · exact absurd hitem not_mem_nil
  unfold ranked
  generalize fullText rank fts words terms limit visible = items at hfullText
  induction withTerm terms limit visible generalizing items with
  | nil => exact hfullText
  | cons d docs ih =>
    refine ih _ fun item hitem => ?_
    simp only [addTerms] at hitem
    split_ifs at hitem with hscore hid
    · obtain ⟨item', hitem', rfl⟩ := mem_map.mp hitem
      split_ifs
      · rfl
      · exact hfullText item' hitem'
    · rcases mem_append.mp hitem with hitem | hitem
      · exact hfullText item hitem
      · rw [mem_singleton.mp hitem]
    · exact hfullText item hitem

/-- **What a search finds** are excerpts of documents of the store. -/
theorem excerpt_found {s : Store} {q : Request} {moment : ℚ} {known : Option ℚ} {item : Scored}
    (h : item ∈ s.found lower wordChar rank fts q moment known) :
    item.document ∈ s.documents.rows ∧ item.content.length ≤ item.contentChars := by
  rw [found_eq] at h
  obtain ⟨⟨item', i⟩, hitem', rfl⟩ := mem_map.mp h
  have hmem := fst_mem_of_mem_zipIdx (mem_orderBy.mp ((take_sublist q.limit _).subset hitem'))
  refine ⟨mem_rows_of_visible ((ranks_rankedFor s q moment known).mem item' hmem), ?_⟩
  have hcontent := excerpt_ranked _ _ _ _ item' hmem
  show item'.content.length ≤ (sqlText item'.document.content).length
  rw [hcontent]
  exact length_excerpt_le _ _

end

section

variable {iso : String → Option ℚ} {sha : String → String} {s : Store} {default t : Option ℚ}
  {value : Option Stamp}

/-- Whether a timestamp is valid does not depend on its default. -/
theorem timestamp_of_ok (h : timestamp iso value default = .ok t) (default' : Option ℚ) :
    ∃ t', timestamp iso value default' = .ok t' := by
  match value with
  | none => exact ⟨default', rfl⟩
  | some (.text _) => exact ⟨t, h⟩
  | some (.number _) => exact ⟨t, h⟩
  | some .other => exact ⟨t, h⟩

theorem timestampOr_of_ok (h : timestamp iso value default = .ok t) (default' : ℚ) :
    ∃ t', timestampOr iso value default' = .ok t' := by
  obtain ⟨t', ht'⟩ := timestamp_of_ok h (some default')
  exact ⟨t'.getD default', by rw [timestampOr, ht']; rfl⟩

/-- **Memories are recalled** where a search is accepted: what was let in has its digest. -/
theorem recall_of_check (hs : Admitted sha s) {q : Request} {now : ℚ} {cutoff : ℚ × Option ℚ}
    (hcheck : q.check iso now = .ok cutoff) (now' : ℚ) :
    ∃ memories, s.recall iso sha q.tenantId none q.asOf q.knownAt now' = .ok memories := by
  obtain ⟨tenantId, htenant, hcheck⟩ := of_bind hcheck
  obtain ⟨-, hcheck⟩ := of_raiseIf hcheck
  obtain ⟨moment, hmoment, hcheck⟩ := of_bind hcheck
  obtain ⟨known, hknown, -⟩ := of_bind hcheck
  obtain ⟨t, ht, -⟩ := of_bind hmoment
  obtain ⟨moment', hmoment'⟩ := timestampOr_of_ok ht now'
  obtain ⟨known', hknown'⟩ := timestampOr_of_ok hknown moment'
  refine ⟨(((s.recalled q.tenantId none moment' (min moment' known')).orderBy
    Memory.recency).take 200).map id, ?_⟩
  unfold Store.recall
  rw [htenant, ok_bind, hmoment', ok_bind, hknown', ok_bind]
  refine mapM_of_ok fun m hm => ?_
  have hrecalled := mem_orderBy.mp ((take_sublist _ _).subset hm)
  have hrow := (mem_current.mp (mem_of_mem_filter hrecalled)).1
  exact raiseIf_bind_of_not (not_not.mpr (hs.digest m hrow))

end

/-- **When contexts are well assembled.** For every run and every call that the checks accept, the
bundle fits its budget, it is in order and all that was cut or left out is flagged, exactly if no
document that was found has a NUL in its content, or not everything that was found fits. -/
theorem assemble_assembled_iff (float : ℚ → String) (recode : String → String)
    (iso : String → Option ℚ) (sha : String → String) (root : String) (lower : String → String)
    (wordChar : Char → Bool) (rank : List (List Char) → String → Option ℚ) (fts : Bool)
    (calls : List Call) (q : BundleRequest) (now now' : ℚ) (cutoff : ℚ × Option ℚ)
    (hbudget : 256 ≤ q.budgetChars ∧ q.budgetChars ≤ 65536)
    (hcheck : q.search.check iso now = .ok cutoff) : ∃ documents memories b,
      (after iso sha root calls).search iso lower wordChar rank fts q.search now = .ok documents ∧
      (after iso sha root calls).recall iso sha q.tenantId none q.asOf q.knownAt now' =
        .ok memories ∧
      (after iso sha root calls).assemble float recode iso sha lower wordChar rank fts q now now' =
        .ok b ∧
      (b.Assembled float recode q.budgetChars documents (ofRun q.runId memories) ↔
        (∀ item ∈ documents, '\x00' ∉ item.document.content.toList) ∨
          ¬ Fits float recode q.budgetChars q.query documents (ofRun q.runId memories)) := by
  have hadmitted := admitted_after iso sha root calls
  generalize after iso sha root calls = s at hadmitted
  obtain ⟨memories, hmemories⟩ := recall_of_check hadmitted hcheck now'
  have hsearch : s.search iso lower wordChar rank fts q.search now =
      .ok (s.found lower wordChar rank fts q.search cutoff.1 cutoff.2) := by
    unfold Store.search
    rw [hcheck]
    rfl
  refine ⟨_, memories, _, hsearch, hmemories, ?_, Bundle.assembled_fill_iff hbudget.1 q.query
    (fun item hitem => (excerpt_found hitem).2)
    (fun item hitem => (hadmitted.content _ (excerpt_found hitem).1).1)⟩
  unfold Store.assemble
  rw [raiseIf_bind_of_not (by omega), hsearch, ok_bind]
  exact congrArg (· >>= _) hmemories

/-! ## A run -/

/-- `sha256`, for the texts of the runs below and of their chunks. -/
def newsDigest (text : String) : String :=
  if text = "btc news" then
    "87a83deb4245c4aa85c91530e530577667cbae9183d645b4bfbc8d0d15465888"
  else if text = "a:0:btc news" then
    "745a78de0c297f161b20c6729604097921b8fb531d7886cbdc2563c36dd88282"
  else if text = "btc\x00news" then
    "b99e275f1211940129f6851cc6befc87f3f5e206cafbbdca8f20cd055ab99925"
  else "57a45ce5ec0a0f3c4acf3f76fbe8ae4f1b3ba5cdc5f0da93827ba045272a5e46"

/-- The store after one document was ingested at time 1. -/
def newsStore (content : String) : Store :=
  after (fun _ => none) newsDigest "root"
    [.ingest "alpha" "wire" (some content) (.ok "") ⟨"note", none, none, none, none, none⟩ "a" 1]

/-- A context about bitcoin. -/
def newsRequest : BundleRequest := ⟨"alpha", "btc", 12000, none, none, none⟩

/-- The news as it is found at time 5, with the text that is read of it. -/
def newsFound (content text : String) : Scored where
  score := 3 + 1 / 60
  document := ⟨"a", "alpha", "wire", "note", content, "root/alpha/documents/a.txt", 1, 1, none,
    newsDigest content, 1, 1, 1, none, none⟩
  content := text

theorem search_news : (newsStore "btc news").search (fun _ => none) id Char.isAlpha
    (fun _ _ => none) false newsRequest.search 5 = .ok [newsFound "btc news" "btc news"] := by
  decide +kernel

theorem search_news_nul : (newsStore "btc\x00news").search (fun _ => none) id Char.isAlpha
    (fun _ _ => none) false newsRequest.search 5 = .ok [newsFound "btc\x00news" "btc"] := by
  decide +kernel

theorem assemble_assembled_news : ∃ documents memories b,
    (newsStore "btc news").search (fun _ => none) id Char.isAlpha (fun _ _ => none) false
      newsRequest.search 5 = .ok documents ∧
    (newsStore "btc news").recall (fun _ => none) newsDigest "alpha" none none none 5 =
      .ok memories ∧
    (newsStore "btc news").assemble (fun _ => "1.0") id (fun _ => none) newsDigest id Char.isAlpha
      (fun _ _ => none) false newsRequest 5 5 = .ok b ∧
    b.Assembled (fun _ => "1.0") id 12000 documents (ofRun none memories) := by
  obtain ⟨documents, memories, b, hsearch, hrecall, hassemble, hiff⟩ :=
    assemble_assembled_iff (fun _ => "1.0") id (fun _ => none) newsDigest "root" id Char.isAlpha
      (fun _ _ => none) false _ newsRequest 5 5 (5, none) (by decide) (by decide +kernel)
  refine ⟨documents, memories, b, hsearch, hrecall, hassemble, hiff.mpr (.inl ?_)⟩
  have hnews := ok.inj (hsearch.symm.trans search_news)
  intro item hitem
  rw [hnews, mem_singleton] at hitem
  rw [hitem]
  decide

/-- **What follows a NUL is lost without a flag.** -/
theorem assemble_nul : ∃ b,
    (newsStore "btc\x00news").assemble (fun _ => "1.0") id (fun _ => none) newsDigest id
      Char.isAlpha (fun _ _ => none) false newsRequest 5 5 = .ok b ∧
    b.knowledge = [⟨"a", "btc"⟩] ∧ b.truncated = false ∧
    ∀ documents memories,
      (newsStore "btc\x00news").search (fun _ => none) id Char.isAlpha (fun _ _ => none) false
        newsRequest.search 5 = .ok documents →
      ¬ b.Assembled (fun _ => "1.0") id 12000 documents (ofRun none memories) := by
  refine ⟨⟨"btc", [⟨"a", "btc"⟩], [], [(newsFound "btc\x00news" "btc").citation], false⟩,
    by decide +kernel, rfl, rfl, fun documents memories hsearch h => ?_⟩
  have hnews := ok.inj (hsearch.symm.trans search_news_nul)
  have hcomplete := not_not.mp (mt h.flagged Bool.false_ne_true)
  obtain ⟨hknowledge, -⟩ := hcomplete
  rw [hnews, forall₂_cons] at hknowledge
  exact absurd hknowledge.1.2 (by decide)

end Qt.Context
