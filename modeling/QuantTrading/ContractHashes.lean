import Mathlib.Data.String.Basic
import QuantTrading.CanonicalDecimals
import QuantTrading.Lib.Lookup

/-!
# Content hashes of contracts

`canonical_json`, `content_hash` and the validation of a `Contract` of `qt.contracts`. A contract is
described by a `Kind`: its fields with their kinds and defaults, and a validator over all of them,
which sees numbers and not their spelling.

`Same` relates two values that differ only in how their numbers are spelled. They have one hash;
and what a contract is dumped to is validated to a contract that is the same (`validate_thaw`).
-/

namespace Qt.Canonical

open Except List

/-! ## Canonical JSON -/

mutual

def thaw : Value → Except Exc Value
  | .decimal d => (decimalString d).map .str
  | .tuple items => (thawAll items).map .tuple
  | .dict fields => (thawFields fields).map .dict
  | .null => .ok .null
  | .bool b => .ok (.bool b)
  | .int n => .ok (.int n)
  | .float x => .ok (.float x)
  | .str s => .ok (.str s)

def thawAll : List Value → Except Exc (List Value)
  | [] => .ok []
  | item :: items => do
    let value ← thaw item
    let values ← thawAll items
    return value :: values

/-- Fields, one after the other. -/
def thawFields : List (String × Value) → Except Exc (List (String × Value))
  | [] => .ok []
  | (name, item) :: fields => do
    let value ← thaw item
    let values ← thawFields fields
    return (name, value) :: values

end

/-- A character within quotes, with `ensure_ascii=False`. -/
def escape (c : Char) : List Char :=
  match Json.shortEscape c with
  | some e => ['\\', e]
  | none => if c.toNat < 0x20 then '\\' :: 'u' :: Json.hex c.toNat else [c]

def quote (s : String) : List Char := '"' :: (s.toList.flatMap escape ++ ['"'])

/-- Texts with a comma between them. -/
def commas (texts : List (List Char)) : List Char := [','].intercalate texts

mutual

/-- **`json.dumps`**, with sorted names and without blanks; what is thawed has no decimals. -/
def dumps (floatText : ℚ → String) : Value → List Char
  | .null => "null".toList
  | .bool b => if b then "true".toList else "false".toList
  | .int n => (toString n).toList
  | .float x => (floatText x).toList
  | .str s => quote s
  | .decimal _ => []
  | .tuple items => '[' :: (commas (dumpsAll floatText items) ++ [']'])
  | .dict fields =>
    '\x7b' :: (commas (((dumpsFields floatText fields).orderBy Prod.fst).map fun f =>
      quote f.1 ++ ':' :: f.2) ++ ['\x7d'])

def dumpsAll (floatText : ℚ → String) : List Value → List (List Char)
  | [] => []
  | item :: items => dumps floatText item :: dumpsAll floatText items

def dumpsFields (floatText : ℚ → String) : List (String × Value) → List (String × List Char)
  | [] => []
  | (name, item) :: fields => (name, dumps floatText item) :: dumpsFields floatText fields

end

def canonicalJson (floatText : ℚ → String) (value : Value) : Except Exc String :=
  (thaw value).map fun v => String.ofList (dumps floatText v)

def contentHash (sha256 : String → String) (floatText : ℚ → String) (value : Value) :
    Except Exc String :=
  (canonicalJson floatText value).map sha256

/-! ## Spellings -/

mutual

/-- **The values differ only in how their numbers are spelled.** -/
def Same : Value → Value → Prop
  | .decimal d, .decimal d' => InRange d ∧ InRange d' ∧ d.value = d'.value
  | .tuple items, .tuple items' => SameAll items items'
  | .dict fields, .dict fields' => SameFields fields fields'
  | .null, .null => True
  | .bool b, .bool b' => b = b'
  | .int n, .int n' => n = n'
  | .float x, .float x' => x = x'
  | .str s, .str s' => s = s'
  | _, _ => False

def SameAll : List Value → List Value → Prop
  | [], [] => True
  | item :: items, item' :: items' => Same item item' ∧ SameAll items items'
  | _, _ => False

/-- Field by field. -/
def SameFields : List (String × Value) → List (String × Value) → Prop
  | [], [] => True
  | (name, item) :: fields, (name', item') :: fields' =>
    name = name' ∧ Same item item' ∧ SameFields fields fields'
  | _, _ => False

end

mutual

/-- **What differs only in spelling is dumped to one value.** -/
theorem thaw_of_same : ∀ (v v' : Value), Same v v' → thaw v = thaw v'
  | .decimal d, v', h => by
    cases v' with
    | decimal d' =>
      obtain ⟨hd, hd', heq⟩ := h
      rw [thaw, thaw, decimalString_eq hd, decimalString_eq hd', (text_eq_iff hd hd').mpr heq]
    | _ => exact h.elim
  | .tuple items, v', h => by
    cases v' with
    | tuple items' => rw [thaw, thaw, thawAll_of_same items items' h]
    | _ => exact h.elim
  | .dict fields, v', h => by
    cases v' with
    | dict fields' => rw [thaw, thaw, thawFields_of_same fields fields' h]
    | _ => exact h.elim
  | .null, v', h => by
    cases v' with
    | null => rfl
    | _ => exact h.elim
  | .bool b, v', h => by
    cases v' with
    | bool b' => exact congrArg (thaw ∘ Value.bool) h
    | _ => exact h.elim
  | .int n, v', h => by
    cases v' with
    | int n' => exact congrArg (thaw ∘ Value.int) h
    | _ => exact h.elim
  | .float x, v', h => by
    cases v' with
    | float x' => exact congrArg (thaw ∘ Value.float) h
    | _ => exact h.elim
  | .str s, v', h => by
    cases v' with
    | str s' => exact congrArg (thaw ∘ Value.str) h
    | _ => exact h.elim

theorem thawAll_of_same : ∀ items items' : List Value,
    SameAll items items' → thawAll items = thawAll items'
  | [], [], _ => rfl
  | item :: items, item' :: items', h => by
    rw [thawAll, thawAll, thaw_of_same item item' h.1, thawAll_of_same items items' h.2]

theorem thawFields_of_same : ∀ fields fields' : Fields,
    SameFields fields fields' → thawFields fields = thawFields fields'
  | [], [], _ => rfl
  | (name, item) :: fields, (name', item') :: fields', h => by
    obtain ⟨rfl, hitem, hfields⟩ := h
    rw [thawFields, thawFields, thaw_of_same item item' hitem,
      thawFields_of_same fields fields' hfields]

end

variable {v : Value}

/-- **One hash for all spellings.** -/
theorem contentHash_of_same {v' : Value} (sha256 : String → String) (floatText : ℚ → String)
    (h : Same v v') : contentHash sha256 floatText v = contentHash sha256 floatText v' := by
  rw [contentHash, canonicalJson, thaw_of_same v v' h]
  rfl

/-! ## Contracts -/

/-- **What a field may be.** A contract has named fields, with defaults where there are, the kinds of
the fields in the same order, and a validator of all of them, to which spellings are the same. -/
inductive Kind
  | decimal (bound : ℚ → Bool)
  | int (bound : ℤ → Bool)
  | float (bound : ℚ → Bool)
  | bool
  | str (pattern : String → Bool)
  | frozen
  | tuple (minimum : ℕ) (item : Kind)
  | optional (kind : Kind)
  | contract (names : List (String × Option Value)) (kinds : List Kind) (check : Fields → Bool)
      (nodup : (names.map Prod.fst).Nodup)
      (respects : ∀ fields fields', SameFields fields fields' → check fields = check fields')

/-- What `pydantic` raises. -/
def validationError : Exc := .valueError "validation error"

mutual

/-- **Validation**, in strict mode. -/
def validate : Kind → Value → Except Exc Value
  | .decimal bound, v => do
    let d ← decimal v
    raiseIf (¬ bound d.value) validationError
    return .decimal d
  | .int bound, .int n => if bound n then .ok (.int n) else .error validationError
  | .float bound, .float x => if bound x then .ok (.float x) else .error validationError
  | .bool, .bool b => .ok (.bool b)
  | .str pattern, .str s => if pattern s then .ok (.str s) else .error validationError
  | .frozen, .dict fields => (thawFields fields).map .dict  -- `_freeze` writes decimals as `_thaw`
  | .tuple minimum item, .tuple items => do
    raiseIf (items.length < minimum) validationError
    let values ← items.mapM (validate item)
    return .tuple values
  | .optional _, .null => .ok .null
  | .optional kind, v => validate kind v
  | .contract names kinds check _ _, .dict fields => do
    raiseIf (∃ f ∈ fields, f.1 ∉ names.map Prod.fst) validationError
    let values ← validateFields names kinds fields
    raiseIf (¬ check values) validationError
    return .dict values
  | _, _ => .error validationError

/-- The fields of a contract, with the defaults of those that are left out. -/
def validateFields : List (String × Option Value) → List Kind → List (String × Value) →
    Except Exc (List (String × Value))
  | (name, default) :: names, kind :: kinds, fields =>
    match (fields.lookup name).or default with
    | none => .error validationError
    | some v => do
      let value ← validate kind v
      let values ← validateFields names kinds fields
      return (name, value) :: values
  | _, _, _ => .ok []

end

/-! ### What is dumped is validated -/

mutual

/-- What is dumped has no decimals, and is dumped as it is. -/
theorem thaw_thaw : ∀ {v t : Value}, thaw v = .ok t → thaw t = .ok t ∧ Same t t
  | .decimal d, t, h => by
    obtain ⟨s, -, rfl⟩ := map_eq_ok.mp h
    exact ⟨rfl, rfl⟩
  | .tuple items, t, h => by
    obtain ⟨ts, hts, rfl⟩ := map_eq_ok.mp h
    obtain ⟨hthaw, hsame⟩ := thawAll_thaw hts
    exact ⟨by rw [thaw, hthaw]; rfl, hsame⟩
  | .dict fields, t, h => by
    obtain ⟨ts, hts, rfl⟩ := map_eq_ok.mp h
    obtain ⟨hthaw, hsame⟩ := thawFields_thaw hts
    exact ⟨by rw [thaw, hthaw]; rfl, hsame⟩
  | .null, t, h => by
    obtain rfl := ok.inj h
    exact ⟨rfl, trivial⟩
  | .bool b, t, h => by
    obtain rfl := ok.inj h
    exact ⟨rfl, rfl⟩
  | .int n, t, h => by
    obtain rfl := ok.inj h
    exact ⟨rfl, rfl⟩
  | .float x, t, h => by
    obtain rfl := ok.inj h
    exact ⟨rfl, rfl⟩
  | .str s, t, h => by
    obtain rfl := ok.inj h
    exact ⟨rfl, rfl⟩

theorem thawAll_thaw : ∀ {items ts : List Value}, thawAll items = .ok ts →
    thawAll ts = .ok ts ∧ SameAll ts ts
  | [], ts, h => by
    obtain rfl := ok.inj h
    exact ⟨rfl, trivial⟩
  | item :: items, ts, h => by
    obtain ⟨t, ht, h⟩ := of_bind h
    obtain ⟨ts', hts, h⟩ := of_bind h
    obtain rfl := ok.inj h
    obtain ⟨hthaw, hsame⟩ := thaw_thaw ht
    obtain ⟨hthaws, hsames⟩ := thawAll_thaw hts
    exact ⟨by rw [thawAll, hthaw, hthaws]; rfl, hsame, hsames⟩

theorem thawFields_thaw : ∀ {fields ts : Fields}, thawFields fields = .ok ts →
    thawFields ts = .ok ts ∧ SameFields ts ts
  | [], ts, h => by
    obtain rfl := ok.inj h
    exact ⟨rfl, trivial⟩
  | (name, item) :: fields, ts, h => by
    obtain ⟨t, ht, h⟩ := of_bind h
    obtain ⟨ts', hts, h⟩ := of_bind h
    obtain rfl := ok.inj h
    obtain ⟨hthaw, hsame⟩ := thaw_thaw ht
    obtain ⟨hthaws, hsames⟩ := thawFields_thaw hts
    exact ⟨by rw [thawFields, hthaw, hthaws]; rfl, rfl, hsame, hsames⟩

end

/-- What a validated value is dumped to is validated to the same. -/
def Returns (k : Kind) (v : Value) : Prop :=
  ∃ t v', thaw v = .ok t ∧ validate k t = .ok v' ∧ Same v v'

theorem returns_tuple {item : Kind} (hitem : ∀ i v, validate item i = .ok v → Returns item v)
    {items values : List Value} (h : items.mapM (validate item) = .ok values) :
    ∃ ts values', thawAll values = .ok ts ∧ ts.mapM (validate item) = .ok values'
      ∧ SameAll values values' ∧ ts.length = items.length := by
  induction items generalizing values with
  | nil =>
    obtain rfl := ok.inj h
    exact ⟨[], [], rfl, rfl, trivial, rfl⟩
  | cons i items ih =>
    rw [mapM_cons] at h
    obtain ⟨v, hv, h⟩ := of_bind h
    obtain ⟨vs, hvs, h⟩ := of_bind h
    obtain rfl := ok.inj h
    obtain ⟨t, v', ht, hv', hsame⟩ := hitem i v hv
    obtain ⟨ts, vs', hts, hvs', hsames, hlen⟩ := ih hvs
    refine ⟨t :: ts, v' :: vs', ?_, ?_, ⟨hsame, hsames⟩, congrArg Nat.succ hlen⟩
    · rw [thawAll, ht, hts]
      rfl
    · rw [mapM_cons, hv', hvs']
      rfl

theorem validate_optional {kind : Kind} (h : v ≠ .null) :
    validate (.optional kind) v = validate kind v := by
  cases v with
  | null => exact absurd rfl h
  | _ => simp only [validate]

theorem thaw_eq_null (h : thaw v = .ok .null) : v = .null := by
  cases v with
  | null => rfl
  | decimal d =>
    obtain ⟨s, -, heq⟩ := map_eq_ok.mp h
    cases heq
  | tuple items =>
    obtain ⟨ts, -, heq⟩ := map_eq_ok.mp h
    cases heq
  | dict fields =>
    obtain ⟨ts, -, heq⟩ := map_eq_ok.mp h
    cases heq
  | _ => cases h

mutual

/-- **A contract that is dumped is validated again**, to one that is the same. -/
theorem validate_thaw : ∀ (k : Kind) (i v : Value), validate k i = .ok v → Returns k v
  | .decimal bound, i, v, h => by
    simp only [validate] at h
    obtain ⟨d, hd, h⟩ := of_bind h
    obtain ⟨hbound, h⟩ := of_raiseIf h
    obtain rfl := ok.inj h
    have hadmitted := (decimal_eq_ok.mp hd).2
    obtain ⟨d', hd', hvalue, hadmitted'⟩ := decimal_text hadmitted
    refine ⟨.str (text d), .decimal d', ?_, ?_, hadmitted.inRange, hadmitted'.inRange, hvalue.symm⟩
    · rw [thaw, decimalString_eq hadmitted.inRange]
      rfl
    · simp only [validate]
      rw [hd', ok_bind, hvalue, raiseIf_bind_of_not hbound]
      rfl
  | .int bound, i, v, h => by
    cases i with
    | int n =>
      simp only [validate] at h
      split at h
      · obtain rfl := ok.inj h
        exact ⟨.int n, .int n, rfl, by simp only [validate]; exact if_pos ‹_›, rfl⟩
      · cases h
    | _ => simp [validate] at h
  | .float bound, i, v, h => by
    cases i with
    | float x =>
      simp only [validate] at h
      split at h
      · obtain rfl := ok.inj h
        exact ⟨.float x, .float x, rfl, by simp only [validate]; exact if_pos ‹_›, rfl⟩
      · cases h
    | _ => simp [validate] at h
  | .bool, i, v, h => by
    cases i with
    | bool b =>
      simp only [validate] at h
      obtain rfl := ok.inj h
      exact ⟨.bool b, .bool b, rfl, by simp only [validate], rfl⟩
    | _ => simp [validate] at h
  | .str pattern, i, v, h => by
    cases i with
    | str s =>
      simp only [validate] at h
      split at h
      · obtain rfl := ok.inj h
        exact ⟨.str s, .str s, rfl, by simp only [validate]; exact if_pos ‹_›, rfl⟩
      · cases h
    | _ => simp [validate] at h
  | .frozen, i, v, h => by
    cases i with
    | dict fields =>
      simp only [validate] at h
      obtain ⟨ts, hts, rfl⟩ := map_eq_ok.mp h
      obtain ⟨hthaw, hsame⟩ := thawFields_thaw hts
      refine ⟨.dict ts, .dict ts, ?_, ?_, hsame⟩
      · rw [thaw, hthaw]
        rfl
      · simp only [validate]
        rw [hthaw]
        rfl
    | _ => simp [validate] at h
  | .tuple minimum item, i, v, h => by
    cases i with
    | tuple items =>
      simp only [validate] at h
      obtain ⟨hlen, h⟩ := of_raiseIf h
      obtain ⟨values, hvalues, h⟩ := of_bind h
      obtain rfl := ok.inj h
      obtain ⟨ts, values', hts, hvalues', hsame, htslen⟩ :=
        returns_tuple (fun i v => validate_thaw item i v) hvalues
      refine ⟨.tuple ts, .tuple values', ?_, ?_, hsame⟩
      · rw [thaw, hts]
        rfl
      · simp only [validate]
        rw [htslen, raiseIf_bind_of_not hlen, hvalues']
        rfl
    | _ => simp [validate] at h
  | .optional kind, i, v, h => by
    by_cases hi : i = .null
    · subst hi
      simp only [validate] at h
      obtain rfl := ok.inj h
      exact ⟨.null, .null, rfl, by simp only [validate], trivial⟩
    · rw [validate_optional hi] at h
      obtain ⟨t, v', ht, hv', hsame⟩ := validate_thaw kind i v h
      by_cases hnull : t = .null
      · subst hnull
        obtain rfl := thaw_eq_null ht
        exact ⟨.null, .null, rfl, by simp only [validate], trivial⟩
      · exact ⟨t, v', ht, by rw [validate_optional hnull, hv'], hsame⟩
  | .contract names kinds check nodup respects, i, v, h => by
    cases i with
    | dict fields =>
      simp only [validate] at h
      obtain ⟨-, h⟩ := of_raiseIf h
      obtain ⟨values, hvalues, h⟩ := of_bind h
      obtain ⟨hcheck, h⟩ := of_raiseIf h
      obtain rfl := ok.inj h
      obtain ⟨ts, values', hts, hnames, hnodup, hvalues', hsame⟩ :=
        validateFields_thaw names kinds fields values nodup hvalues
      refine ⟨.dict ts, .dict values', ?_, ?_, hsame⟩
      · rw [thaw, hts]
        rfl
      · simp only [validate]
        rw [raiseIf_bind_of_not, hvalues' ts (fun f hf => ?_), ok_bind,
          ← respects values values' hsame, raiseIf_bind_of_not hcheck]
        · rfl
        · exact lookup_of_mem hnodup hf
        · rintro ⟨f, hf, hno⟩
          exact hno (hnames f hf)
    | _ => simp [validate] at h

theorem validateFields_thaw : ∀ (names : List (String × Option Value)) (kinds : List Kind)
    (fields values : Fields), (names.map Prod.fst).Nodup →
    validateFields names kinds fields = .ok values →
    ∃ ts values', thawFields values = .ok ts ∧ (∀ f ∈ ts, f.1 ∈ names.map Prod.fst)
      ∧ (ts.map Prod.fst).Nodup
      ∧ (∀ more : Fields, (∀ f ∈ ts, more.lookup f.1 = some f.2) →
          validateFields names kinds more = .ok values')
      ∧ SameFields values values'
  | [], kinds, fields, values, _, h => by
    simp only [validateFields] at h
    obtain rfl := ok.inj h
    exact ⟨[], [], rfl, by simp, by simp, fun _ _ => by simp only [validateFields], trivial⟩
  | name :: names, [], fields, values, _, h => by
    simp only [validateFields] at h
    obtain rfl := ok.inj h
    exact ⟨[], [], rfl, by simp, by simp, fun _ _ => by simp only [validateFields], trivial⟩
  | (name, default) :: names, kind :: kinds, fields, values, hnodup, h => by
    rw [map_cons, nodup_cons] at hnodup
    simp only [validateFields] at h
    cases hgiven : (fields.lookup name).or default with
    | none =>
      rw [hgiven] at h
      cases h
    | some given =>
      rw [hgiven] at h
      obtain ⟨v, hv, h⟩ := of_bind h
      obtain ⟨vs, hvs, h⟩ := of_bind h
      obtain rfl := ok.inj h
      obtain ⟨t, v', ht, hv', hsame⟩ := validate_thaw kind given v hv
      obtain ⟨ts, vs', hts, hnames, htsnodup, hvs', hsames⟩ :=
        validateFields_thaw names kinds fields vs hnodup.2 hvs
      refine ⟨(name, t) :: ts, (name, v') :: vs', ?_, ?_, ?_, ?_, rfl, hsame, hsames⟩
      · rw [thawFields, ht, hts]
        rfl
      · intro f hf
        rcases mem_cons.mp hf with rfl | hf
        · exact mem_cons_self
        · exact mem_cons_of_mem _ (hnames f hf)
      · rw [map_cons, nodup_cons]
        refine ⟨fun hmem => ?_, htsnodup⟩
        obtain ⟨f, hf, heq⟩ := mem_map.mp hmem
        exact hnodup.1 (heq ▸ hnames f hf)
      · intro more hmore
        have hname : more.lookup name = some t := hmore (name, t) mem_cons_self
        simp only [validateFields]
        rw [hname, Option.some_or]
        dsimp only
        rw [hv', ok_bind, hvs' more fun f hf => hmore f (mem_cons_of_mem _ hf)]
        rfl

end

/-! ## Two contracts -/

def positiveDecimal : Kind := .decimal fun x => 0 < x

def probability : Kind := .decimal fun x => 0 ≤ x ∧ x ≤ 1

def nonEmptyStr : Kind := .str fun s => 1 ≤ s.length ∧ s.length ≤ 4096

def timestampNS : Kind := .int fun n => 0 ≤ n ∧ n ≤ 2 ^ 63 - 1

/-- `Sha256`. -/
def sha256Text : Kind := .str fun s =>
  s.length = 64 ∧ s.toList.all fun c => c.isDigit ∨ ('a' ≤ c ∧ c ≤ 'f')

/-- `schema_version`, with which every contract begins. -/
def schemaVersion : (String × Option Value) × Kind :=
  (("schema_version", some (.str "2.0")), .str fun s => s = "2.0")

def riskBudget : Kind :=
  .contract [schemaVersion.1, ("capital", none), ("currency", none),
      ("maximum_position_fraction", some (.decimal ⟨false, 30, -2⟩)),
      ("maximum_order_fraction", some (.decimal ⟨false, 2, -2⟩)),
      ("planned_loss_fraction", some (.decimal ⟨false, 1, -3⟩)),
      ("maximum_drawdown_fraction", some (.decimal ⟨false, 3, -2⟩)),
      ("maximum_daily_loss_fraction", some (.decimal ⟨false, 5, -3⟩)),
      ("maximum_leverage", some (.decimal ⟨false, 1, 0⟩))]
    [schemaVersion.2, positiveDecimal, nonEmptyStr, probability, probability, probability,
      probability, probability, positiveDecimal]
    (fun _ => true) (by decide) (fun _ _ _ => rfl)

def numeral : Option Value → Option ℚ
  | some (.decimal d) => some d.value
  | _ => none

/-- The number of a field. -/
def number (name : String) (fields : Fields) : Option ℚ := numeral (fields.lookup name)

theorem numeral_of_same : ∀ {v v' : Value}, Same v v' → numeral (some v) = numeral (some v')
  | .decimal d, v', h => by
    cases v' with
    | decimal d' => exact congrArg some h.2.2
    | _ => exact h.elim
  | .null, v', h | .bool _, v', h | .int _, v', h | .float _, v', h | .str _, v', h
  | .tuple _, v', h | .dict _, v', h => by
    cases v' with
    | decimal d' => exact h.elim
    | _ => rfl

/-- **A number is the same in all spellings.** -/
theorem number_of_same {fields fields' : Fields} (name : String) (h : SameFields fields fields') :
    number name fields = number name fields' := by
  induction fields generalizing fields' with
  | nil =>
    cases fields' with
    | nil => rfl
    | cons f fields' => exact h.elim
  | cons f fields ih =>
    cases fields' with
    | nil => exact h.elim
    | cons f' fields' =>
      obtain ⟨hname, hitem, hfields⟩ := h
      have hrest := ih hfields
      unfold number at hrest ⊢
      rw [lookup_cons, lookup_cons, ← hname]
      split
      · exact numeral_of_same hitem
      · exact hrest

def executableMarketSnapshot : Kind :=
  .contract [schemaVersion.1, ("venue", none), ("instrument", none), ("bid", none), ("ask", none),
      ("asof_ns", none), ("book_valid", none), ("instrument_spec_hash", none),
      ("fee_schedule_hash", none)]
    [schemaVersion.2, nonEmptyStr, nonEmptyStr, positiveDecimal, positiveDecimal, timestampNS,
      .bool, sha256Text, sha256Text]
    (fun fields => ∀ bid ∈ number "bid" fields, ∀ ask ∈ number "ask" fields, bid < ask)
    (by decide)
    (fun _ _ h => by rw [number_of_same "bid" h, number_of_same "ask" h])

/-- **Canonical decimals.** Two decimals in range have one text exactly when they are numerically
equal; the number is read back from its text, which has no exponent and a sign only in front of what
is negative; a number that `_decimal` admits is admitted again from its text. A value has one hash
for all spellings of its numbers, and a contract has it after it is dumped and validated again. -/
theorem canonical_decimals (sha256 : String → String) (floatText : ℚ → String) :
    (∀ d d', InRange d → InRange d' → (decimalString d = decimalString d' ↔ d.value = d'.value))
    ∧ (∀ d, InRange d → ∃ t, decimalString d = .ok t
        ∧ (∃ d', Decimal.parse t = some d' ∧ d'.value = d.value)
        ∧ (∀ c ∈ t.toList, c = '-' ∨ c = '.' ∨ c.isDigit = true)
        ∧ (t.toList.head? = some '-' ↔ d.value < 0))
    ∧ (∀ v d, decimal v = .ok d → InRange d ∧ ∃ t d', decimalString d = .ok t
        ∧ decimal (.str t) = .ok d' ∧ d'.value = d.value ∧ decimalString d' = .ok t)
    ∧ (∀ v v', Same v v' → contentHash sha256 floatText v = contentHash sha256 floatText v')
    ∧ ∀ k i v, validate k i = .ok v → ∃ t v' hash, thaw v = .ok t ∧ validate k t = .ok v'
        ∧ contentHash sha256 floatText v = .ok hash
        ∧ contentHash sha256 floatText v' = .ok hash := by
  refine ⟨fun d d' h h' => ?_, fun d h => ⟨text d, decimalString_eq h, ?_, ?_, head_text d⟩,
    fun v d hd => ?_, fun v v' h => contentHash_of_same sha256 floatText h, fun k i v h => ?_⟩
  · rw [decimalString_eq h, decimalString_eq h', Except.ok.injEq]
    exact text_eq_iff h h'
  · obtain ⟨d', hparse, hvalue, -⟩ := parse_text h
    exact ⟨d', hparse, hvalue⟩
  · exact fun c hc => char_of_mem_text hc
  · have hadmitted := (decimal_eq_ok.mp hd).2
    obtain ⟨d', hd', hvalue, hadmitted'⟩ := decimal_text hadmitted
    have htext : text d' = text d := (text_eq_iff hadmitted'.inRange hadmitted.inRange).mpr hvalue
    exact ⟨hadmitted.inRange, text d, d', decimalString_eq hadmitted.inRange, hd', hvalue,
      htext ▸ decimalString_eq hadmitted'.inRange⟩
  · obtain ⟨t, v', ht, hv', hsame⟩ := validate_thaw k i v h
    refine ⟨t, v', sha256 (String.ofList (dumps floatText t)), ht, hv', ?_, ?_⟩
    · rw [contentHash, canonicalJson, ht]
      rfl
    · rw [← contentHash_of_same sha256 floatText hsame, contentHash, canonicalJson, ht]
      rfl

end Qt.Canonical
