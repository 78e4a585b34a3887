import QuantTrading.MarketData

/-!
# The composite provider

`CompositeProvider` of `btc_backtest.data.providers.composite`: it asks each of its providers for
the requested interval, checks what they deliver again and puts the bars together.

The bars that are delivered are the union of the bars of the providers, in whatever order these
come in, and the gaps are the bars of the interval that no provider has. But the end of what is
delivered is put an hour after the last bar where bars are hours and else a day after it, so that
it is right for hours and days only (`compose_union_iff`).

The fingerprint of a frame is a parameter.
-/

namespace Qt.Backtest.Data

open Except Grid List

/-! ## Providers -/

structure ProviderMetadata where
  id : String
  realData : Bool
  timeframes : List Timeframe
  markets : List String
  symbols : List String

structure MarketDataProvider where
  metadata : ProviderMetadata
  fetch : DataRequest → Except DataError MarketDataset

structure CompositeProvider where
  providers : List MarketDataProvider
  overlapTolerance : ℚ
  metadata : ProviderMetadata

/-- `set(values) == set(others)`. -/
def SameSet (values others : List String) : Prop :=
  (∀ v ∈ values, v ∈ others) ∧ ∀ v ∈ others, v ∈ values
deriving Decidable

/-- What all providers are capable of, of the values of the first. -/
def shared {α : Type} [DecidableEq α] (capability : ProviderMetadata → List α)
    (providers : List MarketDataProvider) (values : List α) : List α :=
  values.filter fun v => ∀ p ∈ providers, v ∈ capability p.metadata

variable (providers : List MarketDataProvider)

/-- The symbols of the providers that restrict them. -/
def restrictedSymbols : List (List String) :=
  (providers.map (·.metadata.symbols)).filter (· ≠ [])

/-- **`CompositeProvider.__init__`.** -/
def CompositeProvider.init (overlapTolerance : ℚ) : Except DataError CompositeProvider :=
  match providers with
  | [] => .error (.provider "composite provider requires at least one source")
  | first :: _ => do
    raiseIf (overlapTolerance < 0) (.valueError "overlap_tolerance must be finite and non-negative")
    let timeframes := shared (·.timeframes) providers first.metadata.timeframes
    let markets := shared (·.markets) providers first.metadata.markets
    let restricted := restrictedSymbols providers
    let symbols := restricted.headD []
    raiseIf (∃ values ∈ restricted.tail, ¬ SameSet values symbols)
      (.validation "composite providers must declare identical symbol capabilities")
    raiseIf (timeframes = []) (.validation "composite providers share no timeframe")
    raiseIf (markets = []) (.validation "composite providers share no market")
    let realData := providers.all (·.metadata.realData)
    return ⟨providers, overlapTolerance, ⟨"composite", realData, timeframes, markets, symbols⟩⟩

/-! ## Fetching -/

/-- A dataset of a provider whose frame was normalised. -/
structure Child where
  bars : List Bar
  manifest : DataManifest

variable (request : DataRequest)

/-- What a provider is asked for. -/
def childRequest (metadata : ProviderMetadata) : DataRequest :=
  { request with provider := metadata.id, requireComplete := false, maxMissingRatio := 1 }

def validateChildIdentity (manifest : DataManifest) (metadata : ProviderMetadata) :
    Except DataError Unit := do
  let identity := (manifest.provider, manifest.market, manifest.symbol, manifest.timeframe,
    manifest.requestedStart, manifest.requestedStop)
  let expected := (request.provider, request.market, request.symbol, request.timeframe,
    request.start, request.stop)
  raiseIf (identity ≠ expected) (.validation "composite child dataset identity mismatch")
  raiseIf (manifest.realData ≠ metadata.realData) (.validation
    ("composite child " ++ metadata.id ++ " real-data label contradicts metadata"))
  raiseIf (request.requireReal = true ∧ manifest.realData = false) (.validation
    ("composite child " ++ metadata.id ++ " did not provide real data"))

/-- `np.allclose` of one value, with one tolerance. -/
def Close (tolerance left right : ℚ) : Prop :=
  |left - right| ≤ tolerance + tolerance * |right|
deriving Decidable

variable (tolerance : ℚ)

/-- `np.allclose` of two bars. -/
def Bar.CloseTo (left right : Bar) : Prop :=
  Close tolerance left.openPrice right.openPrice ∧ Close tolerance left.high right.high
    ∧ Close tolerance left.low right.low ∧ Close tolerance left.close right.close
    ∧ Close tolerance left.volume right.volume
deriving Decidable

/-- What is checked of one dataset that was fetched before. -/
def checkOverlap (existing candidate : List Bar) : Except DataError Unit :=
  match existing.filter fun b => b.time ∈ candidate.map (·.time) with
  | [] => .ok ()
  | first :: _ =>
    raiseIf (∃ l ∈ existing, ∃ r ∈ candidate, l.time = r.time ∧ ¬ l.CloseTo tolerance r)
      (.overlap first.time)

def checkOverlaps (previous : List Child) (candidate : List Bar) : Except DataError Unit :=
  previous.forM fun existing => checkOverlap tolerance existing.bars candidate

section Fetch

variable (fingerprint : List Bar → Datasets.Sha256)

/-- A round of the loop of `fetch`. -/
def fetchChild (tolerance : ℚ) (request : DataRequest) (children : List Child)
    (provider : MarketDataProvider) : Except DataError (List Child) := do
  let request' := childRequest request provider.metadata
  let dataset ← provider.fetch request'
  validateChildIdentity request' dataset.manifest provider.metadata
  let (normalized, gaps) ← validateOhlcv dataset.frame request'
  raiseIf (gaps ≠ dataset.manifest.gaps) (.validation
    ("composite child " ++ provider.metadata.id ++ " gap metadata mismatch"))
  raiseIf (fingerprint normalized ≠ dataset.manifest.normalizedSha256) (.validation
    ("composite child " ++ provider.metadata.id ++ " fingerprint mismatch"))
  checkOverlaps tolerance children normalized
  return children ++ [⟨normalized, dataset.manifest⟩]

/-- The bars of all providers: of one time the first, in order. -/
def combine (children : List Child) : List Bar :=
  ((children.flatMap Child.bars).firsts (·.time)).orderBy (·.time)

/-- How long a bar is taken to be: an hour, or a day. -/
def lastBarDelta (timeframe : Timeframe) : ℤ :=
  if timeframe = .h1 then 3600000000000 else 86400000000000

def compositeFields (metadata : ProviderMetadata) (request : DataRequest) (children : List Child)
    (gaps : List DataGap) (bars : List Bar) (first last : Bar) : ManifestFields where
  provider := metadata.id
  market := request.market
  symbol := request.symbol
  timeframe := request.timeframe
  requestedStart := request.start
  requestedStop := request.stop
  deliveredStart := first.time
  deliveredStop := last.time + lastBarDelta request.timeframe
  realData := metadata.realData
  rawSha256 := children.flatMap (·.manifest.rawSha256)
  normalizedSha256 := fingerprint bars
  source := some ("composite://" ++ "+".intercalate (children.map (·.manifest.provider)))
  gaps := gaps
  segments := children.map (·.manifest.segment)

/-- The dataset that is returned. -/
def publish (metadata : ProviderMetadata) (request : DataRequest) (children : List Child)
    (bars : List Bar) (gaps : List DataGap) : Except DataError MarketDataset :=
  match bars.head?, bars.getLast? with
  | some first, some last => do
    let manifest ← DataManifest.validate
      (compositeFields fingerprint metadata request children gaps bars first last)
    return ⟨.ofBars bars, manifest⟩
  | _, _ => .error (.validation "OHLCV data is empty")

/-- **`CompositeProvider.fetch`.** -/
def CompositeProvider.fetch (composite : CompositeProvider) (request : DataRequest) :
    Except DataError MarketDataset := do
  let metadata := composite.metadata
  raiseIf (request.provider ≠ metadata.id)
    (.provider ("composite provider cannot satisfy provider " ++ request.provider))
  raiseIf (request.requireReal = true ∧ metadata.realData = false)
    (.provider "request requires real data")
  raiseIf (request.timeframe ∉ metadata.timeframes)
    (.provider ("unsupported composite timeframe " ++ request.timeframe.text))
  raiseIf (request.market ∉ metadata.markets)
    (.provider ("unsupported composite market " ++ request.market))
  raiseIf (metadata.symbols ≠ [] ∧ request.symbol ∉ metadata.symbols)
    (.validation ("composite providers do not support symbol " ++ request.symbol))
  let children ← composite.providers.foldlM
    (fetchChild fingerprint composite.overlapTolerance request) []
  let (normalized, gaps) ← validateOhlcv (.ofBars (combine children)) request
  publish fingerprint metadata request children normalized gaps

/-- A composite of the providers without a tolerance, and what it fetches. -/
def compose (providers : List MarketDataProvider) (request : DataRequest) :
    Except DataError MarketDataset := do
  let composite ← CompositeProvider.init providers 0
  composite.fetch fingerprint request

end Fetch

/-! ## Which requests are served -/

/-- The composite of the providers can be asked. -/
def Served (request : DataRequest) : Prop :=
  ∃ composite, CompositeProvider.init providers 0 = .ok composite
    ∧ request.provider = composite.metadata.id
    ∧ (request.requireReal = true → composite.metadata.realData = true)
    ∧ request.timeframe ∈ composite.metadata.timeframes
    ∧ request.market ∈ composite.metadata.markets
    ∧ (composite.metadata.symbols = [] ∨ request.symbol ∈ composite.metadata.symbols)

/-- What is asked of each provider, and of any two. -/
structure Capable (providers : List MarketDataProvider) (request : DataRequest) : Prop where
  ne_nil : providers ≠ []
  provider : request.provider = "composite"
  real : request.requireReal = true → ∀ p ∈ providers, p.metadata.realData = true
  timeframe : ∀ p ∈ providers, request.timeframe ∈ p.metadata.timeframes
  market : ∀ p ∈ providers, request.market ∈ p.metadata.markets
  same : ∀ p ∈ providers, ∀ q ∈ providers, p.metadata.symbols ≠ [] → q.metadata.symbols ≠ [] →
    SameSet p.metadata.symbols q.metadata.symbols
  symbol : ∀ p ∈ providers, p.metadata.symbols ≠ [] → request.symbol ∈ p.metadata.symbols

variable {providers} {request}

theorem Capable.perm {order : List MarketDataProvider} (h : Capable providers request)
    (hperm : order.Perm providers) : Capable order request where
  ne_nil hnil := h.ne_nil (List.Perm.nil_eq (hnil ▸ hperm)).symm
  provider := h.provider
  real hreal p hp := h.real hreal p (hperm.mem_iff.mp hp)
  timeframe p hp := h.timeframe p (hperm.mem_iff.mp hp)
  market p hp := h.market p (hperm.mem_iff.mp hp)
  same p hp q hq := h.same p (hperm.mem_iff.mp hp) q (hperm.mem_iff.mp hq)
  symbol p hp := h.symbol p (hperm.mem_iff.mp hp)

theorem mem_restrictedSymbols {values : List String} : values ∈ restrictedSymbols providers
      ↔ values ≠ [] ∧ ∃ p ∈ providers, p.metadata.symbols = values := by
  unfold restrictedSymbols
  rw [mem_filter, mem_map, decide_eq_true_iff, and_comm]

theorem mem_shared {α : Type} [DecidableEq α] {capability : ProviderMetadata → List α}
    {values : List α} {v : α} : v ∈ shared capability providers values
      ↔ v ∈ values ∧ ∀ p ∈ providers, v ∈ capability p.metadata := by
  unfold shared
  rw [mem_filter, decide_eq_true_iff]

theorem Capable.init_eq (h : Capable providers request) :
    ∃ metadata, CompositeProvider.init providers 0 = .ok ⟨providers, 0, metadata⟩
      ∧ metadata.id = "composite"
      ∧ (request.requireReal = true → metadata.realData = true)
      ∧ request.timeframe ∈ metadata.timeframes ∧ request.market ∈ metadata.markets
      ∧ (metadata.symbols = [] ∨ request.symbol ∈ metadata.symbols) := by
  obtain ⟨hne, -, hreal, htimeframe, hmarket, hsame, hsymbol⟩ := h
  cases providers with
  | nil => exact absurd rfl hne
  | cons first rest =>
    have htf := mem_shared.mpr ⟨htimeframe first mem_cons_self, htimeframe⟩
    have hmk := mem_shared.mpr ⟨hmarket first mem_cons_self, hmarket⟩
    refine ⟨⟨"composite", (first :: rest).all (·.metadata.realData),
      shared (·.timeframes) (first :: rest) first.metadata.timeframes,
      shared (·.markets) (first :: rest) first.metadata.markets,
      (restrictedSymbols (first :: rest)).headD []⟩, ?_, rfl, fun hr => ?_, htf, hmk, ?_⟩
    · refine raiseIf_bind_eq_ok.mpr ⟨lt_irrefl 0, raiseIf_bind_eq_ok.mpr ⟨?_,
        raiseIf_bind_eq_ok.mpr ⟨ne_nil_of_mem htf, raiseIf_bind_eq_ok.mpr
          ⟨ne_nil_of_mem hmk, rfl⟩⟩⟩⟩
      cases hrestricted : restrictedSymbols (first :: rest) with
      | nil => simp
      | cons values others =>
        rintro ⟨values', hvalues', hnot⟩
        have hmem := mem_restrictedSymbols.mp (hrestricted ▸ mem_cons_self)
        have hmem' := mem_restrictedSymbols.mp (hrestricted ▸ mem_cons_of_mem values hvalues')
        obtain ⟨hvne, p, hp, rfl⟩ := hmem
        obtain ⟨hvne', q, hq, rfl⟩ := hmem'
        exact hnot (hsame q hq p hp hvne' hvne)
    · exact all_eq_true.mpr (hreal hr)
    · cases hrestricted : restrictedSymbols (first :: rest) with
      | nil => exact .inl rfl
      | cons values others =>
        obtain ⟨hvne, p, hp, rfl⟩ := mem_restrictedSymbols.mp (hrestricted ▸ mem_cons_self)
        exact .inr (hsymbol p hp hvne)

theorem served_iff : Served providers request ↔ Capable providers request := by
  constructor
  · intro h
    obtain ⟨composite, hinit, hprovider, hreal, htimeframe, hmarket, hsymbol⟩ := h
    cases providers with
    | nil => exact absurd hinit (by simp [CompositeProvider.init])
    | cons first rest =>
      obtain ⟨-, hinit⟩ := of_raiseIf hinit
      obtain ⟨hsame, hinit⟩ := of_raiseIf hinit
      obtain ⟨-, hinit⟩ := of_raiseIf hinit
      obtain ⟨-, hinit⟩ := of_raiseIf hinit
      obtain rfl := ok.inj hinit
      have hhead : ∀ values ∈ restrictedSymbols (first :: rest),
          SameSet values ((restrictedSymbols (first :: rest)).headD []) := fun values hvalues => by
        cases hrestricted : restrictedSymbols (first :: rest) with
        | nil => exact absurd (hrestricted ▸ hvalues) not_mem_nil
        | cons head others =>
          rw [hrestricted] at hvalues hsame
          rcases mem_cons.mp hvalues with rfl | htail
          · exact ⟨fun _ => id, fun _ => id⟩
          · exact not_not.mp fun hnot => hsame ⟨values, htail, hnot⟩
      refine ⟨by simp, hprovider, fun hr => all_eq_true.mp (hreal hr),
        (mem_shared.mp htimeframe).2, (mem_shared.mp hmarket).2, fun p hp q hq hpne hqne => ?_,
        fun p hp hpne => ?_⟩
      · have hp' := hhead _ (mem_restrictedSymbols.mpr ⟨hpne, p, hp, rfl⟩)
        have hq' := hhead _ (mem_restrictedSymbols.mpr ⟨hqne, q, hq, rfl⟩)
        exact ⟨fun v hv => hq'.2 v (hp'.1 v hv), fun v hv => hp'.2 v (hq'.1 v hv)⟩
      · have hp' := hhead _ (mem_restrictedSymbols.mpr ⟨hpne, p, hp, rfl⟩)
        refine hp'.2 _ (hsymbol.resolve_left fun hnil => hpne ?_)
        refine eq_nil_iff_forall_not_mem.mpr fun v hv => ?_
        have hmem := hp'.1 v hv
        have hnil : (restrictedSymbols (first :: rest)).headD [] = [] := hnil
        rw [hnil] at hmem
        exact not_mem_nil hmem
  · intro h
    obtain ⟨metadata, hinit, hid, hrest⟩ := h.init_eq
    exact ⟨_, hinit, h.provider.trans hid.symm, hrest⟩

/-! ## The loop -/

section Union

variable {fingerprint : List Bar → Datasets.Sha256} {request : DataRequest}

/-- **The provider has a valid dataset** for the request: it is what was asked for, its bars pass,
and its gaps and its fingerprint are theirs. -/
def ChildOf (fingerprint : List Bar → Datasets.Sha256) (request : DataRequest)
    (p : MarketDataProvider) (c : Child) : Prop :=
  ∃ frame, p.fetch (childRequest request p.metadata) = .ok ⟨frame, c.manifest⟩
    ∧ (c.manifest.provider = p.metadata.id ∧ c.manifest.market = request.market
      ∧ c.manifest.symbol = request.symbol ∧ c.manifest.timeframe = request.timeframe
      ∧ c.manifest.requestedStart = request.start ∧ c.manifest.requestedStop = request.stop)
    ∧ c.manifest.realData = p.metadata.realData
    ∧ validateOhlcv frame (childRequest request p.metadata) = .ok (c.bars, c.manifest.gaps)
    ∧ fingerprint c.bars = c.manifest.normalizedSha256

variable {c : Child} {p : MarketDataProvider}

theorem ChildOf.unique {c' : Child} (h : ChildOf fingerprint request p c)
    (h' : ChildOf fingerprint request p c') : c = c' := by
  obtain ⟨frame, hfetch, -, -, hvalid, -⟩ := h
  obtain ⟨frame', hfetch', -, -, hvalid', -⟩ := h'
  rw [hfetch] at hfetch'
  obtain ⟨rfl, hmanifest⟩ := MarketDataset.mk.inj (ok.inj hfetch')
  rw [hvalid] at hvalid'
  have hbars := (Prod.mk.inj (ok.inj hvalid')).1
  cases c
  cases c'
  simp_all

theorem ChildOf.passes (h : ChildOf fingerprint request p c) :
    Normalized c.bars ∧ Placed request c.bars := by
  obtain ⟨frame, -, -, -, hvalid, -⟩ := h
  obtain ⟨hn, hp⟩ := of_validateOhlcv hvalid
  exact ⟨hn, hp.inside, hp.aligned⟩

theorem closeTo_zero {l r : Bar} (htime : l.time = r.time) : l.CloseTo 0 r ↔ l = r := by
  have hzero : ∀ x y : ℚ, Close 0 x y ↔ x = y := fun x y => by
    unfold Close
    rw [zero_mul, add_zero, abs_nonpos_iff, sub_eq_zero]
  unfold Bar.CloseTo
  rw [hzero, hzero, hzero, hzero, hzero, Bar.ext_iff]
  exact ⟨fun h => ⟨htime, h⟩, fun h => h.2⟩

/-- Bars of one time are the same. -/
def Agree (bars others : List Bar) : Prop :=
  ∀ l ∈ bars, ∀ r ∈ others, l.time = r.time → l = r

theorem checkOverlap_of_agree {existing candidate : List Bar} (h : Agree existing candidate) :
    checkOverlap 0 existing candidate = .ok () := by
  unfold checkOverlap
  split
  · rfl
  · rw [raiseIf_eq_ok]
    rintro ⟨l, hl, r, hr, htime, hnot⟩
    exact hnot ((closeTo_zero htime).mpr (h l hl r hr htime))

variable {children : List Child}

/-- **One round**: the dataset of the provider is added. -/
theorem fetchChild_eq (h : ChildOf fingerprint request p c)
    (hreal : request.requireReal = true → p.metadata.realData = true)
    (hagree : ∀ c' ∈ children, Agree c'.bars c.bars) :
    fetchChild fingerprint 0 request children p = .ok (children ++ [c]) := by
  obtain ⟨frame, hfetch, ⟨h1, h2, h3, h4, h5, h6⟩, hlabel, hvalid, hprint⟩ := h
  have hid : validateChildIdentity (childRequest request p.metadata) c.manifest p.metadata
      = .ok () := by
    refine raiseIf_bind_eq_ok.mpr ⟨?_, raiseIf_bind_eq_ok.mpr ⟨not_not.mpr hlabel, ?_⟩⟩
    · rw [h1, h2, h3, h4, h5, h6]
      exact not_not.mpr rfl
    · rw [raiseIf_eq_ok, hlabel]
      rintro ⟨hr, hnot⟩
      exact absurd (hreal hr) (by simp [hnot])
  have hoverlaps : checkOverlaps 0 children c.bars = .ok () :=
    forM_eq_ok.mpr fun c' hc' => checkOverlap_of_agree (hagree c' hc')
  unfold fetchChild
  simp only [hfetch, ok_bind, hid, hvalid]
  rw [raiseIf_bind_of_not (not_not.mpr rfl), raiseIf_bind_of_not (not_not.mpr hprint), hoverlaps]
  rfl

variable {providers : List MarketDataProvider}

/-- **The loop** collects the datasets of the providers. -/
theorem foldlM_fetchChild (acc : List Child)
    (h : List.Forall₂ (ChildOf fingerprint request) providers children)
    (hreal : ∀ p ∈ providers, request.requireReal = true → p.metadata.realData = true)
    (hagree : ∀ c ∈ acc ++ children, ∀ c' ∈ acc ++ children, Agree c.bars c'.bars) :
    providers.foldlM (fetchChild fingerprint 0 request) acc = .ok (acc ++ children) := by
  induction h generalizing acc with
  | nil => simp only [foldlM_nil, append_nil]; rfl
  | @cons p c providers children hchild _ ih =>
    have hmem : c ∈ acc ++ c :: children := mem_append_right acc mem_cons_self
    rw [foldlM_cons, fetchChild_eq hchild (hreal p mem_cons_self) fun c' hc' =>
      hagree c' (mem_append_left _ hc') c hmem, ok_bind]
    have happend : acc ++ c :: children = acc ++ [c] ++ children := by simp
    rw [happend]
    rw [happend] at hagree
    exact ih (acc ++ [c]) (fun q hq => hreal q (mem_cons_of_mem p hq)) hagree

/-! ## The union -/

def IsRow (fingerprint : List Bar → Datasets.Sha256) (request : DataRequest)
    (providers : List MarketDataProvider) (b : Bar) : Prop :=
  ∃ p ∈ providers, ∃ c, ChildOf fingerprint request p c ∧ b ∈ c.bars

/-- **What is asked of the providers**: each has a valid dataset, where they overlap they agree, and
the request tolerates what none of them has. -/
structure Offers (fingerprint : List Bar → Datasets.Sha256) (request : DataRequest)
    (providers : List MarketDataProvider) : Prop where
  served : Served providers request
  valid : ∀ p ∈ providers, ∃ c, ChildOf fingerprint request p c
  agree : ∀ b b', IsRow fingerprint request providers b → IsRow fingerprint request providers b' →
    b.time = b'.time → b = b'
  tolerated : ∀ times : List ℤ,
    (∀ t, t ∈ times ↔ ∃ b, IsRow fingerprint request providers b ∧ b.time = t) →
    Tolerates request times

/-- **The dataset is the union**: the bars are those of the providers, in order; what is delivered
goes from the first bar to the end of the last; and the gaps are in order, apart, as long as they
say, and made of the bars of the interval that no provider has. -/
structure IsUnion (fingerprint : List Bar → Datasets.Sha256) (request : DataRequest)
    (providers : List MarketDataProvider) (bars : List Bar) (manifest : DataManifest) : Prop where
  sorted : bars.Pairwise fun a b => a.time < b.time
  mem_iff : ∀ b, b ∈ bars ↔ IsRow fingerprint request providers b
  first : bars.head?.map (·.time) = some manifest.deliveredStart
  last : bars.getLast?.map (fun b => b.time + request.timeframe.delta) = some manifest.deliveredStop
  apart : manifest.gaps.Pairwise fun g h => g.stop < h.start
  count : ∀ g ∈ manifest.gaps, request.timeframe.delta * g.missingBars = g.stop - g.start
  gap_iff : ∀ t, (∃ g ∈ manifest.gaps, g.start ≤ t ∧ t < g.stop
      ∧ request.timeframe.delta ∣ t - g.start)
    ↔ (request.start ≤ t ∧ t < request.stop ∧ request.timeframe.delta ∣ t)
      ∧ ∀ b, IsRow fingerprint request providers b → b.time ≠ t

variable {b : Bar} {order : List MarketDataProvider}

theorem isRow_perm (h : order.Perm providers) :
    IsRow fingerprint request order b ↔ IsRow fingerprint request providers b :=
  exists_congr fun _ => and_congr_left fun _ => h.mem_iff

/-- What is asked of the providers does not depend on their order. -/
theorem Offers.perm (h : Offers fingerprint request providers) (hperm : order.Perm providers) :
    Offers fingerprint request order where
  served := served_iff.mpr ((served_iff.mp h.served).perm hperm)
  valid p hp := h.valid p (hperm.mem_iff.mp hp)
  agree b b' hb hb' := h.agree b b' ((isRow_perm hperm).mp hb) ((isRow_perm hperm).mp hb')
  tolerated times htimes := h.tolerated times fun t =>
    (htimes t).trans (exists_congr fun _ => and_congr_left fun _ => isRow_perm hperm)

theorem exists_children (h : ∀ p ∈ providers, ∃ c, ChildOf fingerprint request p c) :
    ∃ children, List.Forall₂ (ChildOf fingerprint request) providers children := by
  induction providers with
  | nil => exact ⟨[], .nil⟩
  | cons p providers ih =>
    obtain ⟨c, hc⟩ := h p mem_cons_self
    obtain ⟨children, hchildren⟩ := ih fun q hq => h q (mem_cons_of_mem p hq)
    exact ⟨c :: children, .cons hc hchildren⟩

/-- The bars of the providers are those of their datasets. -/
theorem isRow_iff (h : List.Forall₂ (ChildOf fingerprint request) providers children) :
    IsRow fingerprint request providers b ↔ ∃ c ∈ children, b ∈ c.bars := by
  induction h with
  | nil => simp [IsRow]
  | @cons p c providers children hchild _ ih =>
    have hhead : (∃ c', ChildOf fingerprint request p c' ∧ b ∈ c'.bars) ↔ b ∈ c.bars := by
      constructor
      · intro h
        obtain ⟨c', hc', hb⟩ := h
        exact hchild.unique hc' ▸ hb
      · exact fun hb => ⟨c, hchild, hb⟩
    rw [exists_mem_cons_iff, ← ih, ← hhead]
    exact exists_mem_cons_iff _ _ _

theorem passes_of_forall₂ (h : List.Forall₂ (ChildOf fingerprint request) providers children) :
    ∀ c ∈ children, Normalized c.bars ∧ Placed request c.bars := by
  induction h with
  | nil => simp
  | cons hchild _ ih => exact forall_mem_cons.mpr ⟨hchild.passes, ih⟩

/-- What is fetched before it is published. -/
structure Fetched (fingerprint : List Bar → Datasets.Sha256) (request : DataRequest)
    (providers : List MarketDataProvider) (fields : ManifestFields) (bars : List Bar) : Prop where
  compose_eq : compose fingerprint providers request = (DataManifest.validate fields).map
    fun manifest => ⟨.ofBars bars, manifest⟩
  normalized : Normalized bars
  placed : Placed request bars
  mem_iff : ∀ b, b ∈ bars ↔ IsRow fingerprint request providers b
  named : Named fields.provider fields.market fields.symbol fields.source
  raw_ne : fields.rawSha256 ≠ []
  requested : fields.requestedStart = request.start ∧ fields.requestedStop = request.stop
  first : bars.head?.map (·.time) = some fields.deliveredStart
  last : bars.getLast?.map (fun b => b.time + lastBarDelta request.timeframe)
    = some fields.deliveredStop
  gaps : Gaps request.timeframe.delta (absent request (bars.map (·.time))) fields.gaps

/-- **What a composite fetches**, up to the checks of its manifest. -/
theorem Offers.fetched (h : Offers fingerprint request providers) :
    ∃ fields bars, Fetched fingerprint request providers fields bars := by
  have hcapable := served_iff.mp h.served
  obtain ⟨metadata, hinit, hid, hreal, htimeframe, hmarket, hsymbol⟩ := hcapable.init_eq
  obtain ⟨children, hchildren⟩ := exists_children h.valid
  have hrow : ∀ b, IsRow fingerprint request providers b ↔ ∃ c ∈ children, b ∈ c.bars :=
    fun b => isRow_iff hchildren
  have hpasses := passes_of_forall₂ hchildren
  have hagree : ∀ c ∈ children, ∀ c' ∈ children, Agree c.bars c'.bars :=
    fun c hc c' hc' l hl r hr => h.agree l r ((hrow l).mpr ⟨c, hc, hl⟩) ((hrow r).mpr ⟨c', hc', hr⟩)
  have hall : ∀ b, b ∈ children.flatMap Child.bars ↔ IsRow fingerprint request providers b :=
    fun b => mem_flatMap.trans (hrow b).symm
  have hmem : ∀ b, b ∈ combine children ↔ IsRow fingerprint request providers b := fun b => by
    unfold combine
    rw [mem_orderBy, mem_firsts_of_replay fun a ha b hb =>
      h.agree a b ((hall a).mp ha) ((hall b).mp hb), hall]
  have hne : children ≠ [] := fun hnil => by
    rw [hnil] at hchildren
    exact hcapable.ne_nil (forall₂_nil_right_iff.mp hchildren)
  obtain ⟨child, hchild⟩ := exists_mem_of_ne_nil _ hne
  have hn : Normalized (combine children) := by
    refine ⟨?_, ?_, fun b hb => ?_⟩
    · obtain ⟨b, hb⟩ := exists_mem_of_ne_nil _ (hpasses child hchild).1.ne_nil
      exact ne_nil_of_mem ((hmem b).mpr ((hrow b).mpr ⟨child, hchild, hb⟩))
    · exact pairwise_lt_orderBy _ (nodup_map_firsts _ _)
    · obtain ⟨c, hc, hb⟩ := (hrow b).mp ((hmem b).mp hb)
      exact (hpasses c hc).1.valid b hb
  have hp : Placed request (combine children) := by
    refine ⟨fun b hb => ?_, fun b hb => ?_⟩
    · obtain ⟨c, hc, hb⟩ := (hrow b).mp ((hmem b).mp hb)
      exact (hpasses c hc).2.inside b hb
    · obtain ⟨c, hc, hb⟩ := (hrow b).mp ((hmem b).mp hb)
      exact (hpasses c hc).2.aligned b hb
  have htolerates : Tolerates request ((combine children).map (·.time)) := h.tolerated _ fun t => by
      rw [mem_map]
      exact exists_congr fun b => and_congr_left fun _ => hmem b
  obtain ⟨gaps, hvalid, hgaps⟩ := validateOhlcv_ofBars hn hp htolerates
  obtain ⟨first, hfirst⟩ := Option.isSome_iff_exists.mp (isSome_head?.mpr hn.ne_nil)
  obtain ⟨last, hlast⟩ := Option.isSome_iff_exists.mp (getLast?_isSome.mpr hn.ne_nil)
  have hloop : providers.foldlM (fetchChild fingerprint 0 request) [] = .ok children :=
    foldlM_fetchChild [] hchildren (fun p hp hr => hcapable.real hr p hp) hagree
  refine ⟨compositeFields fingerprint metadata request children gaps (combine children) first last,
    combine children, ?_, hn, hp, hmem, ?_, ?_, ⟨rfl, rfl⟩, ?_, ?_, hgaps⟩
  · unfold compose
    rw [hinit, ok_bind]
    unfold CompositeProvider.fetch
    rw [raiseIf_bind_of_not (not_not.mpr (hcapable.provider.trans hid.symm)),
      raiseIf_bind_of_not fun hr => by simp [hreal hr.1] at hr,
      raiseIf_bind_of_not (not_not.mpr htimeframe), raiseIf_bind_of_not (not_not.mpr hmarket),
      raiseIf_bind_of_not fun hs => hs.2 (hsymbol.resolve_left hs.1), hloop, ok_bind, hvalid,
      ok_bind]
    show publish _ _ _ _ _ _ = _
    unfold publish
    rw [hfirst, hlast]
    rfl
  · refine ⟨?_, request.market_ne, request.symbol_ne, ?_⟩
    · show metadata.id ≠ ""
      rw [hid]
      decide
    · intro hnil
      have htext := congrArg String.toList (Option.some.inj hnil)
      simp at htext
  · obtain ⟨digest, hdigest⟩ := exists_mem_of_ne_nil _ child.manifest.valid.2.1
    exact ne_nil_of_mem (mem_flatMap.mpr ⟨child, hchild, hdigest⟩)
  · rw [hfirst]
    rfl
  · rw [hlast]
    rfl

theorem lastBarDelta_eq_iff {timeframe : Timeframe} :
    lastBarDelta timeframe = timeframe.delta ↔ timeframe = .h1 ∨ timeframe = .d1 := by
  cases timeframe <;> decide

variable {bars : List Bar}

theorem Placed.end_le (h : Placed request bars) (hb : b ∈ bars) :
    b.time + request.timeframe.delta ≤ request.stop := by
  have hd := request.timeframe.delta_pos
  have hdvd := request.stop_aligned.sub (h.aligned b hb)
  have hle := Int.le_of_dvd (by linarith [(h.inside b hb).2]) hdvd
  linarith

variable {fields : ManifestFields}

/-- **The manifest passes**, and the dataset is the union, where the last bar is taken to be as long
as it is. -/
theorem Fetched.isUnion (h : Fetched fingerprint request providers fields bars)
    (hdelta : lastBarDelta request.timeframe = request.timeframe.delta) :
    ∃ manifest, compose fingerprint providers request = .ok ⟨.ofBars bars, manifest⟩
      ∧ IsUnion fingerprint request providers bars manifest := by
  obtain ⟨first, hfirst⟩ := Option.isSome_iff_exists.mp (isSome_head?.mpr h.normalized.ne_nil)
  obtain ⟨last, hlast⟩ := Option.isSome_iff_exists.mp (getLast?_isSome.mpr h.normalized.ne_nil)
  have hstart : first.time = fields.deliveredStart := by
    have heq := h.first
    rw [hfirst] at heq
    exact Option.some.inj heq
  have hstop : last.time + request.timeframe.delta = fields.deliveredStop := by
    have heq := h.last
    rw [hlast, hdelta] at heq
    exact Option.some.inj heq
  have hfirstmem : first ∈ bars := mem_of_head? hfirst
  have hlastmem : last ∈ bars := mem_of_getLast? hlast
  have horder : first.time ≤ last.time :=
    ((getLast?_eq_some_iff_of_pairwise _ h.normalized.sorted).mp hlast).2 first hfirstmem
  have hvalid : fields.Valid := by
    refine ⟨h.named, h.raw_ne, ?_, ?_, ?_, ?_⟩
    · rw [h.requested.1, h.requested.2]
      exact request.start_lt
    · linarith [request.timeframe.delta_pos]
    · rw [h.requested.1, ← hstart]
      exact (h.placed.inside first hfirstmem).1
    · rw [h.requested.2, ← hstop]
      exact h.placed.end_le hlastmem
  refine ⟨⟨fields, hvalid⟩, ?_, h.normalized.sorted, h.mem_iff, h.first, ?_, h.gaps.apart,
    h.gaps.count, fun t => (h.gaps.mem_iff t).trans ?_⟩
  · rw [h.compose_eq]
    unfold DataManifest.validate
    rw [dif_pos hvalid]
    rfl
  · rw [← hdelta]
    exact h.last
  · rw [mem_absent, mem_map]
    refine and_congr_right fun _ => ⟨fun hnot b hb htime => ?_, fun hnot hmem => ?_⟩
    · exact hnot ⟨b, (h.mem_iff b).mpr hb, htime⟩
    · obtain ⟨b, hb, htime⟩ := hmem
      exact hnot b ((h.mem_iff b).mp hb) htime

theorem ofBars_injective : Function.Injective Frame.ofBars := by
  intro bars others h
  have hrows : (bars.map fun b => (b.time, b.cell)) = others.map fun b => (b.time, b.cell) :=
    congrArg Frame.rows h
  refine map_injective_iff.mpr (fun b c hbc => ?_) hrows
  have hbar := congrArg toBar hbc
  exact ok.inj ((toBar_cell b).symm.trans (hbar.trans (toBar_cell c)))

/-- Where the last bar is taken for another length, the end of what is delivered is wrong. -/
theorem Fetched.delta_eq (h : Fetched fingerprint request providers fields bars) {bars' : List Bar}
    {manifest : DataManifest}
    (hok : compose fingerprint providers request = .ok ⟨.ofBars bars', manifest⟩)
    (hunion : IsUnion fingerprint request providers bars' manifest) :
    lastBarDelta request.timeframe = request.timeframe.delta := by
  rw [h.compose_eq] at hok
  obtain ⟨manifest', hmanifest, heq⟩ := map_eq_ok.mp hok
  obtain ⟨hframe, rfl⟩ := MarketDataset.mk.inj heq
  obtain rfl := ofBars_injective hframe
  have hfields : manifest'.toManifestFields = fields := by
    unfold DataManifest.validate at hmanifest
    split_ifs at hmanifest with hvalid
    exact congrArg DataManifest.toManifestFields (ok.inj hmanifest).symm
  obtain ⟨last, hlast⟩ := Option.isSome_iff_exists.mp (getLast?_isSome.mpr h.normalized.ne_nil)
  have hright := hunion.last
  have hwrong := h.last
  rw [hfields, hlast] at hright
  rw [hlast, ← hright] at hwrong
  exact add_left_cancel (Option.some.inj hwrong)

end Union

/-- **The composite delivers the union in every order of its providers exactly for hours and
days.** -/
theorem compose_union_iff (fingerprint : List Bar → Datasets.Sha256) (request : DataRequest)
    (providers : List MarketDataProvider) (h : Offers fingerprint request providers) :
    (∃ bars, ∀ order : List MarketDataProvider, order.Perm providers → ∃ manifest,
      compose fingerprint order request = .ok ⟨.ofBars bars, manifest⟩
        ∧ IsUnion fingerprint request providers bars manifest)
      ↔ request.timeframe = .h1 ∨ request.timeframe = .d1 := by
  obtain ⟨fields, bars, hfetched⟩ := h.fetched
  rw [← lastBarDelta_eq_iff]
  constructor
  · intro hunion
    obtain ⟨bars', hunion⟩ := hunion
    obtain ⟨manifest, hok, hunion⟩ := hunion providers (List.Perm.refl providers)
    exact hfetched.delta_eq hok hunion
  · intro hdelta
    refine ⟨bars, fun order hperm => ?_⟩
    obtain ⟨fields', bars', hfetched'⟩ := (h.perm hperm).fetched
    have hmem : ∀ b, b ∈ bars' ↔ b ∈ bars := fun b =>
      (hfetched'.mem_iff b).trans ((isRow_perm hperm).trans (hfetched.mem_iff b).symm)
    obtain rfl : bars' = bars := eq_of_pairwise_rank _ hfetched'.normalized.sorted
      hfetched.normalized.sorted hmem
    obtain ⟨manifest, hok, hunion⟩ := hfetched'.isUnion hdelta
    refine ⟨manifest, hok, hunion.sorted, hfetched.mem_iff, hunion.first, hunion.last,
      hunion.apart, hunion.count, fun t => (hunion.gap_iff t).trans ?_⟩
    exact and_congr_right fun _ => forall_congr' fun b => imp_congr_left (isRow_perm hperm)

section Sample

/-- A digest of a frame: of one of three bars that are hours, or of another. -/
def sampleDigest (bars : List Bar) : Datasets.Sha256 :=
  if bars.length = 3 then
    ⟨"e38cc93b842f1a71fb9895faec58736ae912452c2c60ff97d60969aeb0a217d3", by simp⟩
  else ⟨"2808337db36db5f2f498916d299290a27287c1feaee9b17070eee05418ecb6d4", by simp⟩

variable (timeframe : Timeframe)

def sampleBar (k : ℤ) : Bar :=
  ⟨timeframe.delta * k, 100, 110, 90, 105, 1⟩

variable (all : Bool)

/-- The first, the second and the last of four bars, or the second and the last. -/
def sampleBars : List Bar :=
  if all then [sampleBar timeframe 0, sampleBar timeframe 1, sampleBar timeframe 3]
  else [sampleBar timeframe 1, sampleBar timeframe 3]

/-- Four bars are asked for. -/
def sampleRequest : DataRequest where
  provider := "composite"
  symbol := "BTC/USDT"
  timeframe := timeframe
  start := 0
  stop := timeframe.delta * 4
  market := "spot"
  requireReal := false
  requireComplete := false
  maxMissingRatio := 1
  start_lt := by cases timeframe <;> decide
  start_aligned := dvd_zero _
  stop_aligned := Dvd.intro _ rfl
  symbol_ne := by decide
  market_ne := by decide

/-- A missing bar. -/
def sampleGap (k : ℤ) : DataGap where
  start := timeframe.delta * k
  stop := timeframe.delta * k + timeframe.delta
  missingBars := 1
  missing_pos := by decide
  start_lt := lt_add_of_pos_right _ timeframe.delta_pos

def sampleManifest : DataManifest where
  provider := if all then "first" else "second"
  market := "spot"
  symbol := "BTC/USDT"
  timeframe := timeframe
  requestedStart := 0
  requestedStop := timeframe.delta * 4
  deliveredStart := if all then 0 else timeframe.delta
  deliveredStop := timeframe.delta * 4
  realData := true
  rawSha256 := [sampleDigest []]
  normalizedSha256 := sampleDigest (sampleBars timeframe all)
  source := none
  gaps := if all then [sampleGap timeframe 2] else [sampleGap timeframe 0, sampleGap timeframe 2]
  segments := []
  valid := by cases timeframe <;> cases all <;> decide +kernel

def sampleProvider : MarketDataProvider where
  metadata := ⟨if all then "first" else "second", true, [timeframe], ["spot"], []⟩
  fetch := fun _ => .ok ⟨.ofBars (sampleBars timeframe all), sampleManifest timeframe all⟩

theorem sampleProvider_child :
    ChildOf sampleDigest (sampleRequest timeframe) (sampleProvider timeframe all)
      ⟨sampleBars timeframe all, sampleManifest timeframe all⟩ := by
  refine ⟨_, rfl, ⟨rfl, rfl, rfl, rfl, rfl, rfl⟩, rfl, ?_, rfl⟩
  cases timeframe <;> cases all <;> decide +kernel

/-- Two providers. -/
def sampleProviders : List MarketDataProvider :=
  [sampleProvider timeframe true, sampleProvider timeframe false]

theorem sample_offers :
    Offers sampleDigest (sampleRequest timeframe) (sampleProviders timeframe) := by
  have hchildren : List.Forall₂ (ChildOf sampleDigest (sampleRequest timeframe))
      (sampleProviders timeframe)
      [⟨sampleBars timeframe true, sampleManifest timeframe true⟩,
        ⟨sampleBars timeframe false, sampleManifest timeframe false⟩] :=
    .cons (sampleProvider_child timeframe true) (.cons (sampleProvider_child timeframe false) .nil)
  have hrow : ∀ b, IsRow sampleDigest (sampleRequest timeframe) (sampleProviders timeframe) b →
      b ∈ sampleBars timeframe true := fun b hb => by
    have hb := (isRow_iff hchildren).mp hb
    simp [sampleBars] at hb ⊢
    tauto
  refine ⟨?_, ?_, fun b b' hb hb' htime => ?_, fun times _ => ?_⟩
  · refine served_iff.mpr ⟨by simp [sampleProviders], rfl, nofun, ?_, ?_, ?_, ?_⟩ <;>
      simp [sampleProviders, sampleProvider, sampleRequest]
  · simp only [sampleProviders, forall_mem_cons, not_mem_nil, false_imp_iff, imp_true_iff]
    exact ⟨⟨_, sampleProvider_child timeframe true⟩, ⟨_, sampleProvider_child timeframe false⟩,
      trivial⟩
  · have hall : ∀ b ∈ sampleBars timeframe true, ∀ b' ∈ sampleBars timeframe true,
        b.time = b'.time → b = b' := by
      cases timeframe <;> decide +kernel
    exact hall b (hrow b hb) b' (hrow b' hb') htime
  · exact tolerates_all rfl rfl times

theorem hours_union : ∃ bars, ∀ order : List MarketDataProvider,
    order.Perm (sampleProviders .h1) → ∃ manifest,
      compose sampleDigest order (sampleRequest .h1) = .ok ⟨.ofBars bars, manifest⟩
        ∧ IsUnion sampleDigest (sampleRequest .h1) (sampleProviders .h1) bars manifest :=
  (compose_union_iff sampleDigest (sampleRequest .h1) (sampleProviders .h1)
    (sample_offers .h1)).mpr (.inl rfl)

/-- A last bar of a quarter of an hour is taken for a day. -/
theorem quarters_not_union : ¬ ∀ (fingerprint : List Bar → Datasets.Sha256) (request : DataRequest)
    (providers : List MarketDataProvider), Offers fingerprint request providers →
    ∃ bars, ∀ order : List MarketDataProvider, order.Perm providers → ∃ manifest,
      compose fingerprint order request = .ok ⟨.ofBars bars, manifest⟩
        ∧ IsUnion fingerprint request providers bars manifest := by
  intro h
  obtain ⟨bars, h⟩ := h sampleDigest (sampleRequest .m15) (sampleProviders .m15)
    (sample_offers .m15)
  obtain ⟨manifest, hok, hunion⟩ := h _ (List.Perm.refl _)
  obtain ⟨fields, bars', hfetched⟩ := (sample_offers .m15).fetched
  exact absurd (hfetched.delta_eq hok hunion) (by decide)

end Sample

end Qt.Backtest.Data
