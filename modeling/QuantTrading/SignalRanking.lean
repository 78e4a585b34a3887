import Mathlib.Algebra.Order.BigOperators.Group.List
import Mathlib.Algebra.BigOperators.Ring.List
import Mathlib.Data.List.ReduceOption
import QuantTrading.SignalArchive

/-!
# Signal ranking

`btc_backtest.signals.ranking`: observations are ranked at a time. Of each
source event of a provider one observation is kept, the one with the smallest
id, and another payload for it is refused; what is kept and available at the
time is weighed, series by series, into a direction and a confidence.

The duplicates go first and what is not yet known goes second. So an observation
that is known only later can stand for one that is known already, which is then
ranked without it, or can be the other payload for which everything is refused.
Where the observations are settled (`Settled`), a ranking depends on what is known
and on nothing else (`rank_eq_of_known`).

Numbers are exact, and `ctx` is what the decimal context makes of each result;
the decay of an observation with its age is a parameter, as it is computed with
floats.
-/

namespace Qt.Backtest.Ranking

open Except List

/-! ## Data -/

/-- What a ranking raises: `ValueError`, `ProviderError`, and `ValidationError` of a signal. -/
inductive RankError
  | value (message : String)
  | provider (message : String)
  | validation (message : String)
deriving DecidableEq

structure RankingConfig where
  reliability : String → Option ℚ
  fallbackReliability : ℚ
  halfLifeHours : ℚ
  minProviders : ℕ
  requiredProviders : List String
  reliability_mem : ∀ provider, ∀ value ∈ reliability provider, 0 ≤ value ∧ value ≤ 1
  fallback_mem : 0 ≤ fallbackReliability ∧ fallbackReliability ≤ 1
  halfLife_pos : 0 < halfLifeHours
  minProviders_pos : 1 ≤ minProviders
  required_nodup : requiredProviders.Nodup

structure SignalContributor where
  observationId : String
  provider : String
  sourceType : String
  direction : Decimal
  weight : ℚ
  provenance : String
deriving DecidableEq

structure RankedSignal (T : Type) where
  id : String
  symbol : String
  horizon : String
  direction : ℚ
  confidence : ℚ
  asOf : T
  contributors : List SignalContributor
deriving DecidableEq

/-- The time of a ranking, with or without a time zone. -/
inductive AsOf (T : Type)
  | naive
  | aware (t : T)

/-! ## Ranking -/

def clipUnit (value : ℚ) : ℚ := max 0 (min 1 value)

def clipSigned (value : ℚ) : ℚ := max (-1) (min 1 value)

section Rank

variable {T : Type} [LinearOrder T]

/-- `(value.provider, value.source_event_id, value.id)`. -/
def rankKey (o : SignalObservation T) : String ×ₗ String ×ₗ String :=
  toLex (o.provider, toLex (o.sourceEventId, o.id))

/-- One round of `_deduplicate`. -/
def dedupItem (unique : List (SignalObservation T)) (item : SignalObservation T) :
    Except RankError (List (SignalObservation T)) :=
  match unique.find? (·.identity = item.identity) with
  | none => .ok (unique ++ [item])
  | some existing =>
    if existing.payloadSha256 ≠ item.payloadSha256 then
      .error (.provider "conflicting duplicate signal observation")
    else .ok unique

def deduplicate (observations : List (SignalObservation T)) :
    Except RankError (List (SignalObservation T)) :=
  (observations.orderBy rankKey).foldlM dedupItem []

/-- The observation is known, effective and not expired. -/
def Available (t : T) (o : SignalObservation T) : Prop :=
  o.observedAt ≤ t ∧ o.effectiveAt ≤ t ∧ t < o.expiresAt
deriving Decidable

/-- `(item.symbol, item.horizon)`. -/
def series (o : SignalObservation T) : String × String := (o.symbol, o.horizon)

/-- `groups`: the items of each series, in the order in which the series come up. -/
def groups (items : List (SignalObservation T)) :
    List ((String × String) × List (SignalObservation T)) :=
  (items.firsts series).map fun first =>
    (series first, items.filter fun o => series o = series first)

variable (config : RankingConfig) (ctx : ℚ → ℚ) (decay : ℚ → T → T → ℚ) (isoformat : T → String)

def weight (t : T) (o : SignalObservation T) : ℚ :=
  clipUnit (ctx (ctx ((config.reliability o.provider).getD config.fallbackReliability
    * o.confidence.value) * decay config.halfLifeHours t o.observedAt))

/-- `sum(…, start=_ZERO)`. -/
def total (values : List ℚ) : ℚ := values.foldl (fun acc value => ctx (acc + value)) 0

def contributor (t : T) (o : SignalObservation T) : SignalContributor where
  observationId := o.id
  provider := o.provider
  sourceType := o.sourceType
  direction := o.direction
  weight := weight config ctx decay t o
  provenance := o.provenance

/-- `direction` of the weighted items. -/
def direction (t : T) (items : List (SignalObservation T)) : ℚ :=
  clipSigned (ctx (total ctx (items.map fun o =>
      ctx (o.direction.value * weight config ctx decay t o))
    / total ctx (items.map (weight config ctx decay t))))

/-- `confidence` of the weighted items. -/
def confidence (t : T) (items : List (SignalObservation T)) : ℚ :=
  let totalWeight := total ctx (items.map (weight config ctx decay t))
  let disagreement := ctx (total ctx (items.map fun o => ctx (weight config ctx decay t o
    * ctx |ctx (o.direction.value - direction config ctx decay t items)|)) / totalWeight)
  let agreement := clipUnit (ctx (1 - disagreement))
  let baseConfidence := clipUnit (ctx (totalWeight / items.length))
  clipUnit (ctx (baseConfidence * agreement))

/-- The signal of a series, from its items in order. -/
def signal (t : T) (s : String × String) (items : List (SignalObservation T)) : RankedSignal T where
  id := "consensus:" ++ s.1 ++ ":" ++ s.2 ++ ":" ++ isoformat t
  symbol := s.1
  horizon := s.2
  direction := direction config ctx decay t items
  confidence := confidence config ctx decay t items
  asOf := t
  contributors := items.map (contributor config ctx decay t)

/-- `_rank_group`. A signal with one contributor twice is refused by its validator. -/
def rankGroup (t : T) (s : String × String) (items : List (SignalObservation T)) :
    Except RankError (Option (RankedSignal T)) :=
  let weighted := items.orderBy rankKey
  if total ctx (weighted.map (weight config ctx decay t)) = 0 then .ok none
  else do
    let result := signal config ctx decay isoformat t s weighted
    raiseIf (¬ (result.contributors.map (·.observationId)).Nodup)
      (.validation "ranked contributors must be unique")
    return some result

/-- One round of `rank`, on the items of a series. -/
def rankSeries (t : T) (g : (String × String) × List (SignalObservation T)) :
    Except RankError (Option (RankedSignal T)) :=
  let providers := g.2.map (·.provider)
  if providers.dedup.length < config.minProviders then .ok none
  else if ¬ config.requiredProviders ⊆ providers then .ok none
  else rankGroup config ctx decay isoformat t g.1 g.2

/-- The key that signals are sorted by. -/
def signalKey (s : RankedSignal T) : ℚ ×ₗ ℚ ×ₗ String ×ₗ String ×ₗ String :=
  toLex (-|s.direction|, toLex (-s.confidence, toLex (s.symbol, toLex (s.horizon, s.id))))

/-- The ranking of what is kept and available. -/
def rankAvailable (t : T) (items : List (SignalObservation T)) :
    Except RankError (List (RankedSignal T)) := do
  let ranked ← (groups items).mapM (rankSeries config ctx decay isoformat t)
  return ranked.reduceOption.orderBy signalKey

def rank (observations : List (SignalObservation T)) :
    AsOf T → Except RankError (List (RankedSignal T))
  | .naive => .error (.value "ranking as_of must be timezone-aware")
  | .aware t => do
    let unique ← deduplicate observations
    rankAvailable config ctx decay isoformat t (unique.filter (Available t))

end Rank

/-! ## What is kept -/

section Kept

variable {T : Type} [LinearOrder T] {t : T}

/-- A round raises for what a merge of batches raises for, with another exception. -/
theorem dedupItem_eq (unique : List (SignalObservation T)) (item : SignalObservation T) :
    dedupItem unique item = (mergeItem unique item).mapError fun _ =>
      .provider "conflicting duplicate signal observation" := by
  unfold dedupItem mergeItem
  cases hfind : unique.find? (·.identity = item.identity) with
  | none =>
    have hnew : item.identity ∉ unique.map (·.identity) := by
      intro hmem
      obtain ⟨prior, hprior, hid⟩ := mem_map.mp hmem
      have := List.find?_eq_none.mp hfind prior hprior
      simp [hid] at this
    show _ = Except.ok (setIdentity unique item)
    rw [setIdentity, if_neg hnew]
  | some prior =>
    show (if _ then _ else _) = Except.mapError _ (if _ then _ else _)
    split_ifs <;> rfl

theorem foldlM_dedupItem (l acc : List (SignalObservation T)) :
    l.foldlM dedupItem acc = (l.foldlM mergeItem acc).mapError fun _ =>
      .provider "conflicting duplicate signal observation" := by
  induction l generalizing acc with
  | nil => rfl
  | cons item l ih =>
    rw [foldlM_cons, foldlM_cons, dedupItem_eq]
    cases mergeItem acc item with
    | error e => rfl
    | ok next => exact ih next

variable (l : List (SignalObservation T))

/-- What `_deduplicate` keeps: of each source event what comes first in the order of ids. -/
def kept : List (SignalObservation T) :=
  (l.orderBy rankKey).firsts (·.identity)

variable {l}

theorem consistent_orderBy : Consistent (l.orderBy rankKey) ↔ Consistent l := by
  unfold Consistent
  simp only [mem_orderBy]

variable (l)

theorem deduplicate_eq [Decidable (Consistent l)] :
    deduplicate l = if Consistent l then .ok (kept l)
      else .error (.provider "conflicting duplicate signal observation") := by
  have hmerge := fun out =>
    @foldlM_mergeItem_eq_ok T _ [] (l.orderBy rankKey) out nodup_nil
  rw [nil_append, consistent_orderBy] at hmerge
  rw [deduplicate, foldlM_dedupItem]
  split_ifs with h
  · rw [(hmerge _).mpr ⟨rfl, h⟩]
    rfl
  · cases hfold : (l.orderBy rankKey).foldlM mergeItem [] with
    | error e => rfl
    | ok out => exact absurd ((hmerge out).mp hfold).2 h

/-- **Replays are replays**: a provider's source event under one id is one observation. -/
def Replays : Prop :=
  ∀ a ∈ l, ∀ b ∈ l, rankKey a = rankKey b → a = b

theorem rankKey_le_iff {a b : SignalObservation T} (h : a.identity = b.identity) :
    rankKey a ≤ rankKey b ↔ a.id ≤ b.id := by
  obtain ⟨hprovider, hevent⟩ := Prod.ext_iff.mp h
  simp only [Observation.identity] at hprovider hevent
  simp [rankKey, Prod.Lex.toLex_le_toLex, hprovider, hevent]

variable {o : SignalObservation T} {l}

/-- **What is kept has the smallest id** of its source event. -/
theorem mem_kept (h : Replays l) :
    o ∈ kept l ↔ o ∈ l ∧ ∀ b ∈ l, b.identity = o.identity → o.id ≤ b.id := by
  rw [kept, mem_firsts_iff_of_le _ (pairwise_orderBy rankKey l) fun a ha b hb =>
    h a (mem_orderBy.mp ha) b (mem_orderBy.mp hb)]
  simp only [mem_orderBy]
  refine and_congr_right fun _ => forall₂_congr fun b _ => forall_congr' fun hid => ?_
  exact rankKey_le_iff hid.symm

variable (l)

/-- One observation for each source event, in the order of providers and events. -/
theorem pairwise_kept : (kept l).Pairwise fun a b => toLex a.identity < toLex b.identity := by
  have hne : (kept l).Pairwise fun a b => a.identity ≠ b.identity :=
    pairwise_map.mp (nodup_map_firsts _ _)
  have hle : (kept l).Pairwise fun a b => rankKey a ≤ rankKey b :=
    (pairwise_orderBy rankKey l).sublist (firsts_sublist _ _)
  refine (hle.and hne).imp fun {a b} h => lt_of_le_of_ne ?_ fun heq => h.2 (toLex.injective heq)
  obtain ⟨hle, -⟩ := h
  simp only [rankKey, Prod.Lex.toLex_le_toLex] at hle
  simp only [Prod.Lex.toLex_le_toLex, Observation.identity]
  exact hle.imp id fun h => ⟨h.1, h.2.elim le_of_lt fun h => h.1.le⟩

/-- What is known at the time. -/
def known (t : T) (l : List (SignalObservation T)) : List (SignalObservation T) :=
  l.filter fun o => o.observedAt ≤ t

variable {l}

theorem mem_known : o ∈ known t l ↔ o ∈ l ∧ o.observedAt ≤ t := by
  rw [known, mem_filter, decide_eq_true_iff]

/-- The observation is available, and the first that is known of its source event. -/
def Contributes (t : T) (l : List (SignalObservation T)) (o : SignalObservation T) : Prop :=
  o ∈ known t l ∧ Available t o ∧ ∀ b ∈ known t l, b.identity = o.identity → o.id ≤ b.id

/-- **Settled at the time**: what becomes known later has the payload of what is
known, and it does not come in front of what contributes. -/
structure Settled (t : T) (l : List (SignalObservation T)) : Prop where
  replays : Replays l
  consistent : Consistent l
  later : ∀ a, Contributes t l a → ∀ b ∈ l, t < b.observedAt → b.identity = a.identity → a.id ≤ b.id

/-- **What is known decides** what of settled observations is kept and available. -/
theorem mem_filter_kept (h : Settled t l) :
    o ∈ (kept l).filter (Available t) ↔ Contributes t l o := by
  rw [mem_filter, decide_eq_true_iff, mem_kept h.replays]
  constructor
  · rintro ⟨⟨ho, hfirst⟩, havailable⟩
    exact ⟨mem_known.mpr ⟨ho, havailable.1⟩, havailable, fun b hb => hfirst b (mem_known.mp hb).1⟩
  · intro hcontributes
    have ⟨ho, havailable, hfirst⟩ := hcontributes
    refine ⟨⟨(mem_known.mp ho).1, fun b hb hid => ?_⟩, havailable⟩
    rcases le_or_gt b.observedAt t with hle | hlt
    · exact hfirst b (mem_known.mpr ⟨hb, hle⟩) hid
    · exact h.later o hcontributes b hb hlt hid

/-- The order of what is kept is that of providers and events. -/
theorem filter_kept_eq {l' : List (SignalObservation T)} (h : Settled t l) (h' : Settled t l')
    (hknown : (known t l).Perm (known t l')) :
    (kept l).filter (Available t) = (kept l').filter (Available t) := by
  refine eq_of_pairwise_rank (fun o : SignalObservation T => toLex o.identity)
    ((pairwise_kept l).filter _) ((pairwise_kept l').filter _) fun o => ?_
  rw [mem_filter_kept h, mem_filter_kept h']
  unfold Contributes
  simp only [hknown.mem_iff]

end Kept

/-! ## Known observations -/

section Causal

variable {T : Type} [LinearOrder T] (config : RankingConfig) (ctx : ℚ → ℚ)
  (decay : ℚ → T → T → ℚ) (isoformat : T → String) {t : T} {l l' : List (SignalObservation T)}

theorem Consistent.known (h : Consistent l) : Consistent (known t l) := fun a ha b hb =>
  h a (mem_known.mp ha).1 b (mem_known.mp hb).1

theorem consistent_congr (h : l.Perm l') : Consistent l ↔ Consistent l' := by
  unfold Consistent
  simp only [h.mem_iff]

theorem rank_of_consistent (h : Consistent l) : rank config ctx decay isoformat l (.aware t)
    = rankAvailable config ctx decay isoformat t ((kept l).filter (Available t)) := by
  classical
  rw [rank, deduplicate_eq, if_pos h]
  rfl

/-- **Two payloads for one source event** are refused. -/
theorem rank_of_not_consistent (h : ¬ Consistent l) : rank config ctx decay isoformat l (.aware t)
      = .error (.provider "conflicting duplicate signal observation") := by
  classical
  rw [rank, deduplicate_eq, if_neg h]
  rfl

/-- **Not affected by what becomes known later**: the observations are settled, or what is
known of them is refused already. -/
def Unaffected (t : T) (l : List (SignalObservation T)) : Prop :=
  ¬ Consistent (known t l) ∨ Settled t l

/-- **What is known decides a ranking**, in whatever order it is listed. -/
theorem rank_eq_of_known (h : Unaffected t l) (h' : Unaffected t l')
    (hknown : (known t l).Perm (known t l')) : rank config ctx decay isoformat l (.aware t)
      = rank config ctx decay isoformat l' (.aware t) := by
  by_cases hconsistent : Consistent (known t l)
  · have hsettled := h.resolve_left (not_not.mpr hconsistent)
    have hsettled' := h'.resolve_left (not_not.mpr ((consistent_congr hknown).mp hconsistent))
    rw [rank_of_consistent _ _ _ _ hsettled.consistent,
      rank_of_consistent _ _ _ _ hsettled'.consistent, filter_kept_eq hsettled hsettled' hknown]
  · have hno : ¬ Consistent l := fun hl => hconsistent (Consistent.known hl)
    have hno' : ¬ Consistent l' := fun hl =>
      hconsistent ((consistent_congr hknown).mpr (Consistent.known hl))
    rw [rank_of_not_consistent _ _ _ _ hno, rank_of_not_consistent _ _ _ _ hno']

/-! ## Signals -/

variable {items : List (SignalObservation T)} {g : (String × String) × List (SignalObservation T)}

theorem mem_groups (h : g ∈ groups items) : g.2 = items.filter fun o => series o = g.1 := by
  obtain ⟨first, -, rfl⟩ := mem_map.mp h
  rfl

variable {s : RankedSignal T} {signals : List (RankedSignal T)}

/-- **The signals of a ranking**: one for each series that is ranked. -/
theorem mem_rankAvailable (h : rankAvailable config ctx decay isoformat t items = .ok signals) :
    s ∈ signals ↔ ∃ g ∈ groups items, rankSeries config ctx decay isoformat t g = .ok (some s) := by
  obtain ⟨ranked, hranked, h⟩ := of_bind h
  obtain rfl := ok.inj h
  rw [mem_orderBy, reduceOption_mem_iff, mem_of_mapM_eq_ok hranked]

theorem rankSeries_eq_some (h : rankSeries config ctx decay isoformat t g = .ok (some s)) :
    total ctx ((g.2.orderBy rankKey).map (weight config ctx decay t)) ≠ 0
      ∧ s = signal config ctx decay isoformat t g.1 (g.2.orderBy rankKey) := by
  unfold rankSeries at h
  dsimp only at h
  split_ifs at h with hmin hrequired
  · exact absurd (ok.inj h) (by simp)
  · unfold rankGroup at h
    dsimp only at h
    split_ifs at h with htotal
    · exact absurd (ok.inj h) (by simp)
    · obtain ⟨-, h⟩ := of_raiseIf h
      exact ⟨htotal, (Option.some.inj (ok.inj h)).symm⟩
  · exact absurd (ok.inj h) (by simp)

/-- The ranking of what is kept does not refuse a payload. -/
theorem rankAvailable_eq_error {e : RankError}
    (h : rankAvailable config ctx decay isoformat t items = .error e) :
    e = .validation "ranked contributors must be unique" := by
  unfold rankAvailable at h
  cases hranked : (groups items).mapM (rankSeries config ctx decay isoformat t) with
  | ok ranked =>
    rw [hranked] at h
    cases h
  | error e' =>
    rw [hranked] at h
    obtain rfl := Except.error.inj h
    obtain ⟨g, -, hround⟩ := exists_of_mapM_eq_error hranked
    unfold rankSeries rankGroup at hround
    dsimp only at hround
    split_ifs at hround with hmin hrequired htotal
    unfold raiseIf at hround
    split_ifs at hround with hnodup
    · cases hround
    · exact (Except.error.inj hround).symm

section

variable (h : rank config ctx decay isoformat l (.aware t) = .ok signals) (hs : s ∈ signals)
include h hs

/-- **Where a signal comes from**: what is kept and available of its series. -/
theorem exists_of_mem_rank :
    Consistent l ∧ total ctx ((((kept l).filter (Available t)).filter fun o =>
        series o = (s.symbol, s.horizon)).orderBy rankKey |>.map (weight config ctx decay t)) ≠ 0
      ∧ s = signal config ctx decay isoformat t (s.symbol, s.horizon)
        ((((kept l).filter (Available t)).filter fun o =>
          series o = (s.symbol, s.horizon)).orderBy rankKey) := by
  have hconsistent : Consistent l := by
    by_contra hno
    rw [rank_of_not_consistent _ _ _ _ hno] at h
    cases h
  rw [rank_of_consistent _ _ _ _ hconsistent] at h
  obtain ⟨g, hg, hround⟩ := (mem_rankAvailable _ _ _ _ h).mp hs
  obtain ⟨htotal, heq⟩ := rankSeries_eq_some _ _ _ _ hround
  have hseries : (s.symbol, s.horizon) = g.1 := by
    rw [heq]
    rfl
  rw [hseries, ← mem_groups hg]
  exact ⟨hconsistent, htotal, heq⟩

/-- What contributes to a signal is kept, available, and of its series. -/
theorem mem_contributors {c : SignalContributor} :
    c ∈ s.contributors ↔ ∃ o ∈ kept l, Available t o ∧ series o = (s.symbol, s.horizon)
      ∧ c = contributor config ctx decay t o := by
  obtain ⟨-, -, heq⟩ := exists_of_mem_rank _ _ _ _ h hs
  rw [heq]
  show c ∈ List.map _ _ ↔ _
  simp only [mem_map, mem_orderBy, mem_filter, decide_eq_true_iff]
  constructor
  · rintro ⟨o, ⟨⟨ho, havailable⟩, hseries⟩, rfl⟩
    exact ⟨o, ho, havailable, hseries, rfl⟩
  · rintro ⟨o, ho, havailable, hseries, rfl⟩
    exact ⟨o, ⟨⟨ho, havailable⟩, hseries⟩, rfl⟩

end

variable {v w : SignalObservation T}

/-- Fewer are kept and available than of what is known, when a replay that is known later
comes in front. -/
theorem filter_kept_ssubset (hreplays : Replays l) (hv : Contributes t l v) (hw : w ∈ l)
    (hid : w.identity = v.identity) (hlt : w.id < v.id) :
    v ∈ (kept (known t l)).filter (Available t) ∧ v ∉ (kept l).filter (Available t)
      ∧ ∀ o ∈ (kept l).filter (Available t), o ∈ (kept (known t l)).filter (Available t) := by
  have hreplays' : Replays (known t l) := fun a ha b hb =>
    hreplays a (mem_known.mp ha).1 b (mem_known.mp hb).1
  obtain ⟨hv, havailable, hfirst⟩ := hv
  simp only [mem_filter, decide_eq_true_iff, mem_kept hreplays, mem_kept hreplays']
  refine ⟨⟨⟨hv, hfirst⟩, havailable⟩, ?_, ?_⟩
  · rintro ⟨⟨-, hall⟩, -⟩
    exact absurd hlt (not_lt.mpr (hall w hw hid))
  · rintro o ⟨⟨ho, hall⟩, hoavailable⟩
    exact ⟨⟨mem_known.mpr ⟨ho, hoavailable.1⟩, fun b hb => hall b (mem_known.mp hb).1⟩, hoavailable⟩

/-- **A replay that is known only later changes a ranking** when it comes in front of an
observation that contributes. -/
theorem rank_ne_of_hidden (hreplays : Replays l) (hv : Contributes t l v) (hw : w ∈ l)
    (hid : w.identity = v.identity) (hlt : w.id < v.id)
    (h : rank config ctx decay isoformat (known t l) (.aware t) = .ok signals)
    (hs : ∃ s ∈ signals, (s.symbol, s.horizon) = series v) :
    rank config ctx decay isoformat l (.aware t) ≠ .ok signals := by
  intro hsame
  obtain ⟨s, hs, hseries⟩ := hs
  obtain ⟨hin, hout, hsub⟩ := filter_kept_ssubset hreplays hv hw hid hlt
  obtain ⟨-, -, hfew⟩ := exists_of_mem_rank _ _ _ _ hsame hs
  obtain ⟨-, -, hall⟩ := exists_of_mem_rank _ _ _ _ h hs
  have hlengths := congrArg (fun s : RankedSignal T => s.contributors.length) (hfew.symm.trans hall)
  simp only [signal, length_map, length_orderBy] at hlengths
  have hnodup : ((kept l).filter (Available t)).Nodup :=
    ((pairwise_kept l).filter _).imp fun {a b} hab heq => by
      rw [heq] at hab
      exact lt_irrefl _ hab
  -- What is kept is, with the hidden observation, among what is kept of what is known.
  have hcons : (v :: ((kept l).filter (Available t)).filter fun o =>
      series o = (s.symbol, s.horizon)).Nodup := by
    refine nodup_cons.mpr ⟨fun hmem => hout (mem_filter.mp hmem).1, hnodup.filter _⟩
  have hincl : (v :: ((kept l).filter (Available t)).filter fun o =>
      series o = (s.symbol, s.horizon)) ⊆ ((kept (known t l)).filter (Available t)).filter fun o =>
        series o = (s.symbol, s.horizon) := by
    intro o ho
    rcases mem_cons.mp ho with rfl | ho
    · exact mem_filter.mpr ⟨hin, decide_eq_true hseries.symm⟩
    · obtain ⟨ho, hof⟩ := mem_filter.mp ho
      exact mem_filter.mpr ⟨hsub o ho, hof⟩
  have hle := (subperm_of_subset hcons hincl).length_le
  rw [length_cons, hlengths] at hle
  omega

end Causal

/-! ## Bounds -/

section Bounds

variable {α : Type} {d w : α → ℚ}

/-- **A weighted mean is not below every value.** -/
theorem exists_le_mean {l : List α} (hw : ∀ a ∈ l, 0 ≤ w a) (hsum : (l.map w).sum ≠ 0) :
    ∃ a ∈ l, d a ≤ (l.map fun a => d a * w a).sum / (l.map w).sum := by
  by_contra hall
  push Not at hall
  set mean := (l.map fun a => d a * w a).sum / (l.map w).sum with hmean
  obtain ⟨b, hb, hwb⟩ : ∃ b ∈ l, w b ≠ 0 := by
    by_contra hnone
    push Not at hnone
    refine hsum (sum_eq_zero fun x hx => ?_)
    obtain ⟨a, ha, rfl⟩ := mem_map.mp hx
    exact hnone a ha
  have hlt : (l.map fun a => mean * w a).sum < (l.map fun a => d a * w a).sum := by
    refine sum_lt_sum _ _ (fun a ha => ?_) ⟨b, hb, ?_⟩
    · exact mul_le_mul_of_nonneg_right (hall a ha).le (hw a ha)
    · exact mul_lt_mul_of_pos_right (hall b hb) ((hw b hb).lt_of_ne' hwb)
  rw [sum_map_mul_left, hmean, div_mul_cancel₀ _ hsum] at hlt
  exact absurd hlt (lt_irrefl _)

theorem exists_mean_le {l : List α} (hw : ∀ a ∈ l, 0 ≤ w a) (hsum : (l.map w).sum ≠ 0) :
    ∃ a ∈ l, (l.map fun a => d a * w a).sum / (l.map w).sum ≤ d a := by
  obtain ⟨a, ha, hle⟩ := exists_le_mean (d := fun a => -d a) hw hsum
  refine ⟨a, ha, ?_⟩
  have hneg : (l.map fun a => -d a * w a).sum = -(l.map fun a => d a * w a).sum := by
    rw [neg_eq_neg_one_mul, ← sum_map_mul_left]
    simp
  rw [hneg, neg_div] at hle
  exact neg_le_neg_iff.mp hle

theorem clipUnit_mem (x : ℚ) : 0 ≤ clipUnit x ∧ clipUnit x ≤ 1 :=
  ⟨le_max_left _ _, max_le zero_le_one (min_le_left _ _)⟩

theorem total_id (values : List ℚ) : total id values = values.sum :=
  (sum_eq_foldl ..).symm

variable {T : Type} [LinearOrder T] (config : RankingConfig) (decay : ℚ → T → T → ℚ)
  (isoformat : T → String) {t : T} {l : List (SignalObservation T)}

/-- **A direction is between those that contribute**, where numbers are exact. -/
theorem direction_between {items : List (SignalObservation T)}
    (h : total id (items.map (weight config id decay t)) ≠ 0) :
    (∃ o ∈ items, o.direction.value ≤ direction config id decay t items)
      ∧ ∃ o ∈ items, direction config id decay t items ≤ o.direction.value := by
  rw [total_id] at h
  have hnonneg : ∀ o ∈ items, 0 ≤ weight config id decay t o := fun o _ => (clipUnit_mem _).1
  obtain ⟨a, ha, hlow⟩ := exists_le_mean (d := fun o : SignalObservation T => o.direction.value)
    hnonneg h
  obtain ⟨b, hb, hhigh⟩ := exists_mean_le (d := fun o : SignalObservation T => o.direction.value)
    hnonneg h
  have hdirection : direction config id decay t items
      = (items.map fun o => o.direction.value * weight config id decay t o).sum
        / (items.map (weight config id decay t)).sum := by
    unfold direction clipSigned
    rw [total_id, total_id]
    have habove := a.valid.direction.1.trans hlow
    have hbelow := hhigh.trans b.valid.direction.2
    exact (max_eq_right (le_min (by norm_num) habove)).trans (min_eq_right hbelow)
  rw [hdirection]
  exact ⟨⟨a, ha, hlow⟩, ⟨b, hb, hhigh⟩⟩

/-- **Ranking by what is known.** Where observations are not affected by what becomes known
later, a ranking depends on what is known and not on its order. It does depend on more where
they are: another payload that is known later is refused with everything, and a replay that is
known later takes the place of an observation which contributes. In every ranking a direction is
between those that contribute, a confidence is in `[0, 1]`, and what contributes is available. -/
theorem rank_causal (config : RankingConfig) (ctx : ℚ → ℚ) (decay : ℚ → T → T → ℚ)
    (isoformat : T → String) :
    (∀ l l' t, Unaffected t l → Unaffected t l' → (known t l).Perm (known t l') →
      rank config ctx decay isoformat l (.aware t) = rank config ctx decay isoformat l' (.aware t))
    ∧ (∀ l t, Consistent (known t l) → ¬ Consistent l → rank config ctx decay isoformat l (.aware t)
        ≠ rank config ctx decay isoformat (known t l) (.aware t))
    ∧ (∀ l t signals v, Replays l → Contributes t l v →
      (∃ w ∈ l, w.identity = v.identity ∧ w.id < v.id) →
      rank config ctx decay isoformat (known t l) (.aware t) = .ok signals →
      (∃ s ∈ signals, (s.symbol, s.horizon) = series v) →
      rank config ctx decay isoformat l (.aware t) ≠ .ok signals)
    ∧ (∀ l, rank config ctx decay isoformat l .naive
      = .error (.value "ranking as_of must be timezone-aware"))
    ∧ (∀ l t signals, rank config id decay isoformat l (.aware t) = .ok signals → ∀ s ∈ signals,
      (∃ c ∈ s.contributors, c.direction.value ≤ s.direction)
      ∧ (∃ c ∈ s.contributors, s.direction ≤ c.direction.value)
      ∧ 0 ≤ s.confidence ∧ s.confidence ≤ 1
      ∧ ∀ c ∈ s.contributors, ∃ o ∈ l, Available t o ∧ c = contributor config id decay t o) := by
  refine ⟨fun l l' t h h' hknown => rank_eq_of_known _ _ _ _ h h' hknown, ?_, ?_, fun _ => rfl, ?_⟩
  · intro l t hknown hno heq
    rw [rank_of_not_consistent _ _ _ _ hno, rank_of_consistent _ _ _ _ hknown] at heq
    exact absurd (rankAvailable_eq_error _ _ _ _ heq.symm) (by simp)
  · rintro l t signals v hreplays hv ⟨w, hw, hid, hlt⟩ h hs
    exact rank_ne_of_hidden _ _ _ _ hreplays hv hw hid hlt h hs
  · intro l t signals h s hs
    have hcontributes := fun c => mem_contributors _ _ _ _ h hs (c := c)
    obtain ⟨-, htotal, heq⟩ := exists_of_mem_rank _ _ _ _ h hs
    have hsource : ∀ c ∈ s.contributors,
        ∃ o ∈ l, Available t o ∧ c = contributor config id decay t o := by
      intro c hc
      obtain ⟨o, ho, havailable, -, rfl⟩ := (hcontributes c).mp hc
      exact ⟨o, mem_orderBy.mp ((firsts_sublist _ _).subset ho), havailable, rfl⟩
    obtain ⟨⟨a, ha, hlow⟩, ⟨b, hb, hhigh⟩⟩ := direction_between config decay htotal
    have hconfidence : 0 ≤ s.confidence ∧ s.confidence ≤ 1 := by
      rw [heq]
      exact clipUnit_mem _
    refine ⟨?_, ?_, hconfidence.1, hconfidence.2, hsource⟩
    · rw [heq]
      exact ⟨_, mem_map_of_mem ha, hlow⟩
    · rw [heq]
      exact ⟨_, mem_map_of_mem hb, hhigh⟩

end Bounds

/-! ## Two rankings -/

section Runs

/-- An observation that is known at 24 hours, and a replay of it under a smaller id that is
known an hour later. -/
def observationAt (later : Bool) : SignalObservation ℕ where
  id := if later then "a" else "b"
  sourceEventId := "sentiment-1"
  provider := "network"
  sourceType := "sentiment"
  symbol := "BTC/USD"
  horizon := "1d"
  direction := ⟨false, 1, 0⟩
  confidence := ⟨false, 8, -1⟩
  rawValue := none
  observedAt := if later then 25 else 24
  effectiveAt := 24
  expiresAt := 48
  provenance := "signals.example"
  payloadSha256 := "0000000000000000000000000000000000000000000000000000000000000000"
  qualityFlags := []
  stripped_eq := by cases later <;> decide +kernel
  valid := by cases later <;> decide +kernel

/-- `RankingConfig()`. -/
def defaultConfig : RankingConfig where
  reliability _ := none
  fallbackReliability := 1 / 2
  halfLifeHours := 24
  minProviders := 1
  requiredProviders := []
  reliability_mem := by simp
  fallback_mem := by norm_num
  halfLife_pos := by norm_num
  minProviders_pos := le_rfl
  required_nodup := nodup_nil

/-- **A replay that is known later hides an observation**: the event is ranked at its time by
itself, and not with the replay. -/
theorem late_replay_hides :
    ¬ ∀ (l l' : List (SignalObservation ℕ)) (t : ℕ), (known t l).Perm (known t l') →
      rank defaultConfig id (fun _ _ _ => 1) (fun _ => "now") l (.aware t)
        = rank defaultConfig id (fun _ _ _ => 1) (fun _ => "now") l' (.aware t) := by
  intro h
  have hknown : known 24 [observationAt false]
      = known 24 [observationAt false, observationAt true] := by
    decide +kernel
  have hsame := congrArg (fun r => r.toOption.map List.length)
    (h [observationAt false] [observationAt false, observationAt true] 24
      (hknown ▸ List.Perm.refl _))
  revert hsame
  decide +kernel

end Runs

end Qt.Backtest.Ranking
