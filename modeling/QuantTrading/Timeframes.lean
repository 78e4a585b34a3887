import Mathlib.Data.Int.ConditionallyCompleteOrder
import QuantTrading.TargetWeight

/-!
# Coarser timeframes

The resampled branch of `_frame_for_indicator` in `qt.workbench.strategy_factory`: the visible bars
are put into buckets, closed and labelled at the right, and a bucket is shown once its label is not
after the time of the context. What a bucket has in it depends on the bars that are visible.

`EventRunner` takes the opening time of the last visible bar for the context, and then a bucket is
shown when no bar of it is left to come. `CausalStrategyBridge` takes the closing time of that bar,
which is the opening time of the next one, and a bar that opens at a label belongs to that bucket.
-/

namespace Qt.Workbench

open Backtest List

/-- **Buckets** of pandas, closed and labelled at the right: a bar is in the bucket of its label,
which is not before it. -/
structure Buckets where
  label : ℤ → ℤ
  mono : Monotone label
  le_label : ∀ t, t ≤ label t

/-- The row of a bucket; one without bars is dropped. -/
def aggregate (label : ℤ) : List Bar → Option Bar
  | [] => none
  | first :: rest => some
    { timestamp := label
      openPrice := first.openPrice
      high := (rest.map Bar.high).foldl max first.high
      low := (rest.map Bar.low).foldl min first.low
      close := (rest.getLastD first).close
      volume := ((first :: rest).map Bar.volume).sum }

/-- A driver of the strategy: the time that it gives the context of a bar. -/
inductive Driver
  | eventRunner
  | bridge (interval : ℤ)

/-- The time of the context, by the opening time of the last visible bar. -/
def Driver.active : Driver → ℤ → ℤ
  | eventRunner, t => t
  | bridge interval, t => t + interval

variable (b : Buckets) (d : Driver) (frame : List Bar)

def bucket (bars : List Bar) (label : ℤ) : List Bar :=
  bars.filter fun bar => b.label bar.timestamp = label

/-- The labels of some bars. -/
def labels (bars : List Bar) : List ℤ := (bars.map fun bar => b.label bar.timestamp).dedup

/-- The labels that are shown at a time. -/
def shown (active : ℤ) (bars : List Bar) : List ℤ := (labels b bars).filter (· ≤ active)

/-- **`_frame_for_indicator`** of a coarser timeframe without external bars. -/
def resampledFrame (active : ℤ) (bars : List Bar) : List Bar :=
  (shown b active bars).filterMap fun label => aggregate label (bucket b bars label)

/-- The time of the context of a decision. -/
def activeAt (i : ℕ) : ℤ := d.active ((frame.map Bar.timestamp).getD i 0)

/-- **The frames do not repaint**: one that is shown is a prefix of all later ones, and its buckets
have all their bars. -/
structure NeverRepaints : Prop where
  isPrefix : ∀ i j, i ≤ j → j < frame.length →
    resampledFrame b (activeAt d frame i) (frame.take (i + 1)) <+:
      resampledFrame b (activeAt d frame j) (frame.take (j + 1))
  complete : ∀ i < frame.length, ∀ label ∈ shown b (activeAt d frame i) (frame.take (i + 1)),
    bucket b (frame.take (i + 1)) label = bucket b frame label

/-- **No bucket is shown early**: where the bucket of a bar is shown with it, the next bar is in
another. -/
def NeverEarly : Prop :=
  ∀ i (hi : i + 1 < frame.length),
    b.label frame[i].timestamp ≤ d.active frame[i].timestamp →
      b.label frame[i + 1].timestamp ≠ b.label frame[i].timestamp

variable {b d frame} {active : ℤ} {i : ℕ}

theorem mem_shown {label : ℤ} : label ∈ shown b active (frame.take (i + 1)) ↔
    label ≤ active ∧ ∃ k, ∃ hk : k < frame.length, k ≤ i ∧ b.label frame[k].timestamp = label := by
  unfold shown labels
  rw [mem_filter, mem_dedup, mem_map, decide_eq_true_iff, and_comm]
  refine and_congr_right fun _ => ⟨?_, ?_⟩
  · rintro ⟨bar, hbar, rfl⟩
    obtain ⟨k, hk, rfl⟩ := mem_take_iff_getElem.mp hbar
    exact ⟨k, (lt_min_iff.mp hk).2, Nat.le_of_lt_succ (lt_min_iff.mp hk).1, rfl⟩
  · rintro ⟨k, hk, hle, rfl⟩
    exact ⟨_, mem_take_iff_getElem.mpr ⟨k, lt_min_iff.mpr ⟨Nat.lt_succ_of_le hle, hk⟩, rfl⟩, rfl⟩

theorem Driver.active_mono (d : Driver) : Monotone d.active := by
  intro s t hle
  cases d with
  | eventRunner => exact hle
  | bridge interval => exact add_le_add_left hle interval

theorem activeAt_eq (hi : i < frame.length) : activeAt d frame i = d.active frame[i].timestamp := by
  simp [activeAt, hi]

section Ascending

variable (hsorted : (frame.map Bar.timestamp).Pairwise (· < ·))

include hsorted

theorem timestamp_lt {k : ℕ} (hlt : i < k) (hk : k < frame.length) :
    frame[i].timestamp < frame[k].timestamp :=
  pairwise_iff_getElem.mp (pairwise_map.mp hsorted) i k (hlt.trans hk) hk hlt

theorem timestamp_le {k : ℕ} (hle : i ≤ k) (hk : k < frame.length) :
    frame[i].timestamp ≤ frame[k].timestamp := by
  rcases hle.lt_or_eq with hlt | rfl
  · exact (timestamp_lt hsorted hlt hk).le
  · exact le_rfl

theorem pairwise_shown (active : ℤ) (i : ℕ) :
    (shown b active (frame.take (i + 1))).Pairwise (· < ·) := by
  have hle : ((frame.take (i + 1)).map fun bar => b.label bar.timestamp).Pairwise (· ≤ ·) :=
    pairwise_map.mpr ((pairwise_map.mp hsorted).sublist (take_sublist _ _) |>.imp fun hlt =>
      b.mono hlt.le)
  exact ((hle.sublist (dedup_sublist _)).and (nodup_dedup _)).imp
    (fun h => lt_of_le_of_ne h.1 h.2) |>.filter _

/-- **What is shown stays**, and what is shown later is after it. -/
theorem shown_prefix {j : ℕ} (hij : i ≤ j) (hj : j < frame.length) :
    shown b (activeAt d frame i) (frame.take (i + 1)) <+:
      shown b (activeAt d frame j) (frame.take (j + 1)) := by
  have hi := hij.trans_lt hj
  have hactive : activeAt d frame i ≤ activeAt d frame j := by
    rw [activeAt_eq hi, activeAt_eq hj]
    exact d.active_mono (timestamp_le hsorted hij hj)
  have hfilter : shown b (activeAt d frame i) (frame.take (i + 1)) =
      (shown b (activeAt d frame j) (frame.take (j + 1))).filter fun label =>
        label ≤ min (activeAt d frame i) (b.label frame[i].timestamp) := by
    have hi' := pairwise_shown (b := b) hsorted (activeAt d frame i) i
    have hj' := (pairwise_shown (b := b) hsorted (activeAt d frame j) j).filter fun label =>
      decide (label ≤ min (activeAt d frame i) (b.label frame[i].timestamp))
    refine Perm.eq_of_pairwise (fun _ _ _ _ h h' => absurd h' h.asymm) hi' hj'
      ((perm_ext_iff_of_nodup (hi'.imp ne_of_lt) (hj'.imp ne_of_lt)).mpr fun label => ?_)
    rw [mem_filter, mem_shown, mem_shown, decide_eq_true_iff, le_min_iff]
    constructor
    · rintro ⟨hle, k, hk, hki, rfl⟩
      exact ⟨⟨hle.trans hactive, k, hk, hki.trans hij, rfl⟩, hle,
        b.mono (timestamp_le hsorted hki hi)⟩
    · rintro ⟨⟨-, k, hk, -, rfl⟩, hle, hlast⟩
      refine ⟨hle, ?_⟩
      rcases le_or_gt k i with hki | hik
      · exact ⟨k, hk, hki, rfl⟩
      · exact ⟨i, hi, le_rfl, le_antisymm (b.mono (timestamp_lt hsorted hik hk).le) hlast⟩
  rw [hfilter]
  refine filter_prefix ((pairwise_shown hsorted _ j).imp fun hlt hle => ?_)
  rw [decide_eq_true_iff] at hle ⊢
  exact hlt.le.trans hle

/-- A bucket that is shown has all its bars, where none is shown early. -/
theorem bucket_complete (hnever : NeverEarly b d frame) (hi : i < frame.length) {label : ℤ}
    (hlabel : label ∈ shown b (activeAt d frame i) (frame.take (i + 1))) :
    bucket b (frame.take (i + 1)) label = bucket b frame label := by
  obtain ⟨hle, k, hk, hki, rfl⟩ := mem_shown.mp hlabel
  rw [activeAt_eq hi] at hle
  have hrest : bucket b (frame.drop (i + 1)) (b.label frame[k].timestamp) = [] := by
    refine filter_eq_nil_iff.mpr fun bar hbar hsame => ?_
    obtain ⟨m, hm, rfl⟩ := mem_drop_iff_getElem.mp hbar
    have hsame : b.label frame[i + 1 + m].timestamp = b.label frame[k].timestamp := by
      simpa using hsame
    have hnext : i + 1 < frame.length := by omega
    have hfirst := b.mono (timestamp_le hsorted hki hi)
    have hsecond := b.mono (timestamp_le hsorted (Nat.le_succ i) hnext)
    have hthird := b.mono (timestamp_le hsorted (Nat.le_add_right (i + 1) m) (by omega))
    have heq : b.label frame[i].timestamp = b.label frame[k].timestamp :=
      le_antisymm (hsecond.trans (hthird.trans hsame.le)) hfirst
    exact hnever i hnext (heq ▸ hle)
      (le_antisymm (hthird.trans (hsame.trans heq.symm).le) hsecond)
  calc bucket b (frame.take (i + 1)) (b.label frame[k].timestamp)
      = bucket b (frame.take (i + 1) ++ frame.drop (i + 1)) (b.label frame[k].timestamp) := by
        rw [bucket, bucket, filter_append, ← bucket, ← bucket, hrest, append_nil]
    _ = _ := by rw [take_append_drop]

theorem neverRepaints_iff : NeverRepaints b d frame ↔ NeverEarly b d frame := by
  constructor
  · intro h i hi hle heq
    have hshown :
        b.label frame[i].timestamp ∈ shown b (activeAt d frame i) (frame.take (i + 1)) := by
      rw [mem_shown, activeAt_eq (Nat.lt_of_succ_lt hi)]
      exact ⟨hle, i, Nat.lt_of_succ_lt hi, le_rfl, rfl⟩
    have hnext : frame[i + 1] ∈ bucket b frame (b.label frame[i].timestamp) :=
      mem_filter.mpr ⟨getElem_mem _, by simpa using heq⟩
    rw [← h.complete i (Nat.lt_of_succ_lt hi) _ hshown] at hnext
    obtain ⟨k, hk, hbar⟩ := mem_take_iff_getElem.mp (mem_filter.mp hnext).1
    exact absurd (timestamp_lt hsorted (lt_min_iff.mp hk).1 hi) (by rw [hbar]; exact lt_irrefl _)
  · intro h
    refine ⟨fun i j hij hj => ?_, fun i hi label => bucket_complete hsorted h hi⟩
    obtain ⟨later, hlater⟩ := shown_prefix (b := b) (d := d) hsorted hij hj
    unfold resampledFrame
    have hsame : ∀ label ∈ shown b (activeAt d frame i) (frame.take (i + 1)),
        bucket b (frame.take (i + 1)) label = bucket b (frame.take (j + 1)) label := by
      intro label hlabel
      rw [bucket_complete hsorted h (hij.trans_lt hj) hlabel,
        bucket_complete hsorted h hj (hlater ▸ mem_append_left later hlabel)]
    rw [← hlater, filterMap_append, filterMap_congr fun label hlabel => by rw [hsame label hlabel]]
    exact prefix_append _ _

end Ascending

/-- **Resampled frames do not repaint** under `EventRunner`, and under the bridge exactly if no
bucket is shown early. -/
theorem resampled_frames (b : Buckets) (interval : ℤ) (frame : List Bar)
    (hsorted : (frame.map Bar.timestamp).Pairwise (· < ·)) :
    NeverRepaints b .eventRunner frame ∧
      (NeverRepaints b (.bridge interval) frame ↔ NeverEarly b (.bridge interval) frame) := by
  refine ⟨(neverRepaints_iff hsorted).mpr fun i hi hle heq => ?_, neverRepaints_iff hsorted⟩
  have hlt := timestamp_lt hsorted (Nat.lt_succ_self i) hi
  exact absurd ((b.le_label _).trans (heq.le.trans hle)) (not_le.mpr hlt)

namespace Sample

def twoHours : Buckets where
  label t := 7200000000 * ((t + 7199999999) / 7200000000)
  mono s t hle := by dsimp only; omega
  le_label t := by omega

/-- Two hours of a bucket. -/
def hours : List Bar := [1, 2].map fun n => ⟨3600000000 * n, n, n, n, n, 1⟩

end Sample

theorem resampled_frames_hours : NeverRepaints Sample.twoHours .eventRunner Sample.hours ∧
    (NeverRepaints Sample.twoHours (.bridge 3600000000) Sample.hours ↔
      NeverEarly Sample.twoHours (.bridge 3600000000) Sample.hours) :=
  resampled_frames Sample.twoHours 3600000000 Sample.hours (by decide)

/-- **A bucket is shown early**: with its first bar, and later with both. -/
theorem bucket_repaints : ¬ ∀ (b : Buckets) (d : Driver) (frame : List Bar),
    (frame.map Bar.timestamp).Pairwise (· < ·) → NeverRepaints b d frame := by
  intro h
  have hrepaints := h Sample.twoHours (.bridge 3600000000) Sample.hours (by decide)
  exact absurd (hrepaints.complete 0 (by decide) 7200000000 (by decide)) (by decide)

end Qt.Workbench
