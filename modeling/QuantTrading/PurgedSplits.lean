import QuantTrading.Lib.Combinations
import QuantTrading.Lib.Raise
import Mathlib.Data.List.Chain
import Mathlib.Data.List.Flatten
import Mathlib.Data.List.GetD

/-!
# Purged splits

`qt.experiments.splits`: chronological splits and combinatorial purged cross
validation. The observations are cut into contiguous groups; every choice of
test groups makes a split, which trains on all the other observations whose
labels stay clear of the test labels and of the embargo behind them. As each
group is tested by equally many splits, the splits can be dealt out to paths:
a path takes for each group one of the splits that test it, so that it has a
prediction for every observation.

Labels are closed intervals of a clock that is not looked into, and touching
an endpoint is overlap. An index is a place in the list of labels.
-/

namespace Qt.Experiments.Splits

open Except List

/-! ## Labels -/

/-- What is raised. -/
inductive SplitError
  | valueError (message : String)
  | indexError
deriving DecidableEq, Repr

structure LabelInterval where
  start : ℤ
  end_ : ℤ
  start_nonneg : 0 ≤ start
  start_le : start ≤ end_
deriving DecidableEq, Repr

structure Split where
  splitId : ℕ
  trainIndices : List ℕ
  testIndices : List ℕ
  testGroups : List ℕ := []
deriving DecidableEq, Repr

structure PathSegment where
  group : ℕ
  splitId : ℕ
  testIndices : List ℕ
deriving DecidableEq, Repr

structure CPCVPlan where
  groups : ℕ
  testGroups : ℕ
  splits : List Split
  paths : List (List PathSegment)
  independentPaths : Bool := false
deriving DecidableEq, Repr

variable (intervals : List LabelInterval)

/-- The labels are in the order of their starts. -/
def Chronological : Prop :=
  intervals.IsChain fun a b => a.start ≤ b.start
deriving Decidable

def validateIntervals : Except SplitError Unit := do
  raiseIf (intervals = []) (.valueError "empty_intervals")
  raiseIf (¬ Chronological intervals) (.valueError "intervals_not_chronological")

/-- The label of `i` ends before that of the test index `t`, or starts after its
embargo. -/
def Clear (embargo : ℤ) (i t : ℕ) : Prop :=
  ∀ a ∈ intervals[i]?, ∀ b ∈ intervals[t]?, a.end_ < b.start ∨ b.end_ + embargo < a.start
deriving Decidable

/-- What `purge_training` keeps. -/
def kept (embargo : ℤ) (trainIndices testIndices : List ℕ) : List ℕ :=
  trainIndices.filter fun i =>
    i ∉ testIndices ∧ ∀ t ∈ testIndices, Clear intervals embargo i t

def purgeTraining (trainIndices testIndices : List ℕ) (embargo : ℤ) :
    Except SplitError (List ℕ) := do
  validateIntervals intervals
  raiseIf (embargo < 0 ∨ testIndices = []) (.valueError "invalid_embargo_or_empty_test")
  raiseIf (∃ i ∈ trainIndices ++ testIndices, intervals.length ≤ i)
    (.valueError "index_out_of_range")
  raiseIf (¬ trainIndices.Nodup ∨ ¬ testIndices.Nodup) (.valueError "duplicate_indices")
  return kept intervals embargo trainIndices testIndices

/-! ## Splits -/

/-- `range(start, stop, step)`, for a positive step. -/
def pyRange (start stop step : ℕ) : List ℕ :=
  List.range' start ((stop - start + step - 1) / step) step

/-- The training indices before `start` whose labels are fully observed at `start`. -/
def causal (trainSize : ℕ) (expanding : Bool) (start : ℕ) : List ℕ :=
  let first := if expanding then 0 else start - trainSize
  (List.range' first (start - first)).filter fun i =>
    ∀ a ∈ intervals[i]?, ∀ b ∈ intervals[start]?, a.end_ < b.start

/-- The split of `walk_forward_splits` that is tested from `start` on. -/
def walkForwardSplit (trainSize testSize : ℕ) (expanding : Bool) (embargo : ℤ) (splitId start : ℕ) :
    Except SplitError Split := do
  let tests := List.range' start testSize
  let purged ← purgeTraining intervals (causal intervals trainSize expanding start) tests embargo
  raiseIf (purged = []) (.valueError "empty_training_after_purge")
  return { splitId := splitId, trainIndices := purged, testIndices := tests }

def walkForwardSplits (trainSize testSize : ℤ) (step : Option ℤ) (expanding : Bool) (embargo : ℤ) :
    Except SplitError (List Split) := do
  validateIntervals intervals
  let stride := step.getD testSize
  raiseIf (trainSize < 1 ∨ testSize < 1 ∨ stride < testSize)
    (.valueError "invalid_walk_forward_sizes_or_overlapping_tests")
  (pyRange trainSize.toNat (intervals.length + 1 - testSize.toNat) stride.toNat).foldlM
    (fun splits start => do
      let split ← walkForwardSplit intervals trainSize.toNat testSize.toNat expanding embargo
        splits.length start
      return splits ++ [split]) []

/-- Puts the next group behind the blocks so far. -/
def addBlock (base extra : ℕ) (made : List (List ℕ) × ℕ) (group : ℕ) : List (List ℕ) × ℕ :=
  let size := base + if group < extra then 1 else 0
  (made.1 ++ [List.range' made.2 size], made.2 + size)

/-- The blocks of `cpcv_splits`: contiguous groups of nearly one size. -/
def blocks (n groups : ℕ) : List (List ℕ) :=
  ((List.range groups).foldl (addBlock (n / groups) (n % groups)) ([], 0)).1

/-- `blocks[group]`. -/
def block (n groups group : ℕ) : List ℕ := (blocks n groups).getD group []

/-- The test indices of the selected groups. -/
def testsOf (n groups : ℕ) (selected : List ℕ) : List ℕ := selected.flatMap (block n groups)

/-- The indices of the groups that are not selected. -/
def trainOf (n groups : ℕ) (selected : List ℕ) : List ℕ :=
  ((List.range groups).filter (· ∉ selected)).flatMap (block n groups)

/-- The split of `cpcv_splits` that tests the selected groups. -/
def cpcvSplit (groups : ℕ) (embargo : ℤ) (splitId : ℕ) (selected : List ℕ) :
    Except SplitError Split := do
  let tests := testsOf intervals.length groups selected
  let train := trainOf intervals.length groups selected
  let purged ← purgeTraining intervals train tests embargo
  raiseIf (purged = []) (.valueError "empty_training_after_purge")
  return {
    splitId := splitId, trainIndices := purged, testIndices := tests, testGroups := selected }

/-- `paths[path_index].append(PathSegment(…))`. -/
def appendSegment (group : ℕ) (indices : List ℕ) (paths : List (List PathSegment))
    (appearance : Split × ℕ) : Except SplitError (List (List PathSegment)) := do
  raiseIf (paths.length ≤ appearance.2) .indexError
  return paths.modify appearance.2 fun path => path ++ [⟨group, appearance.1.splitId, indices⟩]

/-- Deals the splits that test a group out to the paths, one to each. -/
def dealOut (group : ℕ) (indices : List ℕ) (paths : List (List PathSegment))
    (appearances : List Split) : Except SplitError (List (List PathSegment)) :=
  appearances.zipIdx.foldlM (appendSegment group indices) paths

/-- The splits that test a group. -/
def appearances (splits : List Split) (group : ℕ) : List Split :=
  splits.filter fun split => group ∈ split.testGroups

/-- The paths of `cpcv_splits`. -/
def cpcvPaths (n groups testGroups : ℕ) (splits : List Split) :
    Except SplitError (List (List PathSegment)) :=
  (List.range groups).foldlM
    (fun paths group => dealOut group (block n groups group) paths (appearances splits group))
    (List.replicate ((groups - 1).choose (testGroups - 1)) [])

/-- The splits of `cpcv_splits`, one for each choice of test groups. -/
def makeSplits (groups testGroups : ℕ) (embargo : ℤ) : Except SplitError (List Split) :=
  (List.combinations (List.range groups) testGroups).foldlM (fun splits selected => do
    let split ← cpcvSplit intervals groups embargo splits.length selected
    return splits ++ [split]) []

/-- The plan of `cpcv_splits`, for numbers of groups that are valid. -/
def cpcvPlan (groups testGroups : ℕ) (embargo : ℤ) : Except SplitError CPCVPlan := do
  let splits ← makeSplits intervals groups testGroups embargo
  let paths ← cpcvPaths intervals.length groups testGroups splits
  return { groups := groups, testGroups := testGroups, splits := splits, paths := paths }

def cpcvSplits (groups testGroups embargo : ℤ) : Except SplitError CPCVPlan := do
  validateIntervals intervals
  raiseIf (¬ (1 ≤ testGroups ∧ testGroups < groups ∧ groups ≤ intervals.length))
    (.valueError "invalid_cpcv_groups")
  cpcvPlan intervals groups.toNat testGroups.toNat embargo

/-! ## Purging -/

section Purge

variable {intervals : List LabelInterval} {embargo : ℤ} {train tests : List ℕ}

/-- **Overlap**: the label of `i` has a point in common with that of the test
index `t`, or with the embargo behind it. -/
def Overlaps (intervals : List LabelInterval) (embargo : ℤ) (i t : ℕ) : Prop :=
  ∃ a ∈ intervals[i]?, ∃ b ∈ intervals[t]?, ∃ x, a.start ≤ x ∧ x ≤ a.end_ ∧ b.start ≤ x
    ∧ x ≤ b.end_ + embargo

variable {i : ℕ}

theorem clear_iff (hembargo : 0 ≤ embargo) {t : ℕ} :
    Clear intervals embargo i t ↔ ¬ Overlaps intervals embargo i t := by
  constructor
  · rintro hclear ⟨a, ha, b, hb, x, hlow, hhigh, hblow, hbhigh⟩
    have h := hclear a ha b hb
    omega
  · intro hover a ha b hb
    by_contra hclear
    have hstart := a.start_le
    have hend := b.start_le
    refine hover ⟨a, ha, b, hb, max a.start b.start, ?_⟩
    omega

theorem mem_kept : i ∈ kept intervals embargo train tests
      ↔ i ∈ train ∧ i ∉ tests ∧ ∀ t ∈ tests, Clear intervals embargo i t := by
  rw [kept, mem_filter, decide_eq_true_iff]

/-- **Valid labels** of a split. -/
structure Valid (intervals : List LabelInterval) (embargo : ℤ) : Prop where
  ne_nil : intervals ≠ []
  chronological : Chronological intervals
  embargo_nonneg : 0 ≤ embargo

theorem validateIntervals_eq_ok {u : Unit} :
    validateIntervals intervals = .ok u ↔ intervals ≠ [] ∧ Chronological intervals := by
  unfold validateIntervals
  rw [raiseIf_bind_eq_ok, raiseIf_eq_ok, not_not]

theorem purgeTraining_eq_ok {out : List ℕ} : purgeTraining intervals train tests embargo = .ok out
      ↔ Valid intervals embargo ∧ tests ≠ [] ∧ (∀ i ∈ train ++ tests, i < intervals.length)
        ∧ train.Nodup ∧ tests.Nodup ∧ out = kept intervals embargo train tests := by
  unfold purgeTraining
  rw [bind_eq_ok]
  simp only [validateIntervals_eq_ok, raiseIf_bind_eq_ok]
  constructor
  · rintro ⟨-, ⟨hne, hchron⟩, hembargo, hrange, hdup, hout⟩
    push Not at hrange hdup
    obtain ⟨hembargo, htests⟩ := not_or.mp hembargo
    exact ⟨⟨hne, hchron, Int.not_lt.mp hembargo⟩, htests, hrange, hdup.1, hdup.2,
      (ok.inj hout).symm⟩
  · rintro ⟨⟨hne, hchron, hembargo⟩, htests, hrange, htrain, hnodup, rfl⟩
    refine ⟨(), ⟨hne, hchron⟩, ?_, ?_, ?_, rfl⟩
    · exact not_or.mpr ⟨Int.not_lt.mpr hembargo, htests⟩
    · push Not
      exact hrange
    · push Not
      exact ⟨htrain, hnodup⟩

end Purge

/-! ## Blocks -/

section Blocks

variable {n groups : ℕ}

/-- **The blocks so far**, `m` of them: they are the indices up to an offset, in
order, and their sizes differ by one at most. -/
structure Laid (base extra m : ℕ) (made : List (List ℕ) × ℕ) : Prop where
  length : made.1.length = m
  flatten : made.1.flatten = List.range made.2
  offset : made.2 = base * m + min m extra
  size : ∀ block ∈ made.1, base ≤ block.length

theorem Laid.addBlock {base extra m : ℕ} {made : List (List ℕ) × ℕ} (h : Laid base extra m made) :
    Laid base extra (m + 1) (addBlock base extra made m) where
  length := by
    show (made.1 ++ [_]).length = m + 1
    rw [length_append, h.length]
    rfl
  flatten := by
    show (made.1 ++ [List.range' made.2 _]).flatten = List.range (made.2 + _)
    have happend := fun size => range'_append_1 (s := 0) (m := made.2) (n := size)
    rw [flatten_append, h.flatten, flatten_singleton, range_eq_range',
      range_eq_range', ← happend, Nat.zero_add]
  offset := by
    show made.2 + (base + if m < extra then 1 else 0) = base * (m + 1) + min (m + 1) extra
    rw [h.offset, Nat.mul_succ]
    split_ifs <;> omega
  size := by
    intro block hblock
    rcases mem_append.mp hblock with hold | hnew
    · exact h.size block hold
    · rw [mem_singleton.mp hnew, length_range']
      exact Nat.le_add_right _ _

theorem laid_foldl (base extra m : ℕ) :
    Laid base extra m ((List.range m).foldl (addBlock base extra) ([], 0)) := by
  induction m with
  | zero => exact ⟨rfl, rfl, by simp, by simp⟩
  | succ m ih =>
    rw [range_succ, foldl_append]
    exact ih.addBlock

theorem length_blocks (n groups : ℕ) : (blocks n groups).length = groups :=
  (laid_foldl _ _ groups).length

/-- **The blocks are the indices**, in order. -/
theorem flatten_blocks (hgroups : 0 < groups) : (blocks n groups).flatten = List.range n := by
  have hlaid := laid_foldl (n / groups) (n % groups) groups
  have hoffset := hlaid.offset
  have hmin : min groups (n % groups) = n % groups := min_eq_right (Nat.mod_lt n hgroups).le
  rw [hmin, Nat.mul_comm, Nat.div_add_mod] at hoffset
  show ((List.range groups).foldl (addBlock (n / groups) (n % groups)) ([], 0)).1.flatten = _
  rw [hlaid.flatten, hoffset]

theorem map_block (n groups : ℕ) : (List.range groups).map (block n groups) = blocks n groups := by
  refine ext_getElem (by simp [length_blocks]) fun g hg hg' => ?_
  rw [getElem_map, getElem_range]
  exact getD_eq_getElem _ _ hg'

variable (hgroups : 0 < groups)
include hgroups

theorem flatMap_block :
    (List.range groups).flatMap (block n groups) = List.range n := by
  rw [flatMap_def, map_block, flatten_blocks hgroups]

theorem block_ne_nil (hle : groups ≤ n) {g : ℕ} (hg : g < groups) :
    block n groups g ≠ [] := by
  have hmem : block n groups g ∈ blocks n groups := by
    rw [← map_block]
    exact mem_map_of_mem (mem_range.mpr hg)
  have hsize := (laid_foldl (n / groups) (n % groups) groups).size _ hmem
  have hpos : 0 < n / groups := Nat.div_pos hle hgroups
  exact ne_nil_of_length_pos (hpos.trans_le hsize)

theorem nodup_flatMap_block {selected : List ℕ}
    (h : selected.Sublist (List.range groups)) : (selected.flatMap (block n groups)).Nodup
      ∧ ∀ i ∈ selected.flatMap (block n groups), i < n := by
  have hsub : (selected.flatMap (block n groups)).Sublist (List.range n) := by
    rw [← flatMap_block hgroups]
    exact h.flatMap _
  exact ⟨hsub.nodup nodup_range, fun i hi => mem_range.mp (hsub.subset hi)⟩

theorem mem_testsOf_or_trainOf (selected : List ℕ) {i : ℕ} (hi : i < n) :
    i ∈ testsOf n groups selected ∨ i ∈ trainOf n groups selected := by
  have hmem := mem_range.mpr hi
  rw [← flatMap_block hgroups, mem_flatMap] at hmem
  obtain ⟨g, hg, higroup⟩ := hmem
  by_cases hsel : g ∈ selected
  · exact .inl (mem_flatMap.mpr ⟨g, hsel, higroup⟩)
  · refine .inr (mem_flatMap.mpr ⟨g, ?_, higroup⟩)
    rw [mem_filter, decide_eq_true_iff]
    exact ⟨hg, hsel⟩

end Blocks

/-! ## The splits of a plan -/

section Plan

variable {intervals : List LabelInterval} {groups testGroups : ℕ} {embargo : ℤ}

/-- What is left to train on when the selected groups are tested. -/
def training (intervals : List LabelInterval) (groups : ℕ) (embargo : ℤ) (selected : List ℕ) :
    List ℕ :=
  kept intervals embargo (trainOf intervals.length groups selected)
    (testsOf intervals.length groups selected)

/-- The split with a number that tests the selected groups. -/
def splitOf (intervals : List LabelInterval) (groups : ℕ) (embargo : ℤ) (splitId : ℕ)
    (selected : List ℕ) : Split :=
  { splitId := splitId, trainIndices := training intervals groups embargo selected
    testIndices := testsOf intervals.length groups selected, testGroups := selected }

theorem cpcvSplit_eq_ok (hpos : 0 < testGroups) (hlt : testGroups < groups)
    (hle : groups ≤ intervals.length) {selected : List ℕ}
    (hselected : selected ∈ List.combinations (List.range groups) testGroups) {splitId : ℕ}
    {split : Split} : cpcvSplit intervals groups embargo splitId selected = .ok split
      ↔ Valid intervals embargo ∧ training intervals groups embargo selected ≠ []
        ∧ split = splitOf intervals groups embargo splitId selected := by
  obtain ⟨hsub, hlength⟩ := mem_combinations.mp hselected
  have hgroups : 0 < groups := hpos.trans hlt
  have hne : testsOf intervals.length groups selected ≠ [] := by
    obtain ⟨g, rest, rfl⟩ := exists_cons_of_length_pos (hlength ▸ hpos)
    have hg : g < groups := mem_range.mp (hsub.subset mem_cons_self)
    rw [testsOf, flatMap_cons]
    exact append_ne_nil_of_left_ne_nil (block_ne_nil hgroups hle hg) _
  obtain ⟨htests, htestsRange⟩ := nodup_flatMap_block (n := intervals.length) hgroups hsub
  obtain ⟨htrain, htrainRange⟩ := nodup_flatMap_block (n := intervals.length) hgroups
    (filter_sublist (p := fun g => decide (g ∉ selected)))
  have hrange : ∀ i ∈ trainOf intervals.length groups selected
      ++ testsOf intervals.length groups selected, i < intervals.length := fun i hi =>
    (mem_append.mp hi).elim (htrainRange i) (htestsRange i)
  unfold cpcvSplit
  rw [bind_eq_ok]
  simp only [purgeTraining_eq_ok, raiseIf_bind_eq_ok]
  constructor
  · rintro ⟨_, ⟨hvalid, -, -, -, -, rfl⟩, hpurged, hsplit⟩
    exact ⟨hvalid, hpurged, (ok.inj hsplit).symm⟩
  · rintro ⟨hvalid, hpurged, rfl⟩
    exact ⟨_, ⟨hvalid, hne, hrange, htrain, htests, rfl⟩, hpurged, rfl⟩

/-- The splits of a plan: one for each choice of groups, numbered in their order. -/
def planSplits (intervals : List LabelInterval) (groups testGroups : ℕ) (embargo : ℤ) :
    List Split :=
  (List.combinations (List.range groups) testGroups).zipIdx.map fun p =>
    splitOf intervals groups embargo p.2 p.1

theorem map_testGroups : (planSplits intervals groups testGroups embargo).map Split.testGroups
    = List.combinations (List.range groups) testGroups := by
  rw [planSplits, map_map]
  exact zipIdx_map_fst ..

theorem map_splitId : (planSplits intervals groups testGroups embargo).map Split.splitId
    = List.range ((planSplits intervals groups testGroups embargo).length) := by
  rw [planSplits, map_map, length_map, length_zipIdx]
  exact (zipIdx_map_snd ..).trans range_eq_range'.symm

theorem length_planSplits :
    (planSplits intervals groups testGroups embargo).length = groups.choose testGroups := by
  rw [← length_map Split.testGroups, map_testGroups, length_combinations, length_range]

variable {g : ℕ}

/-- **As many splits test a group** as there are paths. -/
theorem length_appearances (hpos : 0 < testGroups) (hg : g < groups) :
    (appearances (planSplits intervals groups testGroups embargo) g).length
      = (groups - 1).choose (testGroups - 1) := by
  obtain ⟨k, rfl⟩ := Nat.exists_eq_add_one.mpr hpos
  have hcount := countP_mem_combinations nodup_range (mem_range.mpr hg) k
  rw [← @map_testGroups intervals groups (k + 1) embargo, countP_map,
    countP_eq_length_filter, length_range] at hcount
  exact hcount

/-! ## Paths -/

/-- What a path has for a group: the split that tests it with the number of the path. -/
def segmentAt (n groups : ℕ) (splits : List Split) (path group : ℕ) : PathSegment :=
  ⟨group, (((appearances splits group)[path]?).map Split.splitId).getD 0, block n groups group⟩

variable {group : ℕ}

/-- Each path gets the segment of its own split, from one path on. -/
theorem foldlM_appendSegment {indices : List ℕ} {l : List Split}
    {done todo : List (List PathSegment)} (h : l.length = todo.length) :
    (l.zipIdx done.length).foldlM (appendSegment group indices) (done ++ todo)
      = .ok (done ++ List.zipWith (fun path split => path ++ [⟨group, split.splitId, indices⟩])
          todo l) := by
  induction l generalizing done todo with
  | nil =>
    obtain rfl := length_eq_zero_iff.mp h.symm
    rfl
  | cons split l ih =>
    obtain ⟨path, rest, rfl⟩ := exists_cons_of_length_eq_add_one h.symm
    let longer := path ++ [(⟨group, split.splitId, indices⟩ : PathSegment)]
    have hroom : ¬ (done ++ path :: rest).length ≤ done.length := by simp
    have hstep : appendSegment group indices (done ++ path :: rest) (split, done.length)
        = .ok ((done ++ [longer]) ++ rest) := by
      unfold appendSegment
      rw [raiseIf_bind_of_not hroom]
      simp [modify_eq_take_cons_drop, longer, pure, Except.pure]
    have hrest := @ih (done ++ [longer]) rest (Nat.succ.inj h)
    rw [length_append, length_singleton] at hrest
    rw [zipIdx_cons, foldlM_cons, hstep, ok_bind, hrest, zipWith_cons_cons, append_assoc]
    rfl

variable {n : ℕ} {splits : List Split}

theorem dealOut_eq {c : ℕ} (path : ℕ → List PathSegment) (h : (appearances splits group).length = c)
    : dealOut group (block n groups group) ((List.range c).map path) (appearances splits group)
      = .ok ((List.range c).map fun p => path p ++ [segmentAt n groups splits p group]) := by
  have hlength : (appearances splits group).length = ((List.range c).map path).length := by
    rw [h, length_map, length_range]
  refine (@foldlM_appendSegment group _ _ [] _ hlength).trans (congrArg Except.ok ?_)
  refine ext_getElem (by simp [h]) fun p hp hp' => ?_
  have hpc : p < (appearances splits group).length := by simpa [h] using hp'
  simp [segmentAt, getElem?_eq_getElem hpc]

/-- **The paths**: path `p` has the segment `p` of each group, in the order of the groups. -/
theorem cpcvPaths_eq
    (h : ∀ g < groups, (appearances splits g).length = (groups - 1).choose (testGroups - 1)) :
    cpcvPaths n groups testGroups splits
      = .ok ((List.range ((groups - 1).choose (testGroups - 1))).map fun p =>
          (List.range groups).map (segmentAt n groups splits p)) := by
  have hrun : ∀ m ≤ groups, (List.range m).foldlM
      (fun paths group => dealOut group (block n groups group) paths (appearances splits group))
      (List.replicate ((groups - 1).choose (testGroups - 1)) [])
        = .ok ((List.range ((groups - 1).choose (testGroups - 1))).map fun p =>
          (List.range m).map (segmentAt n groups splits p)) := by
    intro m hm
    induction m with
    | zero => simp [pure, Except.pure]
    | succ m ih =>
      rw [range_succ, foldlM_append, ih (Nat.le_of_succ_le hm), ok_bind,
        foldlM_cons, dealOut_eq _ (h m hm), ok_bind]
      simp only [foldlM_nil, map_append, map_cons, map_nil]
      rfl
  exact hrun groups le_rfl

/-- The plan of `cpcv_splits`. -/
def planOf (intervals : List LabelInterval) (groups testGroups : ℕ) (embargo : ℤ) : CPCVPlan where
  groups := groups
  testGroups := testGroups
  splits := planSplits intervals groups testGroups embargo
  paths := (List.range ((groups - 1).choose (testGroups - 1))).map fun p => (List.range groups).map
    (segmentAt intervals.length groups (planSplits intervals groups testGroups embargo) p)

theorem cpcvPaths_planSplits (hpos : 0 < testGroups) :
    cpcvPaths intervals.length groups testGroups (planSplits intervals groups testGroups embargo)
      = .ok (planOf intervals groups testGroups embargo).paths :=
  cpcvPaths_eq fun _ hg => length_appearances hpos hg

/-- The numbers of groups that are valid. -/
def ValidGroups (intervals : List LabelInterval) (groups testGroups : ℤ) : Prop :=
  1 ≤ testGroups ∧ testGroups < groups ∧ groups ≤ intervals.length

theorem makeSplits_eq_ok (hpos : 0 < testGroups) (hlt : testGroups < groups)
    (hle : groups ≤ intervals.length) :
    makeSplits intervals groups testGroups embargo = .ok splits ↔ Valid intervals embargo
        ∧ (∀ selected ∈ List.combinations (List.range groups) testGroups,
            training intervals groups embargo selected ≠ [])
        ∧ splits = planSplits intervals groups testGroups embargo := by
  have hround : ∀ selected ∈ List.combinations (List.range groups) testGroups, ∀ splitId split,
      cpcvSplit intervals groups embargo splitId selected = .ok split →
        split = splitOf intervals groups embargo splitId selected :=
    fun selected hselected _ _ h => ((cpcvSplit_eq_ok hpos hlt hle hselected).mp h).2.2
  rw [makeSplits, foldlM_number hround, nil_append]
  -- There is a choice of groups, and its round checks the embargo.
  have hsome : 0 < (List.combinations (List.range groups) testGroups).zipIdx.length := by
    rw [length_zipIdx, length_combinations, length_range]
    exact Nat.choose_pos hlt.le
  obtain ⟨first, hfirst⟩ := exists_mem_of_length_pos hsome
  have hok := fun (p : List ℕ × ℕ)
      (hp : p ∈ (List.combinations (List.range groups) testGroups).zipIdx) =>
    @cpcvSplit_eq_ok intervals groups testGroups embargo hpos hlt hle p.1
      (fst_mem_of_mem_zipIdx hp) p.2 (splitOf intervals groups embargo p.2 p.1)
  constructor
  · rintro ⟨rfl, hall⟩
    have hvalid := ((hok first hfirst).mp (hall first hfirst)).1
    refine ⟨hvalid, fun selected hselected => ?_, rfl⟩
    rw [← zipIdx_map_fst 0 (List.combinations _ _)] at hselected
    obtain ⟨p, hp, rfl⟩ := mem_map.mp hselected
    exact ((hok p hp).mp (hall p hp)).2.1
  · rintro ⟨hvalid, hne, rfl⟩
    exact ⟨rfl, fun p hp =>
      (hok p hp).mpr ⟨hvalid, hne p.1 (fst_mem_of_mem_zipIdx hp), rfl⟩⟩

/-- **When there is a plan**: the input is valid and each choice of groups leaves
something to train on. -/
theorem cpcvSplits_eq_ok {groups testGroups : ℤ} {plan : CPCVPlan} :
    cpcvSplits intervals groups testGroups embargo = .ok plan
      ↔ Valid intervals embargo ∧ ValidGroups intervals groups testGroups
        ∧ (∀ selected ∈ List.combinations (List.range groups.toNat) testGroups.toNat,
            training intervals groups.toNat embargo selected ≠ [])
        ∧ plan = planOf intervals groups.toNat testGroups.toNat embargo := by
  have hrun : ValidGroups intervals groups testGroups →
      (cpcvPlan intervals groups.toNat testGroups.toNat embargo = .ok plan ↔ Valid intervals embargo
          ∧ (∀ selected ∈ List.combinations (List.range groups.toNat) testGroups.toNat,
              training intervals groups.toNat embargo selected ≠ [])
          ∧ plan = planOf intervals groups.toNat testGroups.toNat embargo) := by
    rintro ⟨hone, hlt, hle⟩
    have hpos : 0 < testGroups.toNat := by omega
    have hlt : testGroups.toNat < groups.toNat := by omega
    have hle : groups.toNat ≤ intervals.length := by omega
    have hpaths := @cpcvPaths_planSplits intervals groups.toNat testGroups.toNat embargo hpos
    unfold cpcvPlan
    simp only [bind_eq_ok, makeSplits_eq_ok hpos hlt hle]
    constructor
    · rintro ⟨_, ⟨hvalid, hne, rfl⟩, paths, hdealt, h⟩
      obtain rfl := ok.inj (hpaths.symm.trans hdealt)
      exact ⟨hvalid, hne, (ok.inj h).symm⟩
    · rintro ⟨hvalid, hne, rfl⟩
      exact ⟨_, ⟨hvalid, hne, rfl⟩, _, hpaths, rfl⟩
  unfold cpcvSplits
  simp only [bind_eq_ok, validateIntervals_eq_ok, raiseIf_eq_ok, not_not]
  constructor
  · rintro ⟨-, -, -, hgroups, h⟩
    obtain ⟨hvalid, hne, heq⟩ := (hrun hgroups).mp h
    exact ⟨hvalid, hgroups, hne, heq⟩
  · rintro ⟨hvalid, hgroups, hne, heq⟩
    exact ⟨(), ⟨hvalid.ne_nil, hvalid.chronological⟩, (), hgroups,
      (hrun hgroups).mpr ⟨hvalid, hne, heq⟩⟩

/-- **A plan that is sound.** Every choice of groups is a split, numbered, and as
many paths as there should be; a path is a prediction for every index, in order,
group by group; each split that tests a group is used for it by one path, and by
no other; and a split trains on exactly what it may. -/
structure CPCVPlan.Sound (intervals : List LabelInterval) (groups testGroups : ℕ) (embargo : ℤ)
    (plan : CPCVPlan) : Prop where
  splits_length : plan.splits.length = groups.choose testGroups
  splitIds : plan.splits.map Split.splitId = List.range plan.splits.length
  choices : plan.splits.map Split.testGroups = List.combinations (List.range groups) testGroups
  paths_length : plan.paths.length = (groups - 1).choose (testGroups - 1)
  covers : ∀ path ∈ plan.paths, path.flatMap PathSegment.testIndices = List.range intervals.length
  inOrder : ∀ path ∈ plan.paths, path.map PathSegment.group = List.range groups
  used : ∀ split ∈ plan.splits, ∀ group ∈ split.testGroups,
    ∃! p : Fin plan.paths.length, ∃ segment ∈ plan.paths.get p,
      segment.group = group ∧ segment.splitId = split.splitId
  tested : ∀ path ∈ plan.paths, ∀ segment ∈ path, ∃ split ∈ plan.splits,
    segment.splitId = split.splitId ∧ segment.group ∈ split.testGroups
      ∧ segment.testIndices ⊆ split.testIndices
  disjoint : ∀ split ∈ plan.splits, split.trainIndices.Disjoint split.testIndices
  purged : ∀ split ∈ plan.splits, ∀ i, i ∈ split.trainIndices
    ↔ i < intervals.length ∧ i ∉ split.testIndices
      ∧ ∀ t ∈ split.testIndices, ¬ Overlaps intervals embargo i t

theorem mem_training (hgroups : 0 < groups) (hembargo : 0 ≤ embargo) (selected : List ℕ) {i : ℕ} :
    i ∈ training intervals groups embargo selected
      ↔ i < intervals.length ∧ i ∉ testsOf intervals.length groups selected
        ∧ ∀ t ∈ testsOf intervals.length groups selected, ¬ Overlaps intervals embargo i t := by
  rw [training, mem_kept]
  simp only [clear_iff hembargo]
  constructor
  · rintro ⟨htrain, htest, hclear⟩
    have hrange := (nodup_flatMap_block (n := intervals.length) hgroups
      (filter_sublist (p := fun g => decide (g ∉ selected)))).2
    exact ⟨hrange i htrain, htest, hclear⟩
  · rintro ⟨hrange, htest, hclear⟩
    exact ⟨(mem_testsOf_or_trainOf hgroups selected hrange).resolve_left htest, htest, hclear⟩

theorem exists_of_mem_planSplits {split : Split}
    (h : split ∈ planSplits intervals groups testGroups embargo) :
    ∃ splitId selected, split = splitOf intervals groups embargo splitId selected := by
  obtain ⟨p, -, rfl⟩ := mem_map.mp h
  exact ⟨p.2, p.1, rfl⟩

theorem lt_of_mem_testGroups {split : Split}
    (h : split ∈ planSplits intervals groups testGroups embargo)
    (hgroup : group ∈ split.testGroups) :
    group < groups := by
  have hchoice := mem_map_of_mem (f := Split.testGroups) h
  rw [map_testGroups] at hchoice
  exact mem_range.mp ((mem_combinations.mp hchoice).1.subset hgroup)

/-- Two splits of a plan with one number are one split. -/
theorem eq_of_splitId_eq {s t : Split} (hs : s ∈ planSplits intervals groups testGroups embargo)
    (ht : t ∈ planSplits intervals groups testGroups embargo) (h : s.splitId = t.splitId) :
    s = t := by
  have hnodup : ((planSplits intervals groups testGroups embargo).map Split.splitId).Nodup := by
    rw [map_splitId]
    exact nodup_range
  exact inj_on_of_nodup_map hnodup hs ht h

/-- **The segment of a path** is that of a split which tests the group. -/
theorem segmentAt_eq (intervals : List LabelInterval) (embargo : ℤ) (hpos : 0 < testGroups) {p : ℕ}
    (hg : g < groups) (hp : p < (groups - 1).choose (testGroups - 1)) :
    ∃ h : p < (appearances (planSplits intervals groups testGroups embargo) g).length,
      segmentAt intervals.length groups (planSplits intervals groups testGroups embargo) p g
        = ⟨g, ((appearances (planSplits intervals groups testGroups embargo) g).get ⟨p, h⟩).splitId,
            block intervals.length groups g⟩ := by
  have h : p < (appearances (planSplits intervals groups testGroups embargo) g).length := by
    rw [length_appearances hpos hg]
    exact hp
  refine ⟨h, ?_⟩
  rw [segmentAt, getElem?_eq_getElem h]
  rfl

/-- **A path uses a split for a group** when it has the split's place among those
that test the group. -/
theorem segmentAt_splitId_eq_iff (hpos : 0 < testGroups) {p : ℕ} (hg : g < groups)
    (hp : p < (groups - 1).choose (testGroups - 1)) {split : Split}
    (hsplit : split ∈ appearances (planSplits intervals groups testGroups embargo) g) :
    (segmentAt intervals.length groups (planSplits intervals groups testGroups embargo) p
        g).splitId = split.splitId
      ↔ (appearances (planSplits intervals groups testGroups embargo) g)[p]? = some split := by
  obtain ⟨h, heq⟩ := segmentAt_eq intervals embargo hpos hg hp
  rw [heq, getElem?_eq_getElem h, Option.some.injEq]
  constructor
  · intro hid
    exact eq_of_splitId_eq (mem_filter.mp (getElem_mem h)).1 (mem_filter.mp hsplit).1 hid
  · exact congrArg Split.splitId

theorem nodup_appearances (g : ℕ) :
    (appearances (planSplits intervals groups testGroups embargo) g).Nodup := by
  have hids : ((planSplits intervals groups testGroups embargo).map Split.splitId).Nodup := by
    rw [map_splitId]
    exact nodup_range
  exact (List.Nodup.of_map _ hids).filter _

theorem mem_paths_get (p : Fin (planOf intervals groups testGroups embargo).paths.length)
    {segment : PathSegment} :
    segment ∈ (planOf intervals groups testGroups embargo).paths.get p ↔ ∃ g < groups,
      segmentAt intervals.length groups (planSplits intervals groups testGroups embargo) p g
        = segment := by
  have hget : (planOf intervals groups testGroups embargo).paths.get p = (List.range groups).map
        (segmentAt intervals.length groups (planSplits intervals groups testGroups embargo) p) :=
    (getElem_map ..).trans (by rw [getElem_range])
  simp only [hget, mem_map, mem_range]

theorem planOf_sound (hpos : 0 < testGroups) (hlt : testGroups < groups) (hembargo : 0 ≤ embargo) :
    (planOf intervals groups testGroups embargo).Sound intervals groups testGroups embargo where
  splits_length := length_planSplits
  splitIds := map_splitId
  choices := map_testGroups
  paths_length := by simp [planOf]
  covers := by
    intro path hpath
    obtain ⟨p, -, rfl⟩ := mem_map.mp hpath
    rw [flatMap_map]
    exact flatMap_block (hpos.trans hlt)
  inOrder := by
    intro path hpath
    obtain ⟨p, -, rfl⟩ := mem_map.mp hpath
    rw [map_map]
    exact List.map_id _
  used := by
    intro split hsplit group hgroup
    have hlength : (planOf intervals groups testGroups embargo).paths.length
        = (groups - 1).choose (testGroups - 1) := by simp [planOf]
    have hmem : split ∈ appearances (planSplits intervals groups testGroups embargo) group :=
      mem_filter.mpr ⟨hsplit, decide_eq_true hgroup⟩
    have hg : group < groups := lt_of_mem_testGroups hsplit hgroup
    have huses : ∀ p : Fin (planOf intervals groups testGroups embargo).paths.length,
        (∃ segment ∈ (planOf intervals groups testGroups embargo).paths.get p,
          segment.group = group ∧ segment.splitId = split.splitId)
        ↔ (appearances (planSplits intervals groups testGroups embargo) group)[p.val]?
          = some split := by
      intro p
      rw [← segmentAt_splitId_eq_iff hpos hg (hlength ▸ p.isLt) hmem]
      simp only [mem_paths_get]
      constructor
      · rintro ⟨_, ⟨g, -, rfl⟩, rfl, hid⟩
        exact hid
      · intro hid
        exact ⟨_, ⟨group, hg, rfl⟩, rfl, hid⟩
    obtain ⟨p, hp⟩ := getElem?_of_mem hmem
    have hlt := (List.getElem?_eq_some_iff.mp hp).1
    have hbound : p < (planOf intervals groups testGroups embargo).paths.length := by
      rw [hlength, ← length_appearances hpos hg]
      exact hlt
    refine ⟨⟨p, hbound⟩, (huses _).mpr hp, fun q hq => Fin.ext ?_⟩
    exact ((getElem?_inj hlt (nodup_appearances group)).mp (hp.trans ((huses q).mp hq).symm)).symm
  tested := by
    intro path hpath segment hsegment
    obtain ⟨p, hp, rfl⟩ := mem_map.mp hpath
    obtain ⟨g, hg, rfl⟩ := mem_map.mp hsegment
    obtain ⟨h, heq⟩ := segmentAt_eq intervals embargo hpos (mem_range.mp hg) (mem_range.mp hp)
    obtain ⟨hsplit, hgroup⟩ := mem_filter.mp (getElem_mem h)
    refine ⟨_, hsplit, congrArg PathSegment.splitId heq, of_decide_eq_true hgroup, ?_⟩
    obtain ⟨splitId, selected, hsame⟩ := exists_of_mem_planSplits hsplit
    have hsel : g ∈ selected := by
      have := of_decide_eq_true hgroup
      rwa [hsame] at this
    rw [hsame]
    exact fun i hi => mem_flatMap.mpr ⟨g, hsel, hi⟩
  disjoint := by
    intro split hsplit
    obtain ⟨splitId, selected, rfl⟩ := exists_of_mem_planSplits hsplit
    intro i htrain htest
    exact ((mem_training (hpos.trans hlt) hembargo selected).mp htrain).2.1 htest
  purged := by
    intro split hsplit i
    obtain ⟨splitId, selected, rfl⟩ := exists_of_mem_planSplits hsplit
    exact mem_training (hpos.trans hlt) hembargo selected

end Plan

/-! ## Walking forward -/

section WalkForward

variable {intervals : List LabelInterval} {trainSize testSize : ℕ} {expanding : Bool} {embargo : ℤ}
  {start : ℕ}

theorem mem_pyRange {stop step x : ℕ} (hstep : 0 < step) (h : x ∈ pyRange start stop step) :
    start ≤ x ∧ x < stop := by
  obtain ⟨i, hi, rfl⟩ := mem_range'.mp h
  have hmul : (i + 1) * step ≤ stop - start + step - 1 := (Nat.le_div_iff_mul_le hstep).mp hi
  rw [Nat.add_mul, Nat.one_mul, Nat.mul_comm] at hmul
  omega

theorem pairwise_range' (start count step : ℕ) :
    (List.range' start count step).Pairwise fun a b => a + step ≤ b := by
  induction count generalizing start with
  | zero => exact .nil
  | succ count ih =>
    rw [range'_succ]
    refine .cons (fun b hb => ?_) (ih (start + step))
    obtain ⟨i, -, rfl⟩ := mem_range'.mp hb
    exact Nat.le_add_right _ _

/-- The split that is tested from `start` on, with a number. -/
def walkOf (intervals : List LabelInterval) (trainSize testSize : ℕ) (expanding : Bool)
    (embargo : ℤ) (splitId start : ℕ) : Split :=
  { splitId := splitId
    trainIndices := kept intervals embargo (causal intervals trainSize expanding start)
      (List.range' start testSize)
    testIndices := List.range' start testSize }

theorem walkForwardSplit_eq_ok {splitId : ℕ} {split : Split}
    (h : walkForwardSplit intervals trainSize testSize expanding embargo splitId start =
      .ok split) :
    split = walkOf intervals trainSize testSize expanding embargo splitId start
      ∧ split.trainIndices ≠ [] := by
  unfold walkForwardSplit at h
  simp only [bind_eq_ok, purgeTraining_eq_ok, raiseIf_eq_ok] at h
  obtain ⟨_, ⟨-, -, -, -, -, rfl⟩, -, hne, hsplit⟩ := h
  obtain rfl := ok.inj hsplit
  exact ⟨rfl, hne⟩

/-- The label of `i` has ended when that of `t` starts. -/
def EndsBefore (intervals : List LabelInterval) (i t : ℕ) : Prop :=
  ∃ a ∈ intervals[i]?, ∃ b ∈ intervals[t]?, a.end_ < b.start

variable {t : ℕ}

theorem start_le_start (h : Chronological intervals) {s : ℕ} (hst : s ≤ t) {a b : LabelInterval}
    (ha : intervals[s]? = some a) (hb : intervals[t]? = some b) : a.start ≤ b.start := by
  have : IsTrans LabelInterval fun a b => a.start ≤ b.start := ⟨fun _ _ _ => Int.le_trans⟩
  obtain ⟨hs, rfl⟩ := List.getElem?_eq_some_iff.mp ha
  obtain ⟨ht, rfl⟩ := List.getElem?_eq_some_iff.mp hb
  rcases hst.eq_or_lt with rfl | hlt
  · exact Int.le_refl _
  · exact pairwise_iff_getElem.mp (isChain_iff_pairwise.mp h) s t hs ht hlt

/-- **What is trained on has ended** when any of the tests starts. -/
theorem endsBefore_of_mem_causal (h : Chronological intervals) {i : ℕ}
    (hstart : start + testSize ≤ intervals.length)
    (hi : i ∈ causal intervals trainSize expanding start) (ht : t ∈ List.range' start testSize) :
    EndsBefore intervals i t := by
  obtain ⟨hrange, hends⟩ := mem_filter.mp hi
  have hends := of_decide_eq_true hends
  obtain ⟨hlow, hhigh⟩ := mem_range'_1.mp ht
  have hbefore : i < start := by
    have := mem_range'_1.mp hrange
    omega
  have hgi : intervals[i]? = some intervals[i] := getElem?_eq_getElem (by omega)
  have hgs : intervals[start]? = some intervals[start] := getElem?_eq_getElem (by omega)
  have hgt : intervals[t]? = some intervals[t] := getElem?_eq_getElem (by omega)
  refine ⟨_, hgi, _, hgt, ?_⟩
  exact Int.lt_of_lt_of_le (hends _ hgi _ hgs) (start_le_start h hlow hgs hgt)

/-- **Splits that walk forward.** The tests are ranges of one size that share no
index, and what a split trains on has ended before its tests start. -/
structure WalksForward (intervals : List LabelInterval) (testSize : ℕ) (splits : List Split) :
    Prop where
  ranges : ∀ split ∈ splits, ∃ start, split.testIndices = List.range' start testSize
    ∧ start + testSize ≤ intervals.length
  disjoint : splits.Pairwise fun s t => s.testIndices.Disjoint t.testIndices
  causal : ∀ split ∈ splits, ∀ i ∈ split.trainIndices, ∀ t ∈ split.testIndices,
    EndsBefore intervals i t
  trained : ∀ split ∈ splits, split.trainIndices ≠ []

theorem walkForwardSplits_sound {trainSize testSize : ℤ} {step : Option ℤ} {splits : List Split}
    (h : walkForwardSplits intervals trainSize testSize step expanding embargo = .ok splits) :
    WalksForward intervals testSize.toNat splits := by
  unfold walkForwardSplits at h
  simp only [bind_eq_ok, validateIntervals_eq_ok, raiseIf_eq_ok] at h
  obtain ⟨-, ⟨hne, hchron⟩, -, hsizes, h⟩ := h
  obtain ⟨htrain, htest, hstride⟩ :
      1 ≤ trainSize ∧ 1 ≤ testSize ∧ testSize ≤ step.getD testSize := by
    omega
  let starts := pyRange trainSize.toNat (intervals.length + 1 - testSize.toNat)
    (step.getD testSize).toNat
  have hround : ∀ start ∈ starts, ∀ splitId split, walkForwardSplit intervals trainSize.toNat
      testSize.toNat expanding embargo splitId start = .ok split →
        split = walkOf intervals trainSize.toNat testSize.toNat expanding embargo splitId start :=
    fun _ _ _ _ h => (walkForwardSplit_eq_ok h).1
  obtain ⟨rfl, hall⟩ := (foldlM_number hround).mp h
  have hrange : ∀ p ∈ starts.zipIdx, p.1 + testSize.toNat ≤ intervals.length := by
    intro p hp
    have := (mem_pyRange (by omega) (fst_mem_of_mem_zipIdx hp)).2
    omega
  rw [nil_append]
  refine ⟨?_, ?_, ?_, ?_⟩
  · intro split hsplit
    obtain ⟨p, hp, rfl⟩ := mem_map.mp hsplit
    exact ⟨p.1, rfl, hrange p hp⟩
  · have hapart : starts.zipIdx.Pairwise fun p q => p.1 + (step.getD testSize).toNat ≤ q.1 := by
      have hstarts : starts.Pairwise _ := pairwise_range' _ _ _
      rw [← zipIdx_map_fst 0 starts] at hstarts
      exact pairwise_map.mp hstarts
    refine pairwise_map.mpr (hapart.imp fun hpq t hp hq => ?_)
    have := (mem_range'_1.mp hp).2
    have := (mem_range'_1.mp hq).1
    omega
  · intro split hsplit i hi t ht
    obtain ⟨p, hp, rfl⟩ := mem_map.mp hsplit
    exact endsBefore_of_mem_causal hchron (hrange p hp) (mem_kept.mp hi).1 ht
  · intro split hsplit
    obtain ⟨p, hp, rfl⟩ := mem_map.mp hsplit
    exact (walkForwardSplit_eq_ok (hall p hp)).2

end WalkForward

/-- **Purged splits.** The plan of `cpcv_splits` is sound whenever there is one,
and there is one for every valid input of which each choice of test groups leaves
something to train on; the splits of `walk_forward_splits` walk forward. -/
theorem purged_splits (intervals : List LabelInterval) (embargo : ℤ) :
    (∀ (groups testGroups : ℤ) (plan : CPCVPlan),
      cpcvSplits intervals groups testGroups embargo = .ok plan →
        plan.Sound intervals groups.toNat testGroups.toNat embargo)
    ∧ (∀ groups testGroups : ℤ, (∃ plan, cpcvSplits intervals groups testGroups embargo = .ok plan)
        ↔ Valid intervals embargo ∧ ValidGroups intervals groups testGroups
          ∧ ∀ selected ∈ List.combinations (List.range groups.toNat) testGroups.toNat,
              training intervals groups.toNat embargo selected ≠ [])
    ∧ ∀ (trainSize testSize : ℤ) (step : Option ℤ) (expanding : Bool) (splits : List Split),
        walkForwardSplits intervals trainSize testSize step expanding embargo = .ok splits →
          WalksForward intervals testSize.toNat splits := by
  refine ⟨fun groups testGroups plan h => ?_, fun groups testGroups => ⟨?_, ?_⟩,
    fun _ _ _ _ _ h => walkForwardSplits_sound h⟩
  · obtain ⟨hvalid, ⟨hone, hlt, -⟩, -, rfl⟩ := cpcvSplits_eq_ok.mp h
    exact planOf_sound (by omega) (by omega) hvalid.embargo_nonneg
  · rintro ⟨plan, h⟩
    obtain ⟨hvalid, hgroups, hne, -⟩ := cpcvSplits_eq_ok.mp h
    exact ⟨hvalid, hgroups, hne⟩
  · rintro ⟨hvalid, hgroups, hne⟩
    exact ⟨_, cpcvSplits_eq_ok.mpr ⟨hvalid, hgroups, hne, rfl⟩⟩

/-- Labels of `n` bars, each of which lasts until the next one starts. -/
def barLabels (n : ℕ) : List LabelInterval :=
  (List.range n).map fun i : ℕ => ⟨i, i + 1, Int.natCast_nonneg i, by omega⟩

/-- Eight bars in four groups, two of which are tested: six splits and three paths. -/
theorem purged_splits_eight : ∃ plan splits,
    cpcvSplits (barLabels 8) 4 2 0 = .ok plan ∧ plan.Sound (barLabels 8) 4 2 0
      ∧ plan.splits.length = 6 ∧ plan.paths.length = 3
      ∧ walkForwardSplits (barLabels 8) 3 2 none false 0 = .ok splits
      ∧ WalksForward (barLabels 8) 2 splits := by
  have hplan : (cpcvSplits (barLabels 8) 4 2 0).toOption.isSome = true := by decide +kernel
  have hsplits : (walkForwardSplits (barLabels 8) 3 2 none false 0).toOption.isSome = true := by
    decide +kernel
  obtain ⟨plan, hplan⟩ := Option.isSome_iff_exists.mp hplan
  obtain ⟨splits, hsplits⟩ := Option.isSome_iff_exists.mp hsplits
  have hplan := toOption_eq_some.mp hplan
  have hsplits := toOption_eq_some.mp hsplits
  obtain ⟨hsound, -, hwalk⟩ := purged_splits (barLabels 8) 0
  have hplanSound := hsound 4 2 plan hplan
  exact ⟨plan, splits, hplan, hplanSound, hplanSound.splits_length, hplanSound.paths_length,
    hsplits, hwalk 3 2 none false splits hsplits⟩

end Qt.Experiments.Splits
