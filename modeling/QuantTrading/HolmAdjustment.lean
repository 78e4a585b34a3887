import QuantTrading.Lib.Firsts
import QuantTrading.Lib.StepDown
import QuantTrading.Persistence

/-!
# Holm's adjustment

`holm_adjust` of `qt.experiments.statistics`, over rational numbers: the places are sorted by their
p-values, a running maximum goes along them, and is written back at each place. What it writes is
`adjusted`, which does not know of the order of the places – so ties and permutations make no
difference.
-/

namespace Qt.Statistics

open List StepDown

variable (values : List ℚ)

/-- `np.argsort`, with `kind="stable"`. -/
def argsort : List ℕ :=
  (List.range values.length).orderBy fun i => values.getD i 0

/-- What is bounded at a place with its rank. -/
def factored (place : ℕ × ℕ) : ℚ :=
  min 1 ((values.length - place.2) * values.getD place.1 0)

/-- A turn of the loop, at a place with its rank: the running maximum, and what is written. -/
def adjust (loop : ℚ × List ℚ) (place : ℕ × ℕ) : ℚ × List ℚ :=
  let running := max loop.1 (factored values place)
  (running, loop.2.set place.1 running)

def holmAdjust : Except Exc (List ℚ) :=
  if values.any fun v => v < 0 ∨ 1 < v then .error (.valueError "invalid_p_value")
  else .ok ((argsort values).zipIdx.foldl (adjust values) (0, replicate values.length 0)).2

/-! ## The loop -/

section Loop

variable {values : List ℚ}

/-- A running maximum is the greatest of what it saw and of where it began. -/
theorem isGreatest_running (f : ℕ × ℕ → ℚ) (places : List (ℕ × ℕ)) (r : ℚ) :
    IsGreatest {x | x = r ∨ ∃ e ∈ places, f e = x} (places.foldl (fun r e => max r (f e)) r) := by
  induction places generalizing r with
  | nil => simp [IsGreatest, upperBounds]
  | cons e places ih =>
    obtain ⟨hmem, hle⟩ := ih (max r (f e))
    constructor
    · rcases hmem with hmax | ⟨e', he', heq⟩
      · rw [foldl_cons, hmax]
        rcases max_choice r (f e) with h | h
        · exact .inl h
        · exact .inr ⟨e, mem_cons_self, h.symm⟩
      · exact .inr ⟨e', mem_cons_of_mem e he', heq⟩
    · have hstart := hle (Or.inl rfl)
      rintro x (rfl | ⟨e', he', rfl⟩)
      · exact (le_max_left _ _).trans hstart
      · rcases mem_cons.mp he' with rfl | he'
        · exact (le_max_right _ _).trans hstart
        · exact hle (Or.inr ⟨e', he', rfl⟩)

theorem length_foldl_adjust (places : List (ℕ × ℕ)) (loop : ℚ × List ℚ) :
    (places.foldl (adjust values) loop).2.length = loop.2.length := by
  induction places generalizing loop with
  | nil => rfl
  | cons e places ih => rw [foldl_cons, ih, adjust, length_set]

/-- A place that the loop does not come to keeps what is written there. -/
theorem getElem?_foldl_adjust (places : List (ℕ × ℕ)) (loop : ℚ × List ℚ) {i : ℕ}
    (hi : i ∉ places.map Prod.fst) : (places.foldl (adjust values) loop).2[i]? = loop.2[i]? := by
  induction places generalizing loop with
  | nil => rfl
  | cons e places ih =>
    simp only [map_cons, mem_cons, not_or] at hi
    rw [foldl_cons, ih _ hi.2, adjust, getElem?_set_ne (Ne.symm hi.1)]

/-- **What the loop writes** at a place is the running maximum when it comes there. -/
theorem foldl_adjust (values : List ℚ) (places : List (ℕ × ℕ)) (hnodup : (places.map Prod.fst).Nodup)
    (loop : ℚ × List ℚ) (hlt : ∀ e ∈ places, e.1 < loop.2.length) {k : ℕ} {e : ℕ × ℕ}
    (hk : places[k]? = some e) :
    (places.foldl (adjust values) loop).2[e.1]?
      = some ((places.take (k + 1)).foldl (fun r e => max r (factored values e)) loop.1) := by
  induction places generalizing loop k with
  | nil => simp at hk
  | cons first places ih =>
    rw [map_cons, nodup_cons] at hnodup
    cases k with
    | zero =>
      obtain rfl : first = e := by simpa using hk
      rw [foldl_cons, getElem?_foldl_adjust _ _ hnodup.1]
      show (loop.2.set first.1 _)[first.1]? = _
      rw [getElem?_set_self (hlt first mem_cons_self)]
      rfl
    | succ k =>
      have hk' : places[k]? = some e := by simpa using hk
      rw [foldl_cons, ih hnodup.2 _ (fun e' he' => ?_) hk']
      · rfl
      · rw [adjust, length_set]
        exact hlt e' (mem_cons_of_mem first he')

end Loop

/-! ## The order -/

theorem getD_eq_get (i : Fin values.length) : values.getD i 0 = values.get i := by
  rw [getD_eq_getElem?_getD, getElem?_eq_getElem i.isLt]
  rfl

section Order

variable (values : List ℚ)

theorem length_argsort : (argsort values).length = values.length := by
  rw [argsort, length_orderBy, length_range]

theorem nodup_argsort : (argsort values).Nodup :=
  (orderBy_perm _ _).nodup_iff.mpr nodup_range

theorem argsort_lt {i : ℕ} (h : i ∈ argsort values) : i < values.length := by
  simpa [argsort] using h

/-- The place of each rank. -/
noncomputable def ranked : Equiv.Perm (Fin values.length) :=
  Equiv.ofBijective (fun k => ⟨(argsort values).get ⟨k, (length_argsort values).symm ▸ k.isLt⟩,
      argsort_lt values (get_mem _ _)⟩)
    (Finite.injective_iff_bijective.mp fun _ _ hij => Fin.ext
      ((nodup_argsort values).getElem_inj_iff.mp (Fin.mk.inj_iff.mp hij)))

variable (k : Fin values.length)

theorem getElem?_argsort : (argsort values)[(k : ℕ)]? = some (ranked values k : ℕ) :=
  getElem?_eq_getElem _

theorem monotone_ranked : Monotone (values.get ∘ ranked values) := by
  intro i j hij
  rcases hij.eq_or_lt with rfl | hlt
  · exact le_rfl
  · have hpair := pairwise_iff_getElem.mp
      (pairwise_orderBy (fun i => values.getD i 0) (List.range values.length)) i j
      ((length_argsort values).symm ▸ i.isLt) ((length_argsort values).symm ▸ j.isLt) hlt
    show values.get (ranked values i) ≤ values.get (ranked values j)
    rw [← getD_eq_get values, ← getD_eq_get values]
    exact hpair

theorem getElem?_places :
    (argsort values).zipIdx[(k : ℕ)]? = some ((ranked values k : ℕ), (k : ℕ)) := by
  rw [getElem?_zipIdx, getElem?_argsort]
  simp

theorem factored_ranked : factored values (ranked values k, k)
    = min 1 ((values.length - k : ℕ) * values.get (ranked values k)) := by
  rw [factored, getD_eq_get, Nat.cast_sub k.isLt.le]

end Order

variable {values}

/-- The running maximum at a rank is the adjusted value of the place there. -/
theorem running_eq (hvalues : ∀ v ∈ values, 0 ≤ v ∧ v ≤ 1) (k : Fin values.length) :
    ((argsort values).zipIdx.take (k + 1)).foldl (fun r e => max r (factored values e)) 0
      = adjusted values.get (ranked values k) := by
  have hget : ∀ i, 0 ≤ values.get i ∧ values.get i ≤ 1 := fun i => hvalues _ (get_mem values i)
  have hrunning := isGreatest_running (factored values) ((argsort values).zipIdx.take (k + 1)) 0
  have hstep := isGreatest_adjusted (monotone_ranked values) (fun i => (hget i).1) k
  apply le_antisymm
  · rcases hrunning.1 with hzero | ⟨e, he, heq⟩
    · rw [hzero]
      exact (hget _).1.trans (le_adjusted (hget _).1 (hget _).2)
    · obtain ⟨j, hj, hje⟩ := mem_take_iff_getElem.mp he
      have hlen : j < values.length := by
        have := k.isLt
        omega
      have hplace : e = ((ranked values ⟨j, hlen⟩ : ℕ), j) := by
        have := getElem?_places values ⟨j, hlen⟩
        rw [getElem?_eq_getElem (by simpa [length_argsort] using hlen)] at this
        rw [← hje]
        exact Option.some.inj this
      rw [← heq, hplace, factored_ranked values ⟨j, hlen⟩]
      exact hstep.2 ⟨⟨j, hlen⟩, Fin.mk_le_of_le_val (by omega), rfl⟩
  · obtain ⟨j, hj, heq⟩ := hstep.1
    rw [← heq]
    show min 1 _ ≤ _
    rw [← factored_ranked values j]
    refine hrunning.2 (.inr ⟨_, mem_take_iff_getElem.mpr ⟨j, ?_, ?_⟩, rfl⟩)
    · have hjk : (j : ℕ) ≤ k := hj
      simp only [length_zipIdx, length_argsort]
      omega
    · have := getElem?_places values j
      rw [getElem?_eq_getElem (by simp [length_argsort])] at this
      exact Option.some.inj this


/-- **What Holm's adjustment is**: the step-down maximum, at each place. -/
theorem holmAdjust_eq (hvalues : ∀ v ∈ values, 0 ≤ v ∧ v ≤ 1) :
    holmAdjust values = .ok (ofFn (adjusted values.get)) := by
  have hvalid : ¬ values.any fun v => v < 0 ∨ 1 < v := by
    rw [any_eq_true]
    rintro ⟨v, hv, hbad⟩
    have := hvalues v hv
    rcases of_decide_eq_true hbad with h | h <;> linarith
  rw [holmAdjust, if_neg hvalid]
  congr 1
  have hfst : (argsort values).zipIdx.map Prod.fst = argsort values := zipIdx_map_fst _ _
  have hlt : ∀ e ∈ (argsort values).zipIdx, e.1 < (replicate values.length (0 : ℚ)).length :=
    fun e he => by
      rw [length_replicate]
      exact argsort_lt values (hfst ▸ mem_map_of_mem he)
  refine ext_getElem? fun i => ?_
  by_cases hi : i < values.length
  · let k := (ranked values).symm ⟨i, hi⟩
    have hki : ranked values k = ⟨i, hi⟩ := Equiv.apply_symm_apply _ _
    have hwritten := foldl_adjust values _ (hfst.symm ▸ nodup_argsort values)
      (0, replicate values.length 0) hlt (getElem?_places values k)
    rw [running_eq hvalues, hki] at hwritten
    rw [hwritten, List.getElem?_ofFn, dif_pos hi]
  · rw [getElem?_eq_none, getElem?_eq_none]
    · simpa using hi
    · rw [length_foldl_adjust]
      simpa using hi

variable {n : ℕ} {p : Fin n → ℚ}

theorem ofFn_adjusted_get (hlen : n = values.length) (hp : ∀ i, values.get (Fin.cast hlen i) = p i) :
    ofFn (adjusted values.get) = ofFn (adjusted p) := by
  subst hlen
  have hget : values.get = p := funext hp
  rw [hget]

theorem holmAdjust_ofFn (hp : ∀ i, 0 ≤ p i ∧ p i ≤ 1) :
    holmAdjust (ofFn p) = .ok (ofFn (adjusted p)) := by
  rw [holmAdjust_eq]
  · exact congrArg _ (ofFn_adjusted_get (length_ofFn (f := p)).symm fun i => get_ofFn p _)
  · intro v hv
    obtain ⟨i, rfl⟩ := mem_ofFn.mp hv
    exact hp i

/-- **Holm's adjustment**: of p-values it returns as many values, each between its p-value and one
and monotone in it; they are the step-down maxima along any sorted order of the places; and where
the p-values are permuted, so are they. -/
theorem holm_adjustment (values : List ℚ) (hvalues : ∀ v ∈ values, 0 ≤ v ∧ v ≤ 1) :
    ∃ out : Fin values.length → ℚ, holmAdjust values = .ok (ofFn out)
      ∧ (∀ i, values.get i ≤ out i ∧ out i ≤ 1)
      ∧ (∀ i j, values.get i ≤ values.get j → out i ≤ out j)
      ∧ (∀ σ : Equiv.Perm (Fin values.length), Monotone (values.get ∘ σ) → ∀ k,
          IsGreatest ((fun j : Fin values.length =>
            min 1 ((values.length - j : ℕ) * values.get (σ j))) '' Set.Iic k) (out (σ k)))
      ∧ ∀ σ : Equiv.Perm (Fin values.length),
          holmAdjust (ofFn (values.get ∘ σ)) = .ok (ofFn (out ∘ σ)) := by
  have hget : ∀ i, 0 ≤ values.get i ∧ values.get i ≤ 1 := fun i => hvalues _ (get_mem values i)
  refine ⟨adjusted values.get, holmAdjust_eq hvalues,
    fun i => ⟨le_adjusted (hget i).1 (hget i).2, adjusted_le_one _ i⟩, fun _ _ => adjusted_mono,
    fun σ hσ => isGreatest_adjusted hσ fun i => (hget i).1, fun σ => ?_⟩
  rw [holmAdjust_ofFn (p := values.get ∘ σ) fun i => hget (σ i)]
  congr 2
  exact funext fun i => adjusted_comp σ i

theorem holm_adjustment_tied :
    ∃ out : Fin 3 → ℚ, holmAdjust [1 / 50, 1 / 100, 1 / 50] = .ok (ofFn out)
      ∧ ∀ i, [1 / 50, 1 / 100, 1 / 50].get i ≤ out i ∧ out i ≤ 1 :=
  (holm_adjustment [1 / 50, 1 / 100, 1 / 50] (by decide +kernel)).imp fun _ h => ⟨h.1, h.2.1⟩

end Qt.Statistics
