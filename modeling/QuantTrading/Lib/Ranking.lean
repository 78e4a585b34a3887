import Mathlib.Algebra.Order.Group.Nat
import Mathlib.Data.Prod.Lex
import QuantTrading.Lib.Firsts

/-!
# The first rows of a ranking, and sums over positions

Ordering rows is stable: what is selected of the ordered rows is what is selected, ordered.
`top n rank l` are the first `n` rows by increasing rank. A row is among them when less than
`n` rows come before it (`mem_top_iff`), so that they stay the same when other rows move back
(`top_eq_of_le`).

`positions w key k i l` adds up weights by position: the weights of the positions, from `i` on,
where `l` has an element with the key `k`. With weights that decrease, it grows when other
elements are left out.
-/

namespace List

variable {α κ β M : Type}

section Order

variable [LinearOrder β] (rank : α → β)

theorem orderBy_cons (a : α) (l : List α) :
    (a :: l).orderBy rank = (l.orderBy rank).orderedInsert (fun a b => rank a ≤ rank b) a := rfl

variable {a : α} {l : List α}

theorem orderedInsert_of_forall_le (h : ∀ b ∈ l, rank a ≤ rank b) :
    l.orderedInsert (fun a b => rank a ≤ rank b) a = a :: l := by
  cases l with
  | nil => rfl
  | cons b l => exact orderedInsert_cons_of_le _ l (h b mem_cons_self)

theorem orderBy_cons_of_forall_le (h : ∀ b ∈ l, rank a ≤ rank b) :
    (a :: l).orderBy rank = a :: l.orderBy rank := by
  rw [orderBy_cons]
  exact orderedInsert_of_forall_le rank fun b hb => h b (mem_orderBy.mp hb)

theorem filter_orderedInsert (p : α → Bool) (a : α) (hl : l.Pairwise fun a b => rank a ≤ rank b) :
    (l.orderedInsert (fun a b => rank a ≤ rank b) a).filter p =
      if p a then (l.filter p).orderedInsert (fun a b => rank a ≤ rank b) a else l.filter p := by
  induction l with
  | nil => cases hp : p a <;> simp [hp]
  | cons b l ih =>
    by_cases hab : rank a ≤ rank b
    · have hall : ∀ c ∈ (b :: l).filter p, rank a ≤ rank c := by
        intro c hc
        obtain rfl | hc := mem_cons.mp (mem_of_mem_filter hc)
        · exact hab
        · exact hab.trans (rel_of_pairwise_cons hl hc)
      rw [orderedInsert_cons_of_le _ l hab, orderedInsert_of_forall_le rank hall, filter_cons]
    · rw [orderedInsert_of_not_le _ l hab, filter_cons, ih hl.of_cons, filter_cons]
      cases hb : p b with
      | false => simp
      | true => cases ha : p a <;> simp [hab]

/-- **The order is stable**: what is selected comes in the order in which it is ordered alone. -/
theorem filter_orderBy (p : α → Bool) (l : List α) :
    (l.orderBy rank).filter p = (l.filter p).orderBy rank := by
  induction l with
  | nil => rfl
  | cons a l ih =>
    rw [orderBy_cons, filter_orderedInsert rank p a (pairwise_orderBy rank l), ih, filter_cons]
    split_ifs <;> rfl

theorem filter_rank_orderBy (l : List α) (r : β) :
    (l.orderBy rank).filter (rank · = r) = l.filter (rank · = r) := by
  have hle : (l.filter (rank · = r)).Pairwise fun a b => rank a ≤ rank b :=
    pairwise_of_forall_mem_list fun a ha b hb => by
      rw [of_decide_eq_true (mem_filter.mp ha).2, of_decide_eq_true (mem_filter.mp hb).2]
  rw [filter_orderBy]
  exact hle.insertionSort_eq

/-- Where the elements are numbered, they are ordered by rank and then by number. -/
theorem orderBy_eq_orderBy_lex {number : α → ℕ} (h : l.Pairwise fun a b => number a < number b) :
    l.orderBy rank = l.orderBy fun a => toLex (rank a, number a) := by
  have hlt : (l.orderBy rank).Pairwise fun a b =>
      toLex (rank a, number a) < toLex (rank b, number b) := by
    induction l with
    | nil => exact Pairwise.nil
    | cons a l ih =>
      have hsorted := ih (pairwise_cons.mp h).2
      have ha : ∀ b ∈ l.orderBy rank, number a < number b := fun b hb =>
        (pairwise_cons.mp h).1 b (mem_orderBy.mp hb)
      rw [orderBy_cons]
      generalize l.orderBy rank = s at hsorted ha
      induction s with
      | nil => exact pairwise_singleton _ _
      | cons b s ihs =>
        rw [pairwise_cons] at hsorted
        rw [orderedInsert_cons]
        split_ifs with hle
        · have hab : toLex (rank a, number a) < toLex (rank b, number b) :=
            Prod.Lex.toLex_lt_toLex.mpr (hle.lt_or_eq.imp id fun heq => ⟨heq, ha b mem_cons_self⟩)
          exact .cons (forall_mem_cons.mpr ⟨hab, fun x hx => hab.trans (hsorted.1 x hx)⟩)
            (pairwise_cons.mpr hsorted)
        · refine .cons (fun x hx => ?_) (ihs hsorted.2 fun x hx => ha x (mem_cons_of_mem b hx))
          rcases (mem_orderedInsert _).mp hx with rfl | hx
          · exact Prod.Lex.toLex_lt_toLex.mpr (.inl (not_le.mp hle))
          · exact hsorted.1 x hx
  exact (orderBy_of_pairwise (fun a => toLex (rank a, number a)) hlt).symm.trans <|
    orderBy_eq_of_perm _ (orderBy_perm rank l) (pairwise_map.mpr (hlt.imp fun h => h.ne))

variable {γ : Type}

/-- The order of images is that of the ranks of the images. -/
theorem orderBy_map {rank : γ → β} (rank' : α → β) {f : α → γ} (h : ∀ a ∈ l, rank (f a) = rank' a) :
    (l.map f).orderBy rank = (l.orderBy rank').map f :=
  (map_insertionSort _ _ f l fun a ha b hb => by rw [h a ha, h b hb]).symm

/-- **The first `n` elements** by increasing rank. -/
def top (n : ℕ) (l : List α) : List α := (l.orderBy rank).take n

theorem map_top (f : γ → α) (n : ℕ) (l : List γ) :
    (l.map f).top rank n = (l.top (rank ∘ f) n).map f := by
  have hsort : (l.map f).orderBy rank = (l.orderBy (rank ∘ f)).map f := orderBy_map _ fun _ _ => rfl
  rw [top, hsort, top, map_take]

variable {rank}

variable {n : ℕ}

/-- Elements of different ranks: which ones come before another one. -/
theorem mem_take_iff_of_pairwise (hl : l.Pairwise fun a b => rank a < rank b) :
    a ∈ l.take n ↔ a ∈ l ∧ (l.filter fun b => rank b < rank a).length < n := by
  induction l generalizing n with
  | nil => simp
  | cons c l ih =>
    have hlt : ∀ b ∈ l, rank c < rank b := (pairwise_cons.mp hl).1
    cases n with
    | zero => simp
    | succ n =>
      rw [take_succ_cons, mem_cons, mem_cons, ih hl.of_cons]
      constructor
      · rintro (rfl | ⟨ha, hlength⟩)
        · refine ⟨.inl rfl, ?_⟩
          have hnil : (a :: l).filter (fun b => rank b < rank a) = [] := by
            refine filter_eq_nil_iff.mpr fun b hb => ?_
            obtain rfl | hb := mem_cons.mp hb
            · simp
            · simpa using (hlt b hb).le
          simp [hnil]
        · refine ⟨.inr ha, ?_⟩
          rw [filter_cons_of_pos (by simpa using hlt a ha), length_cons]
          omega
      · rintro ⟨rfl | ha, hlength⟩
        · exact .inl rfl
        · rw [filter_cons_of_pos (by simpa using hlt a ha), length_cons] at hlength
          exact .inr ⟨ha, by omega⟩

/-- **An element is among the first `n`** exactly if less than `n` elements come before it. -/
theorem mem_top_iff (hl : (l.map rank).Nodup) :
    a ∈ l.top rank n ↔ a ∈ l ∧ (l.filter fun b => rank b < rank a).length < n := by
  rw [top, mem_take_iff_of_pairwise (pairwise_lt_orderBy rank hl), mem_orderBy,
    ((orderBy_perm rank l).filter _).length_eq]

theorem nodup_top (hl : (l.map rank).Nodup) : (l.top rank n).Nodup :=
  ((orderBy_perm rank l).nodup_iff.mpr (Nodup.of_map rank hl)).sublist (take_sublist _ _)

theorem length_top (n : ℕ) (l : List α) : (l.top rank n).length = min n l.length := by
  rw [top, length_take, length_orderBy]

/-- **The first elements stay**, in their order, when the others move back. -/
theorem top_eq_of_le {rank' : α → β} (hl : (l.map rank).Nodup) (hl' : (l.map rank').Nodup)
    (hle : ∀ a ∈ l, rank a ≤ rank' a) (htop : ∀ a ∈ l.top rank n, rank' a = rank a) :
    l.top rank' n = l.top rank n := by
  have hsub : ∀ a ∈ l.top rank n, a ∈ l.top rank' n := by
    intro a ha
    have hmem := (mem_top_iff hl).mp ha
    refine (mem_top_iff hl').mpr ⟨hmem.1, lt_of_le_of_lt ?_ hmem.2⟩
    rw [← countP_eq_length_filter, ← countP_eq_length_filter]
    refine countP_mono_left fun b hb hlt => ?_
    rw [decide_eq_true_eq, htop a ha] at hlt
    exact decide_eq_true ((hle b hb).trans_lt hlt)
  have hperm : l.top rank n ~ l.top rank' n := by
    refine (subperm_of_subset (nodup_top hl) hsub).perm_of_length_le ?_
    rw [length_top, length_top]
  have hpair : (l.top rank n).Pairwise fun a b => rank' a < rank' b := by
    refine ((pairwise_lt_orderBy rank hl).sublist (take_sublist n _)).imp_of_mem
      fun {a b} ha hb hlt => ?_
    rwa [htop a ha, htop b hb]
  exact eq_of_pairwise_rank rank' ((pairwise_lt_orderBy rank' hl').sublist (take_sublist n _))
    hpair fun a => hperm.mem_iff.symm

end Order

section Positions

variable [DecidableEq κ] [AddCommMonoid M] (w : ℕ → M) (key : α → κ) (k : κ)

/-- **The weights of the positions** at which a key occurs, counted from `i`. -/
def positions : ℕ → List α → M
  | _, [] => 0
  | i, a :: l => (if key a = k then w i else 0) + positions (i + 1) l

/-- Of the first elements only the first positions count. -/
theorem positions_take (n : ℕ) (l : List α) (i : ℕ) : positions w key k i (l.take n) =
      positions (fun j => if j < i + n then w j else 0) key k i l := by
  induction l generalizing n i with
  | nil => rw [take_nil]; rfl
  | cons a l ih =>
    cases n with
    | zero =>
      have hzero : ∀ (l : List α) (j : ℕ), i ≤ j →
          positions (fun j => if j < i + 0 then w j else 0) key k j l = 0 := by
        intro l
        induction l with
        | nil => exact fun _ _ => rfl
        | cons b l ih =>
          intro j hj
          rw [positions, ih (j + 1) (by omega), if_neg (by omega : ¬ j < i + 0), ite_self, add_zero]
      exact (hzero (a :: l) i le_rfl).symm
    | succ n =>
      rw [take_succ_cons, positions, positions, ih n (i + 1), if_pos (by omega : i < i + (n + 1)),
        show i + 1 + n = i + (n + 1) by omega]

variable {w key k}

variable {l : List α}

theorem positions_eq_zero (h : k ∉ l.map key) (i : ℕ) : positions w key k i l = 0 := by
  induction l generalizing i with
  | nil => rfl
  | cons a l ih =>
    rw [map_cons, mem_cons, not_or] at h
    rw [positions, if_neg (Ne.symm h.1), ih h.2, add_zero]

variable [PartialOrder M] [IsOrderedCancelAddMonoid M]

variable {i : ℕ}

/-- **Leaving out other elements** moves a key to the front. -/
theorem positions_le_filter (hw : Antitone w) {q : α → Bool} (l : List α)
    (hq : ∀ a ∈ l, key a = k → q a = true) {j : ℕ} (hij : i ≤ j) :
    positions w key k j l ≤ positions w key k i (l.filter q) := by
  induction l generalizing i j with
  | nil => exact le_rfl
  | cons a l ih =>
    have hl : ∀ b ∈ l, key b = k → q b = true := fun b hb => hq b (mem_cons_of_mem a hb)
    cases ha : q a with
    | true =>
      rw [filter_cons_of_pos ha, positions, positions]
      refine add_le_add ?_ (ih hl (Nat.succ_le_succ hij))
      split_ifs
      · exact hw hij
      · exact le_rfl
    | false =>
      have hne : key a ≠ k := fun hk => by simp [hq a mem_cons_self hk] at ha
      rw [filter_cons_of_neg (by simp [ha]), positions, if_neg hne, zero_add]
      exact ih hl (hij.trans j.le_succ)

theorem positions_nonneg (hw : ∀ i, 0 ≤ w i) (l : List α) (i : ℕ) : 0 ≤ positions w key k i l := by
  induction l generalizing i with
  | nil => exact le_rfl
  | cons a l ih =>
    refine add_nonneg ?_ (ih (i + 1))
    split_ifs
    · exact hw i
    · exact le_rfl

theorem positions_succ_le (hw : Antitone w) (l : List α) (i : ℕ) :
    positions w key k (i + 1) l ≤ positions w key k i l := by
  induction l generalizing i with
  | nil => exact le_rfl
  | cons a l ih =>
    refine add_le_add ?_ (ih (i + 1))
    split_ifs
    · exact hw i.le_succ
    · exact le_rfl

/-- **A key moves back** when something is put in front of it. -/
theorem positions_succ_lt (hw : Antitone w) {n : ℕ} (hlt : ∀ j < i + n, w (j + 1) < w j)
    (h : k ∈ (l.take n).map key) : positions w key k (i + 1) l < positions w key k i l := by
  induction l generalizing n i with
  | nil => simp at h
  | cons a l ih =>
    cases n with
    | zero => simp at h
    | succ n =>
      rw [take_succ_cons, map_cons, mem_cons] at h
      by_cases ha : key a = k
      · rw [positions, positions, if_pos ha, if_pos ha]
        exact add_lt_add_of_lt_of_le (hlt i (by omega)) (positions_succ_le hw l (i + 1))
      · rw [positions, positions, if_neg ha, if_neg ha, zero_add, zero_add]
        exact ih (fun j hj => hlt j (by omega)) (h.resolve_left (Ne.symm ha))

end Positions

end List
