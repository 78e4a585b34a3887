import Mathlib.Data.List.Induction
import Mathlib.Data.List.Sort

/-!
# Ordering rows, and the first row of each key

`orderBy rank l` lists the elements of `l` by increasing `rank`, and
`firsts key l` keeps of each key the element that comes first. Where no two
elements have one rank, `orderBy` is determined by what it lists, in whatever
order that comes in, and the first element of a key is the one of smallest rank.
So `firsts` over `orderBy` does not change when elements are added that come
after one with their key.
-/

namespace List

variable {α κ β : Type}

section Order

variable [LinearOrder β] (rank : α → β)

/-- **The elements by increasing rank** (`ORDER BY rank`). -/
def orderBy (l : List α) : List α := l.insertionSort fun a b => rank a ≤ rank b

variable {l : List α}

variable {a : α}

@[simp] theorem mem_orderBy {rank : α → β} : a ∈ l.orderBy rank ↔ a ∈ l :=
  mem_insertionSort _

theorem orderBy_perm (l : List α) : l.orderBy rank ~ l := perm_insertionSort _ l

@[simp] theorem length_orderBy (l : List α) : (l.orderBy rank).length = l.length :=
  (orderBy_perm rank l).length_eq

theorem pairwise_orderBy (l : List α) : (l.orderBy rank).Pairwise fun a b => rank a ≤ rank b := by
  have htrans : IsTrans α fun a b => rank a ≤ rank b := ⟨fun _ _ _ => le_trans⟩
  have htotal : Std.Total fun a b : α => rank a ≤ rank b := ⟨fun a b => le_total (rank a) (rank b)⟩
  exact pairwise_insertionSort _ l

/-- Without two elements of one rank, the ranks increase strictly. -/
theorem pairwise_lt_orderBy (h : (l.map rank).Nodup) :
    (l.orderBy rank).Pairwise fun a b => rank a < rank b := by
  have hne : (l.orderBy rank).Pairwise fun a b => rank a ≠ rank b :=
    pairwise_map.mp (((orderBy_perm rank l).map rank).nodup_iff.mpr h)
  exact ((pairwise_orderBy rank l).and hne).imp fun h => h.1.lt_of_ne h.2

variable {l' : List α}

/-- Lists whose ranks increase strictly are the same when their elements are. -/
theorem eq_of_pairwise_rank (h : l.Pairwise fun a b => rank a < rank b)
    (h' : l'.Pairwise fun a b => rank a < rank b) (hmem : ∀ a, a ∈ l ↔ a ∈ l') : l = l' := by
  have : Std.Irrefl fun a b : α => rank a < rank b := ⟨fun a => lt_irrefl (rank a)⟩
  have : Std.Antisymm fun a b : α => rank a < rank b := ⟨fun _ _ hab hba => absurd hab hba.asymm⟩
  exact h.eq_of_mem_iff h' hmem

/-- The order in which elements of different ranks come does not matter. -/
theorem orderBy_eq_of_perm (h : l ~ l') (hnodup : (l.map rank).Nodup) :
    l.orderBy rank = l'.orderBy rank :=
  eq_of_pairwise_rank rank (pairwise_lt_orderBy rank hnodup)
    (pairwise_lt_orderBy rank ((h.map rank).nodup_iff.mp hnodup)) fun _ => by
      rw [mem_orderBy, mem_orderBy, h.mem_iff]

/-- Nor does it for elements that their ranks tell apart. -/
theorem orderBy_eq_of_perm_of_injective (h : l ~ l') (hrank : Function.Injective rank) :
    l.orderBy rank = l'.orderBy rank :=
  Perm.eq_of_pairwise (fun _ _ _ _ hab hba => hrank (le_antisymm hab hba))
    (pairwise_orderBy rank l) (pairwise_orderBy rank l')
    ((orderBy_perm rank l).trans (h.trans (orderBy_perm rank l').symm))

/-- What is selected of an ordered list is in its own order, if that is strict. -/
theorem filter_orderBy_of_pairwise {p : α → Bool}
    (h : (l.filter p).Pairwise fun a b => rank a < rank b) :
    (l.orderBy rank).filter p = l.filter p := by
  have hperm : (l.orderBy rank).filter p ~ l.filter p := (orderBy_perm rank l).filter p
  have hnodup : ((l.filter p).map rank).Nodup := pairwise_map.mpr (h.imp fun h => h.ne)
  have hne : ((l.orderBy rank).filter p).Pairwise fun a b => rank a ≠ rank b :=
    pairwise_map.mp ((hperm.map rank).nodup_iff.mpr hnodup)
  refine eq_of_pairwise_rank rank ?_ h fun a => hperm.mem_iff
  exact (((pairwise_orderBy rank l).filter p).and hne).imp fun h => h.1.lt_of_ne h.2

theorem orderBy_of_pairwise (h : l.Pairwise fun a b => rank a < rank b) : l.orderBy rank = l := by
  have hne : (l.map rank).Nodup := pairwise_map.mpr (h.imp fun h => h.ne)
  exact eq_of_pairwise_rank rank (pairwise_lt_orderBy rank hne) h fun a => mem_orderBy

theorem getLast?_eq_some_iff_of_pairwise (h : l.Pairwise fun a b => rank a < rank b) :
    l.getLast? = some a ↔ a ∈ l ∧ ∀ b ∈ l, rank b ≤ rank a := by
  induction l using List.reverseRecOn with
  | nil => simp
  | append_singleton l c _ =>
    have hlt : ∀ b ∈ l, rank b < rank c := fun b hb =>
      (pairwise_append.mp h).2.2 b hb c (mem_singleton.mpr rfl)
    rw [getLast?_concat, Option.some.injEq]
    constructor
    · rintro rfl
      refine ⟨mem_append_right _ (mem_singleton.mpr rfl), fun b hb => ?_⟩
      rcases mem_append.mp hb with hb | hb
      · exact (hlt b hb).le
      · rw [mem_singleton.mp hb]
    · rintro ⟨ha, hall⟩
      rcases mem_append.mp ha with ha | ha
      · exact absurd (hall c (mem_append_right _ (mem_singleton.mpr rfl))) (not_le.mpr (hlt a ha))
      · exact (mem_singleton.mp ha).symm

end Order

section Firsts

variable [DecidableEq κ] (key : α → κ)

/-- Append an element unless its key is there. -/
def addFirst (acc : List α) (a : α) : List α := if key a ∈ acc.map key then acc else acc ++ [a]

/-- **The first element of each key.** -/
def firsts (l : List α) : List α := l.foldl (addFirst key) []

@[simp] theorem firsts_nil : firsts key [] = [] := rfl

theorem firsts_concat (l : List α) (a : α) :
    firsts key (l ++ [a]) = addFirst key (firsts key l) a := by
  show (l ++ [a]).foldl (addFirst key) [] = _
  rw [foldl_append]
  rfl

theorem firsts_append (l m : List α) :
    firsts key (l ++ m) = m.foldl (addFirst key) (firsts key l) := by
  show (l ++ m).foldl (addFirst key) [] = _
  rw [foldl_append]
  rfl

variable {l : List α}

/-- Without two elements of one key, each is the first of its key. -/
theorem firsts_eq_self (h : (l.map key).Nodup) : firsts key l = l := by
  induction l using List.reverseRecOn with
  | nil => rfl
  | append_singleton l a ih =>
    rw [map_append, nodup_append] at h
    have hnot : key a ∉ l.map key := fun ha => h.2.2 _ ha _ (mem_singleton.mpr rfl) rfl
    rw [firsts_concat, ih h.1, addFirst, if_neg hnot]

variable {l' : List α}

/-- What is appended to rearranged elements is the same, and in the same order. -/
theorem foldl_addFirst_perm (h : l ~ l') (m : List α) :
    m.foldl (addFirst key) l ~ m.foldl (addFirst key) l' := by
  induction m generalizing l l' with
  | nil => exact h
  | cons a m ih =>
    refine ih ?_
    unfold addFirst
    have hmem : key a ∈ l.map key ↔ key a ∈ l'.map key := (h.map key).mem_iff
    simp only [hmem]
    split_ifs
    · exact h
    · exact h.append_right [a]

theorem mem_map_firsts {k : κ} : k ∈ (firsts key l).map key ↔ k ∈ l.map key := by
  induction l using List.reverseRecOn with
  | nil => rfl
  | append_singleton l a ih =>
    rw [firsts_concat, addFirst]
    split_ifs with h
    · rw [ih, map_append, mem_append, map_singleton, mem_singleton]
      exact ⟨Or.inl, fun hk => hk.elim id fun hk => hk ▸ ih.mp (hk ▸ h)⟩
    · rw [map_append, map_append, mem_append, mem_append, ih]

theorem firsts_sublist (l : List α) : firsts key l <+ l := by
  induction l using List.reverseRecOn with
  | nil => exact Sublist.refl _
  | append_singleton l a ih =>
    rw [firsts_concat, addFirst]
    split_ifs with h
    · exact ih.trans (sublist_append_left l [a])
    · exact ih.append (Sublist.refl [a])

theorem nodup_map_addFirst (h : (l.map key).Nodup) (a : α) :
    ((addFirst key l a).map key).Nodup := by
  unfold addFirst
  split_ifs with ha
  · exact h
  · rw [map_append, map_singleton, ← concat_eq_append]
    exact h.concat ha

theorem nodup_map_firsts (l : List α) : ((firsts key l).map key).Nodup := by
  induction l using List.reverseRecOn with
  | nil => exact nodup_nil
  | append_singleton l a ih =>
    rw [firsts_concat]
    exact nodup_map_addFirst key ih a

variable {a : α}

/-- Where elements of one key are the same, nothing is left out. -/
theorem mem_firsts_of_replay {key : α → κ} (h : ∀ a ∈ l, ∀ b ∈ l, key a = key b → a = b) :
    a ∈ firsts key l ↔ a ∈ l := by
  refine ⟨fun ha => (firsts_sublist key l).subset ha, fun ha => ?_⟩
  obtain ⟨b, hb, hk⟩ := mem_map.mp ((mem_map_firsts key).mpr (mem_map_of_mem ha))
  rwa [h a ha b ((firsts_sublist key l).subset hb) hk.symm]

variable [LinearOrder β] {rank : α → β}

/-- **The first of its key is the one of smallest rank**, where elements of one rank are
the same. -/
theorem mem_firsts_iff_of_le (h : l.Pairwise fun a b => rank a ≤ rank b)
    (hreplay : ∀ a ∈ l, ∀ b ∈ l, rank a = rank b → a = b) :
    a ∈ firsts key l ↔ a ∈ l ∧ ∀ b ∈ l, key b = key a → rank a ≤ rank b := by
  induction l using List.reverseRecOn with
  | nil => simp
  | append_singleton l c ih =>
    have hl : l.Pairwise fun a b => rank a ≤ rank b := (pairwise_append.mp h).1
    have ih := ih hl fun a ha b hb =>
      hreplay a (mem_append_left _ ha) b (mem_append_left _ hb)
    have hle : ∀ b ∈ l, rank b ≤ rank c := fun b hb =>
      (pairwise_append.mp h).2.2 b hb c (mem_singleton.mpr rfl)
    have hold : a ∈ l → ((∀ b ∈ l ++ [c], key b = key a → rank a ≤ rank b) ↔
        ∀ b ∈ l, key b = key a → rank a ≤ rank b) := by
      intro ha
      refine ⟨fun hall b hb => hall b (mem_append_left _ hb), fun hall b hb hk => ?_⟩
      rcases mem_append.mp hb with hb | hb
      · exact hall b hb hk
      · rw [mem_singleton.mp hb]
        exact hle a ha
    have hsub : a ∈ firsts key l → a ∈ l := fun ha => (firsts_sublist key l).subset ha
    rw [firsts_concat, addFirst]
    simp only [mem_map_firsts]
    split_ifs with hc
    · obtain ⟨b, hb, hbc⟩ := mem_map.mp hc
      constructor
      · intro ha
        have hal := hsub ha
        exact ⟨mem_append_left _ hal, (hold hal).mpr (ih.mp ha).2⟩
      · rintro ⟨ha, hall⟩
        -- The appended element is the one of its key that is there, if it is not above it.
        have hal : a ∈ l := by
          rcases mem_append.mp ha with ha | ha
          · exact ha
          · rw [mem_singleton.mp ha] at hall ⊢
            have heq : rank c = rank b := (hall b (mem_append_left _ hb) hbc).antisymm (hle b hb)
            rwa [hreplay c (mem_append_right _ (mem_singleton.mpr rfl)) b
              (mem_append_left _ hb) heq]
        exact ih.mpr ⟨hal, (hold hal).mp hall⟩
    · rw [mem_append, mem_singleton]
      constructor
      · rintro (ha | rfl)
        · have hal := hsub ha
          exact ⟨mem_append_left _ hal, (hold hal).mpr (ih.mp ha).2⟩
        · refine ⟨mem_append_right _ (mem_singleton.mpr rfl), fun b hb hk => ?_⟩
          rcases mem_append.mp hb with hb | hb
          · exact absurd (mem_map.mpr ⟨b, hb, hk⟩) hc
          · rw [mem_singleton.mp hb]
      · rintro ⟨ha, hall⟩
        rcases mem_append.mp ha with ha | ha
        · exact Or.inl (ih.mpr ⟨ha, (hold ha).mp hall⟩)
        · exact Or.inr (mem_singleton.mp ha)

/-- The first of its key is the one of smallest rank, where ranks increase strictly. -/
theorem mem_firsts_iff (h : l.Pairwise fun a b => rank a < rank b) :
    a ∈ firsts key l ↔ a ∈ l ∧ ∀ b ∈ l, key b = key a → rank a ≤ rank b := by
  refine mem_firsts_iff_of_le key (h.imp le_of_lt) fun a ha b hb heq => ?_
  exact inj_on_of_nodup_map (pairwise_map.mpr (h.imp ne_of_lt)) ha hb heq

/-- **What comes later does not matter**: elements added after one with their key
leave the first elements as they are. -/
theorem firsts_eq_of_later (h : l.Pairwise fun a b => rank a < rank b)
    (h' : l'.Pairwise fun a b => rank a < rank b) (hsub : ∀ a ∈ l, a ∈ l')
    (hlater : ∀ b ∈ l', b ∉ l → ∃ a ∈ l, key a = key b ∧ rank a < rank b) :
    firsts key l' = firsts key l := by
  refine eq_of_pairwise_rank rank (h'.sublist (firsts_sublist key l'))
    (h.sublist (firsts_sublist key l)) (fun a => ?_)
  rw [mem_firsts_iff key h', mem_firsts_iff key h]
  constructor
  · rintro ⟨ha, hall⟩
    refine ⟨?_, fun b hb => hall b (hsub b hb)⟩
    by_contra hnot
    obtain ⟨b, hb, hk, hlt⟩ := hlater a ha hnot
    exact absurd hlt (not_lt.mpr (hall b (hsub b hb) hk))
  · rintro ⟨ha, hall⟩
    refine ⟨hsub a ha, fun b hb hk => ?_⟩
    by_cases hbl : b ∈ l
    · exact hall b hbl hk
    · obtain ⟨c, hc, hkc, hlt⟩ := hlater b hb hbl
      exact (hall c hc (hkc.trans hk)).trans hlt.le

end Firsts

end List
