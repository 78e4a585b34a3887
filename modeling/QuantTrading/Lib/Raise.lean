import Mathlib.Data.List.Forall2
import Mathlib.Tactic.SplitIfs

/-!
# Guards and exceptions

Code that validates its input raises at the first check that fails and goes
on otherwise. In `Except` a check is `raiseIf c e`, and what a proof needs
of such code is the converse of running it: from a normal return, that no
check raised. `bind_eq_ok` and `raiseIf_eq_ok` read a block of `do` notation
backwards in that way.

Code that changes a state in place and raises is a program of `EStateM`, whose
exceptions come with the state they leave behind. There the rules run forwards:
what a sequence does once its first part is known to return or to raise.
-/

namespace Except

open List

variable {ε α β : Type}

/-- Raise the exception if the condition holds. -/
def raiseIf (c : Prop) [Decidable c] (e : ε) : Except ε Unit :=
  if c then .error e else .ok ()

variable {b : β} {f : α → Except ε β} {x : Except ε α}

/-- **A sequence returns normally** exactly when its first part does and the
rest does on the value of the first. -/
theorem bind_eq_ok : (x >>= f) = .ok b ↔ ∃ a, x = .ok a ∧ f a = .ok b := by
  rcases x with e | a
  · constructor
    · intro h
      cases h
    · rintro ⟨_, h, _⟩
      cases h
  · exact ⟨fun h => ⟨a, rfl, h⟩, fun ⟨_, h, hf⟩ => (Except.ok.inj h) ▸ hf⟩

theorem of_bind (h : (x >>= f) = .ok b) : ∃ a, x = .ok a ∧ f a = .ok b := bind_eq_ok.mp h

variable {c : Prop} {e : ε}

/-- A check returns normally exactly when its condition fails. -/
@[simp] theorem raiseIf_eq_ok [Decidable c] {u : Unit} : raiseIf c e = .ok u ↔ ¬ c := by
  unfold raiseIf
  split_ifs with h <;> simp [h]

/-- **A check in front of a block** returns normally when the condition fails
and the block does. -/
theorem raiseIf_bind_eq_ok [Decidable c] {f : Unit → Except ε β} :
    (raiseIf c e >>= f) = .ok b ↔ ¬ c ∧ f () = .ok b := by
  rw [bind_eq_ok]
  exact ⟨fun ⟨_, h, hf⟩ => ⟨raiseIf_eq_ok.mp h, hf⟩, fun ⟨h, hf⟩ => ⟨(), raiseIf_eq_ok.mpr h, hf⟩⟩

theorem of_raiseIf [Decidable c] {f : Unit → Except ε β} (h : (raiseIf c e >>= f) = .ok b) :
    ¬ c ∧ f () = .ok b :=
  raiseIf_bind_eq_ok.mp h

/-- A check that does not raise goes on with the block. -/
theorem raiseIf_bind_of_not [Decidable c] {f : Unit → Except ε β} (h : ¬ c) :
    (raiseIf c e >>= f) = f () := by
  unfold raiseIf
  rw [if_neg h]
  rfl

theorem raiseIf_bind_of [Decidable c] {f : Unit → Except ε β} (h : c) :
    (raiseIf c e >>= f) = .error e := by
  unfold raiseIf
  rw [if_pos h]
  rfl

/-- A returned value in front of a block is handed to the block. -/
@[simp] theorem ok_bind (a : α) (f : α → Except ε β) : (Except.ok a >>= f) = f a := rfl

/-- An exception in front of a block is the outcome of the block. -/
@[simp] theorem error_bind (e : ε) (f : α → Except ε β) :
    ((Except.error e : Except ε α) >>= f) = .error e := rfl

theorem map_eq_ok {f : α → β} : f <$> x = .ok b ↔ ∃ a, x = .ok a ∧ f a = b := by
  cases x with
  | error e => exact ⟨nofun, nofun⟩
  | ok a =>
    constructor
    · intro h
      exact ⟨a, rfl, Except.ok.inj h⟩
    · rintro ⟨_, h, rfl⟩
      obtain rfl := Except.ok.inj h
      rfl

variable {l : List α} {out : List β}

variable {g : α → β}

/-- **A loop that collects results** returns normally when each of its rounds
does, if `g` says what a round returns when it does. -/
theorem mapM_eq_ok (hg : ∀ a ∈ l, ∀ b, f a = .ok b → b = g a) :
    l.mapM f = .ok out ↔ out = l.map g ∧ ∀ a ∈ l, f a = .ok (g a) := by
  induction l generalizing out with
  | nil =>
    rw [mapM_nil]
    exact ⟨fun h => ⟨(Except.ok.inj h).symm, fun _ ha => by cases ha⟩, fun h => congrArg _ h.1.symm⟩
  | cons a l ih =>
    have ih := fun {rest} => @ih rest (fun b hb => hg b (mem_cons_of_mem a hb))
    rw [mapM_cons, map_cons, forall_mem_cons]
    constructor
    · intro h
      obtain ⟨b, hb, h⟩ := bind_eq_ok.mp h
      obtain ⟨rest, hrest, h⟩ := bind_eq_ok.mp h
      obtain rfl : b = g a := hg a mem_cons_self b hb
      obtain ⟨rfl, hall⟩ := ih.mp hrest
      exact ⟨(Except.ok.inj h).symm, hb, hall⟩
    · rintro ⟨rfl, ha, hall⟩
      rw [ha, ok_bind, ih.mpr ⟨rfl, hall⟩]
      rfl

/-- A loop whose rounds all return normally collects what they return. -/
theorem mapM_of_ok (h : ∀ a ∈ l, f a = .ok (g a)) : l.mapM f = .ok (l.map g) :=
  (mapM_eq_ok fun a ha _ hb => Except.ok.inj (hb.symm.trans (h a ha))).mpr ⟨rfl, h⟩

/-- The order of the rounds is the order of what they return. -/
theorem mapM_perm {l' : List α} (hl : l.Perm l') (h : l.mapM f = .ok out) :
    ∃ out', l'.mapM f = .ok out' ∧ out.Perm out' := by
  induction hl generalizing out with
  | nil => exact ⟨out, h, .refl out⟩
  | cons a _ ih =>
    rw [mapM_cons] at h
    obtain ⟨b, hb, h⟩ := bind_eq_ok.mp h
    obtain ⟨rest, hrest, h⟩ := bind_eq_ok.mp h
    obtain rfl := Except.ok.inj h
    obtain ⟨rest', hrest', hperm⟩ := ih hrest
    exact ⟨b :: rest', by rw [mapM_cons, hb, ok_bind, hrest']; rfl, hperm.cons b⟩
  | swap a a' l =>
    rw [mapM_cons, mapM_cons] at h
    obtain ⟨b', hb', h⟩ := bind_eq_ok.mp h
    obtain ⟨_, hcons, h⟩ := bind_eq_ok.mp h
    obtain ⟨b, hb, hcons⟩ := bind_eq_ok.mp hcons
    obtain ⟨rest, hrest, hcons⟩ := bind_eq_ok.mp hcons
    obtain rfl := Except.ok.inj hcons
    obtain rfl := Except.ok.inj h
    refine ⟨b :: b' :: rest, ?_, .swap b b' rest⟩
    rw [mapM_cons, mapM_cons, hb, ok_bind, hb', ok_bind, hrest]
    rfl
  | trans _ _ ih ih' =>
    obtain ⟨out', hout', hperm⟩ := ih h
    obtain ⟨out'', hout'', hperm'⟩ := ih' hout'
    exact ⟨out'', hout'', hperm.trans hperm'⟩

/-- What a loop collects is what one of its rounds returns. -/
theorem mem_of_mapM_eq_ok (h : l.mapM f = .ok out) : b ∈ out ↔ ∃ a ∈ l, f a = .ok b := by
  induction l generalizing out with
  | nil =>
    rw [mapM_nil] at h
    obtain rfl := Except.ok.inj h
    simp
  | cons a l ih =>
    rw [mapM_cons] at h
    obtain ⟨c, hc, h⟩ := bind_eq_ok.mp h
    obtain ⟨rest, hrest, h⟩ := bind_eq_ok.mp h
    obtain rfl := Except.ok.inj h
    rw [mem_cons, ih hrest]
    constructor
    · rintro (rfl | ⟨d, hd, hb⟩)
      · exact ⟨a, mem_cons_self, hc⟩
      · exact ⟨d, mem_cons_of_mem a hd, hb⟩
    · rintro ⟨d, hd, hb⟩
      rcases mem_cons.mp hd with rfl | hd
      · exact .inl (Except.ok.inj (hb.symm.trans hc))
      · exact .inr ⟨d, hd, hb⟩

/-- What a round keeps of what it is given, a loop keeps of all. -/
theorem map_of_mapM_eq_ok {κ : Type} (key : α → κ) (key' : β → κ)
    (hkey : ∀ a b, f a = .ok b → key' b = key a) (h : l.mapM f = .ok out) :
    out.map key' = l.map key := by
  induction l generalizing out with
  | nil =>
    rw [mapM_nil] at h
    obtain rfl := Except.ok.inj h
    rfl
  | cons a l ih =>
    rw [mapM_cons] at h
    obtain ⟨b, hb, h⟩ := bind_eq_ok.mp h
    obtain ⟨rest, hrest, h⟩ := bind_eq_ok.mp h
    obtain rfl := Except.ok.inj h
    rw [map_cons, map_cons, hkey a b hb, ih hrest]

variable {a : α}

/-- In a loop that returns normally, each of its rounds does. -/
theorem exists_of_mapM_eq_ok (h : l.mapM f = .ok out) (ha : a ∈ l) : ∃ b, f a = .ok b := by
  induction l generalizing out with
  | nil => cases ha
  | cons c l ih =>
    rw [mapM_cons] at h
    obtain ⟨b, hb, h⟩ := bind_eq_ok.mp h
    obtain ⟨rest, hrest, -⟩ := bind_eq_ok.mp h
    rcases mem_cons.mp ha with rfl | ha
    · exact ⟨b, hb⟩
    · exact ih hrest ha

/-- What a loop raises is what one of its rounds raises. -/
theorem exists_of_mapM_eq_error (h : l.mapM f = .error e) : ∃ a ∈ l, f a = .error e := by
  induction l with
  | nil =>
    rw [mapM_nil] at h
    cases h
  | cons a l ih =>
    rw [mapM_cons] at h
    cases hfa : f a with
    | error e' =>
      rw [hfa, error_bind] at h
      obtain rfl := Except.error.inj h
      exact ⟨a, mem_cons_self, hfa⟩
    | ok b =>
      rw [hfa, ok_bind] at h
      cases hrest : l.mapM f with
      | error e' =>
        rw [hrest, error_bind] at h
        obtain rfl := Except.error.inj h
        obtain ⟨c, hc, he⟩ := ih hrest
        exact ⟨c, mem_cons_of_mem a hc, he⟩
      | ok rest =>
        rw [hrest, ok_bind] at h
        cases h

/-- A loop that reads back what was written, item by item, returns what was written. -/
theorem mapM_map_of_ok {g : β → α} {l : List β} (h : ∀ b ∈ l, f (g b) = .ok b) :
    (l.map g).mapM f = .ok l := by
  induction l with
  | nil => rfl
  | cons b l ih =>
    rw [map_cons, mapM_cons, h b mem_cons_self, ok_bind, ih fun c hc => h c (mem_cons_of_mem b hc)]
    rfl

/-- **A loop of checks** returns normally when every check does. -/
theorem forM_eq_ok {f : α → Except ε Unit} : l.forM f = .ok () ↔ ∀ a ∈ l, f a = .ok () := by
  induction l with
  | nil => exact ⟨(fun _ _ ha => by cases ha), fun _ => rfl⟩
  | cons a l ih =>
    rw [show (a :: l).forM f = (f a >>= fun _ => l.forM f) from rfl, forall_mem_cons, bind_eq_ok]
    exact ⟨fun ⟨_, ha, hl⟩ => ⟨ha, ih.mp hl⟩, fun ⟨ha, hl⟩ => ⟨(), ha, ih.mpr hl⟩⟩

/-- **A loop with an accumulator** whose rounds all return normally is the loop of
what they return. -/
theorem foldlM_of_ok {f : β → α → Except ε β} {g : β → α → β}
    (h : ∀ a ∈ l, ∀ b, f b a = .ok (g b a)) : l.foldlM f b = .ok (l.foldl g b) := by
  induction l generalizing b with
  | nil => rfl
  | cons a l ih =>
    rw [foldlM_cons, h a mem_cons_self, ok_bind, foldl_cons]
    exact ih fun c hc => h c (mem_cons_of_mem a hc)

/-- **An invariant of a loop with an accumulator** holds of what the loop returns. -/
theorem foldlM_inv {f : β → α → Except ε β} {P : β → Prop}
    (hstep : ∀ b, ∀ a ∈ l, ∀ b', P b → f b a = .ok b' → P b') {b' : β} (hb : P b)
    (h : l.foldlM f b = .ok b') : P b' := by
  induction l generalizing b with
  | nil => exact Except.ok.inj h ▸ hb
  | cons a l ih =>
    rw [foldlM_cons] at h
    obtain ⟨c, hc, h⟩ := bind_eq_ok.mp h
    refine ih (fun b a ha => hstep b a (mem_cons_of_mem _ ha)) ?_ h
    exact hstep b a mem_cons_self c hb hc

/-- **A loop that numbers what it makes** and puts it behind what there is returns
normally when each of its rounds does, if `g` says what a round returns when it does. -/
theorem foldlM_number {make : ℕ → α → Except ε β} {g : ℕ → α → β} {acc : List β}
    (hg : ∀ a ∈ l, ∀ i b, make i a = .ok b → b = g i a) :
    l.foldlM (fun acc a => make acc.length a >>= fun b => pure (acc ++ [b])) acc = .ok out
      ↔ out = acc ++ (l.zipIdx acc.length).map (fun p => g p.2 p.1)
        ∧ ∀ p ∈ l.zipIdx acc.length, make p.2 p.1 = .ok (g p.2 p.1) := by
  induction l generalizing acc with
  | nil =>
    rw [foldlM_nil, zipIdx_nil, map_nil, append_nil]
    exact ⟨fun h => ⟨(Except.ok.inj h).symm, fun _ hp => by cases hp⟩, fun h => congrArg _ h.1.symm⟩
  | cons a l ih =>
    have ih := fun {acc} => @ih acc (fun b hb => hg b (mem_cons_of_mem a hb))
    have hlength : ∀ b, (acc ++ [b]).length = acc.length + 1 := fun b => length_append
    rw [foldlM_cons, zipIdx_cons, map_cons, forall_mem_cons, bind_eq_ok]
    constructor
    · rintro ⟨next, hnext, h⟩
      obtain ⟨b, hb, hpure⟩ := bind_eq_ok.mp hnext
      obtain rfl := Except.ok.inj hpure
      obtain rfl : b = g acc.length a := hg a mem_cons_self _ b hb
      obtain ⟨rfl, hall⟩ := ih.mp h
      rw [hlength] at hall ⊢
      exact ⟨append_assoc .., hb, hall⟩
    · rintro ⟨rfl, ha, hall⟩
      refine ⟨acc ++ [g acc.length a], bind_eq_ok.mpr ⟨_, ha, rfl⟩, ih.mpr ⟨?_, ?_⟩⟩
      · rw [hlength, append_assoc]
        rfl
      · rw [hlength]
        exact hall

/-- **A loop over what a loop has collected** returns normally when the loop that does
both, item by item, does. -/
theorem mapM_bind_foldlM_eq_ok {σ : Type} {g : σ → β → Except ε σ} {s s' : σ} :
    (l.mapM f >>= fun bs => bs.foldlM g s) = .ok s'
      ↔ l.foldlM (fun s a => f a >>= g s) s = .ok s' := by
  induction l generalizing s with
  | nil => rw [mapM_nil, foldlM_nil]; rfl
  | cons a l ih =>
    rw [mapM_cons, foldlM_cons, bind_eq_ok, bind_eq_ok]
    constructor
    · rintro ⟨bs, hbs, h⟩
      obtain ⟨b, hb, hbs⟩ := bind_eq_ok.mp hbs
      obtain ⟨rest, hrest, hpure⟩ := bind_eq_ok.mp hbs
      obtain rfl := Except.ok.inj hpure
      rw [foldlM_cons] at h
      obtain ⟨m, hm, h⟩ := bind_eq_ok.mp h
      exact ⟨m, bind_eq_ok.mpr ⟨b, hb, hm⟩, ih.mp (bind_eq_ok.mpr ⟨rest, hrest, h⟩)⟩
    · rintro ⟨m, hm, h⟩
      obtain ⟨b, hb, hm⟩ := bind_eq_ok.mp hm
      obtain ⟨rest, hrest, h⟩ := bind_eq_ok.mp (ih.mpr h)
      refine ⟨b :: rest, bind_eq_ok.mpr ⟨b, hb, bind_eq_ok.mpr ⟨rest, hrest, rfl⟩⟩, ?_⟩
      rw [foldlM_cons, hm]
      exact h

theorem toOption_eq_some : x.toOption = some a ↔ x = .ok a := by
  cases x with
  | error => exact ⟨nofun, nofun⟩
  | ok b => exact ⟨fun h => congrArg _ (Option.some.inj h), fun h => congrArg _ (Except.ok.inj h)⟩

end Except

namespace EStateM

variable {ε σ α β : Type}

variable {s s' : σ}

variable {f : α → EStateM ε σ β} {x : EStateM ε σ α}

/-- A sequence whose first part returns goes on with the rest. -/
theorem bind_of_ok {a : α} (h : x s = .ok a s') : (x >>= f) s = f a s' := by
  show EStateM.bind x f s = _
  unfold EStateM.bind
  rw [h]

variable {e : ε}

theorem bind_of_error (h : x s = .error e s') : (x >>= f) s = .error e s' := by
  show EStateM.bind x f s = _
  unfold EStateM.bind
  rw [h]

/-- A loop whose rounds raise in every state or in none raises in every state or in none. -/
theorem forM_error {f : α → EStateM ε σ Unit}
    (hf : ∀ {a : α} {s s' : σ} {e : ε}, f a s = .error e s' → ∀ t, ∃ e' t', f a t = .error e' t')
    {l : List α} (h : l.forM f s = .error e s') (t : σ) : ∃ e' t', l.forM f t = .error e' t' := by
  induction l generalizing s t with
  | nil => exact nomatch h
  | cons a l ih =>
    change (f a >>= fun _ => l.forM f) s = _ at h
    show ∃ e' t', (f a >>= fun _ => l.forM f) t = _
    cases ht : f a t with
    | error e' t' => exact ⟨e', t', bind_of_error ht⟩
    | ok u t' =>
      cases hs : f a s with
      | error e' s₁ =>
        obtain ⟨e', t'', herror⟩ := hf hs t
        exact nomatch ht.symm.trans herror
      | ok u s₁ =>
        rw [bind_of_ok hs] at h
        rw [bind_of_ok ht]
        exact ih h t'

end EStateM
