import QuantTrading.NativeFills

/-!
# Protective orders

A position of the native host is protected by at most one take-profit and at most one
stop. A new request does not stack a second order beside the first: it is kept as pending,
the first order is asked to be canceled, and the pending one is submitted when the venue
reports the cancellation.

What the router goes by is `_active_protection`, and the venue need not agree with it. A
partial fill takes the order out of `_active_protection` although it is still live, and
so does `CANCEL_ALL` before the venue has answered: the next request is stacked beside
it. A pending request waits for a cancellation of the active order, and is dropped when
the order ends in another way. `protections` says that nothing else goes wrong: as long
as requests find the router and the venue in agreement, and an order with a replacement
pending ends by a cancellation that the router will connect with it, there is never a
second order, and no request is dropped.
-/

namespace Qt.Nautilus

open Venue List Function Option

variable {σ : Type}

/-! ## What is asked -/

variable (kind : ProtectionKind)

def IsProtection (order : NativeOrder) : Prop :=
  order.protection.map Prod.fst = some kind

instance (kind : ProtectionKind) (order : NativeOrder) : Decidable (IsProtection kind order) :=
  inferInstanceAs (Decidable (_ = _))

/-- The order is a protection of the kind, and the venue can still fill it. -/
def Host.LiveProtection (h : Host σ) (clientOrderId : ℕ) : Prop :=
  h.book.Live (IsProtection kind) clientOrderId

/-- **A protection on its way out**: it is live, and its cancellation is in flight. -/
def Host.Leaving (h : Host σ) : Prop :=
  ∃ clientOrderId o, h.book.order? clientOrderId = some o ∧ o.status.IsOpen ∧
    IsProtection kind o.info ∧ o.cancelRequested = true

/-- An order was submitted for the request. It is live, or the venue has ended it. -/
def Host.Placed (number : ℕ) (h : Host σ) : Prop :=
  ∃ clientOrderId o, h.book.order? clientOrderId = some o ∧
    o.info.protection = some (kind, number) ∧
    (o.status.IsOpen ∨ o.status = .filled ∨ o.status = .canceled ∨ o.status = .rejected)

/-- The request waits for an order whose cancellation is in flight. -/
def Host.Waits (number : ℕ) (h : Host σ) : Prop :=
  (∃ p, h.router.pendingProtection kind = some p ∧ p.number = number) ∧ h.Leaving kind

/-- **What protections are to be**: one live order of a kind at most, and the latest
request that was not withdrawn is placed or waits. -/
structure Host.Protected (h : Host σ) : Prop where
  unique : ∀ kind i j, h.LiveProtection kind i → h.LiveProtection kind j → i = j
  latest : ∀ kind number, h.latest kind = some number → h.Placed kind number ∨ h.Waits kind number

/-- The live protection of the kind is the one that the router takes for active. -/
def Host.Agrees (h : Host σ) : Prop :=
  ∀ clientOrderId, h.LiveProtection kind clientOrderId ↔
    h.router.activeProtection kind = some clientOrderId ∧ h.router.submitted clientOrderId ≠ none

instance (kind : ProtectionKind) (h : Host σ) (id : ℕ) : Decidable (h.LiveProtection kind id) :=
  inferInstanceAs (Decidable (Book.Live ..))

variable {h : Host σ} {kind}

theorem agrees_iff : h.Agrees kind ↔ (∀ id < h.book.next, h.LiveProtection kind id ↔
        h.router.activeProtection kind = some id ∧ h.router.submitted id ≠ none) ∧
      ∀ id ∈ h.router.activeProtection kind, h.router.submitted id ≠ none → id < h.book.next := by
  constructor
  · exact fun ha => ⟨fun id _ => ha id, fun id hid hsub => ((ha id).mpr ⟨hid, hsub⟩).lt_next⟩
  · rintro ⟨hold, hactive⟩ id
    by_cases hid : id < h.book.next
    · exact hold id hid
    · exact ⟨fun hlive => absurd hlive.lt_next hid,
        fun ⟨ha, hsub⟩ => absurd (hactive id ha hsub) hid⟩

instance (kind : ProtectionKind) (h : Host σ) : Decidable (h.Agrees kind) :=
  decidable_of_iff _ agrees_iff.symm

/-- The piece that runs next: a request finds the router and the venue in agreement, and
no request was made while the venue was called to cancel all orders. -/
def Task.Agrees (h : Host σ) : Task σ → Prop
  | .intent _ i =>
    match i.command with
    | .ok (.place kind _ _ _) => h.Agrees kind
    | _ => True
  | .clear => ∀ kind p, h.router.pendingProtection kind = some p → h.latest kind ≠ some p.number
  | _ => True

instance (h : Host σ) (task : Task σ) : Decidable (task.Agrees h) :=
  match task with
  | .intent _ i =>
    match hc : i.command with
    | .ok (.place kind _ _ _) => decidable_of_iff (h.Agrees kind) (by simp [Task.Agrees, hc])
    | .ok .cancelAll | .ok (.cancelEntries _) | .ok (.replaceLadder ..) | .ok (.marketEnter ..)
    | .ok (.limitIocEnter ..) | .ok (.marketExit ..) | .error _ =>
      isTrue (by simp [Task.Agrees, hc])
  | .clear => inferInstanceAs (Decidable (∀ kind, ∀ p ∈ h.router.pendingProtection kind,
      h.latest kind ≠ some p.number))
  | .cancelEntry .. | .rung .. | .unevenLadder _ | .activate .. | .release _ | .discard _ =>
    isTrue trivial

/-- **The condition on a step.** Requests find agreement; an order is filled completely
only when no replacement is pending; and one with a replacement pending is canceled or
rejected only while it is the active one. -/
def Undisturbed (h : Host σ) : Event σ → Prop
  | .resume => ∀ f, h.stack.head? = some f → f.task.Agrees h
  | .filled clientOrderId _ closes _ => closes = true → ∀ kind,
    h.LiveProtection kind clientOrderId → h.router.pendingProtection kind = none
  | .canceled clientOrderId | .rejected clientOrderId => ∀ kind,
    h.LiveProtection kind clientOrderId → h.router.pendingProtection kind = none ∨
      h.router.activeProtection kind = some clientOrderId
  | _ => True

instance (h : Host σ) (event : Event σ) : Decidable (Undisturbed h event) :=
  match event with
  | .resume => inferInstanceAs (Decidable (∀ f ∈ h.stack.head?, f.task.Agrees h))
  | .filled id _ closes _ => inferInstanceAs (Decidable (closes = true → ∀ kind,
      h.LiveProtection kind id → h.router.pendingProtection kind = none))
  | .canceled id | .rejected id => inferInstanceAs (Decidable (∀ kind, h.LiveProtection kind id →
      h.router.pendingProtection kind = none ∨ h.router.activeProtection kind = some id))
  | .decide .. | .accepted _ | .redelivered .. => isTrue trivial

/-! ## The invariant -/

/-- The order is a protection of the kind, live or not. -/
def Host.OfKind (kind : ProtectionKind) (clientOrderId : ℕ) (h : Host σ) : Prop :=
  ∃ o, h.book.order? clientOrderId = some o ∧ IsProtection kind o.info

/-- What is left of a method is about an order of its kind, and no loop of
`on_order_canceled` is left to do. -/
def Task.Fits (h : Host σ) : Task σ → Prop
  | .activate kind clientOrderId => h.OfKind kind clientOrderId
  | .release kinds => kinds = []
  | _ => True

/-- **The invariant.** `open` is the request that is being served, if there is one. -/
structure Guarded (served : Option (ProtectionKind × ℕ)) (h : Host σ) : Prop where
  unique : ∀ kind i j, h.LiveProtection kind i → h.LiveProtection kind j → i = j
  latest : ∀ kind number, h.latest kind = some number →
    served = some (kind, number) ∨ h.Placed kind number ∨ h.Waits kind number
  pending : ∀ kind p, h.router.pendingProtection kind = some p → p.kind = kind ∧ h.Leaving kind
  active : ∀ kind id, h.router.activeProtection kind = some id → h.OfKind kind id
  fits : ∀ f ∈ h.stack, f.task.Fits h

theorem guarded_start : Guarded none (Host.start : Host σ) where
  unique := by
    rintro kind i j ⟨o, ho, -⟩
    exact absurd ho (by simp [Host.start])
  latest := fun _ _ h => absurd h (by simp [Host.start])
  pending := fun _ _ h => absurd h (by simp [Host.start, Router.empty])
  active := fun _ _ h => absurd h (by simp [Host.start, Router.empty])
  fits := fun _ h => absurd h (by simp [Host.start])

theorem Guarded.protected (hg : Guarded none h) : h.Protected where
  unique := hg.unique
  latest := fun kind number hn => (hg.latest kind number hn).resolve_left (by simp)

variable {served : Option (ProtectionKind × ℕ)}

/-- Nothing is pending when no order of the kind is live. -/
theorem Guarded.pending_eq_none (hg : Guarded served h) (hlive : ∀ i, ¬ h.LiveProtection kind i) :
    h.router.pendingProtection kind = none := by
  cases hp : h.router.pendingProtection kind with
  | none => rfl
  | some p =>
    obtain ⟨-, i, o, ho, hopen, hkind, -⟩ := hg.pending kind p hp
    exact (hlive i ⟨o, ho, hopen, hkind⟩).elim

variable {id : ℕ} {number : ℕ} {o : Order NativeOrder String}

/-- Every order is live or has been ended by the venue. -/
theorem placed_of_order? (ho : h.book.order? id = some o)
    (hrequest : o.info.protection = some (kind, number)) : h.Placed kind number := by
  refine ⟨id, o, ho, hrequest, ?_⟩
  cases hstatus : o.status with
  | submitted => exact .inl (.inl rfl)
  | accepted => exact .inl (.inr rfl)
  | filled | canceled | rejected => simp

/-! ## A later book -/

variable {h' : Host σ}

theorem OfKind.later (hb : Book.Later h.book h'.book) (hk : h.OfKind kind id) :
    h'.OfKind kind id := by
  obtain ⟨o, ho, hkind⟩ := hk
  obtain ⟨o', ho', hlater⟩ := hb id o ho
  exact ⟨o', ho', by rw [hlater.info]; exact hkind⟩

theorem Placed.later (hb : Book.Later h.book h'.book) (hp : h.Placed kind number) :
    h'.Placed kind number := by
  obtain ⟨id, o, ho, hrequest, -⟩ := hp
  obtain ⟨o', ho', hlater⟩ := hb id o ho
  exact placed_of_order? ho' (by rw [hlater.info]; exact hrequest)

variable {task : Task σ}

theorem Fits.later (hb : Book.Later h.book h'.book) (hf : task.Fits h) : task.Fits h' := by
  cases task with
  | activate kind id => exact OfKind.later hb hf
  | release kinds => exact hf
  | intent | cancelEntry | rung | unevenLadder | clear | discard => trivial

/-- **A change that disturbs no protection**: no order of a kind comes to life, what is
pending goes on waiting or is not asked for any longer, and what is put on the stack fits. -/
structure Calm (served : Option (ProtectionKind × ℕ)) (h h' : Host σ) : Prop where
  book : Book.Later h.book h'.book
  live : ∀ kind id, h'.LiveProtection kind id → h.LiveProtection kind id
  active : ∀ kind id, h'.router.activeProtection kind = some id →
    h.router.activeProtection kind = some id
  pending : ∀ kind p, h'.router.pendingProtection kind = some p →
    h.router.pendingProtection kind = some p ∧ (h.Leaving kind → h'.Leaving kind)
  latest : ∀ kind number, h'.latest kind = some number → h.latest kind = some number ∧
    ∀ p, h.router.pendingProtection kind = some p → p.number = number →
      served = some (kind, number) ∨ h'.router.pendingProtection kind = some p
  fits : ∀ f ∈ h'.stack, f ∈ h.stack ∨ f.task.Fits h'

/-- **The invariant through such a change.** -/
theorem Guarded.calm (hg : Guarded served h) (hc : Calm served h h') : Guarded served h' where
  unique := fun kind i j hi hj => hg.unique kind i j (hc.live kind i hi) (hc.live kind j hj)
  latest := by
    intro kind number hn
    obtain ⟨hn, hkept⟩ := hc.latest kind number hn
    rcases hg.latest kind number hn with hserved | hplaced | ⟨⟨p, hp, hnumber⟩, hleaving⟩
    · exact .inl hserved
    · exact .inr (.inl (Placed.later hc.book hplaced))
    · refine (hkept p hp hnumber).imp_right fun hp' => .inr ⟨⟨p, hp', hnumber⟩, ?_⟩
      exact (hc.pending kind p hp').2 hleaving
  pending := by
    intro kind p hp
    obtain ⟨hp, hleaving⟩ := hc.pending kind p hp
    exact ⟨(hg.pending kind p hp).1, hleaving (hg.pending kind p hp).2⟩
  active := fun kind id ha => OfKind.later hc.book (hg.active kind id (hc.active kind id ha))
  fits := fun f hf => (hc.fits f hf).elim (fun hf => Fits.later hc.book (hg.fits f hf)) id

/-- A change that leaves the protections and what is known of them as they are. -/
theorem calm_of_eq (book : h'.book = h.book)
    (active : ∀ kind id, h'.router.activeProtection kind = some id →
      h.router.activeProtection kind = some id)
    (pending : h'.router.pendingProtection = h.router.pendingProtection)
    (latest : h'.latest = h.latest) (fits : ∀ f ∈ h'.stack, f ∈ h.stack ∨ f.task.Fits h') :
    Calm served h h' where
  book := by rw [book]; exact Book.Later.refl _
  live := fun kind id hlive => by
    unfold Host.LiveProtection at hlive ⊢
    rwa [book] at hlive
  active := active
  pending := fun kind p hp => by
    unfold Host.Leaving
    rw [book]
    exact ⟨pending ▸ hp, fun hl => hl⟩
  latest := fun kind number hn => ⟨latest ▸ hn, fun p hp _ => .inr (pending ▸ hp)⟩
  fits := fits

/-! ## Calm pieces -/

variable {f : Order NativeOrder String → Order NativeOrder String} {k : ℕ}

/-- An order on its way out is still so after a change of one order, unless it ends. -/
theorem Leaving.amend (hb : h'.book = h.book.amend k f)
    (hf : ∀ o, h.book.order? k = some o → o.Later (f o))
    (hopen : ∀ o, h.book.order? k = some o → o.status.IsOpen → IsProtection kind o.info →
      (f o).status.IsOpen)
    (hl : h.Leaving kind) : h'.Leaving kind := by
  obtain ⟨id, o, ho, hopen', hkind, hcancel⟩ := hl
  unfold Host.Leaving
  rw [hb]
  by_cases hid : id = k
  · subst hid
    refine ⟨id, f o, Book.order?_amend_self ho, hopen o ho hopen' hkind, ?_,
      (hf o ho).cancelRequested hcancel⟩
    rw [(hf o ho).info]
    exact hkind
  · exact ⟨id, o, (Book.order?_amend_of_ne hid).trans ho, hopen', hkind, hcancel⟩

variable {order : NativeOrder}

theorem Leaving.submit (hb : h'.book = h.book.submit order) (hl : h.Leaving kind) :
    h'.Leaving kind := by
  obtain ⟨id, o, ho, hrest⟩ := hl
  unfold Host.Leaving
  rw [hb]
  exact ⟨id, o, Book.order?_submit_of_some ho, hrest⟩

/-- **One order changes**, and if it ends, nothing is pending behind it. -/
theorem calm_amend (book : h'.book = h.book.amend k f) (router : h'.router = h.router)
    (latest : h'.latest = h.latest) (stack : h'.stack = h.stack)
    (hf : ∀ o, h.book.order? k = some o → o.Later (f o))
    (hopen : ∀ o kind, h.book.order? k = some o → o.status.IsOpen → IsProtection kind o.info →
      (f o).status.IsOpen ∨ h.router.pendingProtection kind = none)
    : Calm served h h' where
  book := by
    rw [book]
    exact Book.amend_later hf
  live := fun kind id hlive => by
    unfold Host.LiveProtection at hlive
    rw [book] at hlive
    exact Book.Live.of_amend hf hlive
  active := fun kind id ha => by rwa [router] at ha
  pending := by
    intro kind p hp
    rw [router] at hp
    refine ⟨hp, Leaving.amend book hf fun o ho ho' hkind => ?_⟩
    exact (hopen o kind ho ho' hkind).resolve_right (by simp [hp])
  latest := fun kind number hn => ⟨latest ▸ hn, fun p hp _ => .inr (router ▸ hp)⟩
  fits := fun f' hf' => .inl (stack ▸ hf')

variable {tasks : List (Task σ)}

theorem calm_push (b : Bool) (hfits : ∀ t ∈ tasks, t.Fits (h.push b tasks)) :
    Calm served h (h.push b tasks) := by
  refine calm_of_eq rfl (fun _ _ ha => ha) rfl rfl fun f hf => ?_
  rcases mem_append.mp hf with hf | hf
  · obtain ⟨t, ht, rfl⟩ := mem_map.mp hf
    exact .inr (hfits t ht)
  · exact .inl hf

theorem calm_raise (b : Bool) (e : Exc) (h : Host σ) : Calm served h (h.raise b e) :=
  calm_of_eq rfl (fun _ _ ha => ha) rfl rfl fun _ hf => nomatch hf

theorem calm_submit (horder : order.protection = none) (kind : OrderKind) (tag : String)
    (state : CausalState σ) (entry : Bool) (h : Host σ) :
    Calm served h (h.submit order kind tag state entry) where
  book := Book.submit_later order h.book
  live := fun kind id hlive => by
    refine (Book.live_submit_iff.mp hlive).resolve_left fun hnew => ?_
    have hnone : (none : Option ProtectionKind) = some kind := by
      have := hnew.2
      rwa [IsProtection, horder] at this
    exact nomatch hnone
  active := fun _ _ ha => ha
  pending := fun _ _ hp => ⟨hp, Leaving.submit rfl⟩
  latest := fun _ _ hn => ⟨hn, fun _ hp _ => .inr hp⟩
  fits := fun _ hf => .inl hf

theorem calm_askCancel (id : ℕ) (h : Host σ) : Calm served h (h.askCancel id) := by
  refine calm_amend rfl rfl rfl rfl (fun o _ => Order.askCancel_later o) fun o kind _ hopen _ => ?_
  rw [Order.status_askCancel]
  exact .inl hopen

theorem calm_drop (id : ℕ) (h : Host σ) : Calm served h (h.drop id) :=
  calm_of_eq rfl (fun _ _ ha => ha) rfl rfl fun _ hf => .inl hf

theorem calm_deactivate (kind : ProtectionKind) (h : Host σ) :
    Calm served h (h.deactivate kind) := by
  refine calm_of_eq rfl (fun kind' id ha => ?_) rfl rfl fun _ hf => .inl hf
  simp only [Host.deactivate, update_apply] at ha
  split_ifs at ha
  exact ha

theorem calm_noteFill (id : ℕ) (s : SubmittedOrder σ) (tradeId : String) (h : Host σ) :
    Calm served h (h.noteFill id s tradeId) := by
  refine calm_of_eq rfl (fun kind' i ha => ?_) rfl rfl fun _ hf => .inl hf
  simp only [Host.noteFill] at ha
  split_ifs at ha
  exact ha

/-- `CANCEL_ALL` withdraws the requests before it, and asks for cancellations. -/
theorem calm_cancelAll (b : Bool) (h : Host σ) : Calm served h (h.cancelAll b) where
  book := Book.amendAll_later Order.askCancel_later h.book
  live := fun kind id hlive => Book.Live.of_amendAll Order.askCancel_later hlive
  active := fun _ _ ha => ha
  pending := by
    intro kind p hp
    refine ⟨hp, ?_⟩
    rintro ⟨id, o, ho, hopen, hkind, -⟩
    refine ⟨id, o.askCancel, ?_, ?_, ?_, Order.cancelRequested_askCancel hopen⟩
    · show (h.book.amendAll Order.askCancel).order? id = _
      rw [Book.order?_amendAll, ho]
      rfl
    · rw [Order.status_askCancel]
      exact hopen
    · rw [Order.info_askCancel]
      exact hkind
  latest := fun _ _ hn => nomatch hn
  fits := by
    intro f hf
    rcases mem_cons.mp hf with rfl | hf
    · exact .inr trivial
    · exact .inl hf

/-- What `CANCEL_ALL` clears was withdrawn. -/
theorem calm_clear (hagrees : (Task.clear : Task σ).Agrees h) : Calm served h h.clear where
  book := Book.Later.refl _
  live := fun _ _ hlive => hlive
  active := fun _ _ ha => nomatch ha
  pending := fun _ _ hp => nomatch hp
  latest := fun kind number hn => ⟨hn, fun p hp hnumber => by
    subst hnumber
    exact (hagrees kind p hp hn).elim⟩
  fits := fun _ hf => .inl hf

/-! ## Requests -/

variable (cfg : Setup)

theorem isProtection_order (p : PendingProtection σ) :
    (p.order cfg).protection = some (p.kind, p.number) := by
  unfold PendingProtection.order
  cases p.kind <;> rfl

variable {p : PendingProtection σ}

/-- **A protection is submitted** for the request that is being served, where no order of
its kind is live. -/
theorem guarded_submitProtection (b : Bool) (hg : Guarded (some (p.kind, p.number)) h)
    (hlive : ∀ i, ¬ h.LiveProtection p.kind i) : Guarded none (h.submitProtection cfg b p) := by
  have hbook : (h.submitProtection cfg b p).book = h.book.submit (p.order cfg) := rfl
  have hlater : Book.Later h.book (h.submitProtection cfg b p).book := Book.submit_later _ _
  have horder := isProtection_order cfg p
  have hnew : (h.submitProtection cfg b p).book.order? h.book.next =
      some ⟨p.order cfg, .submitted, false, []⟩ := by
    rw [hbook, Book.order?_submit, if_pos rfl]
  -- of the kind of the request, only the new order is live
  have hkind : ∀ {kind i}, (h.submitProtection cfg b p).LiveProtection kind i →
      kind = p.kind ∧ i = h.book.next ∨ kind ≠ p.kind ∧ h.LiveProtection kind i := by
    intro kind i hi
    rcases Book.live_submit_iff.mp hi with ⟨hi, hprotects⟩ | hold
    · rw [IsProtection, horder] at hprotects
      exact .inl ⟨(some.inj hprotects).symm, hi⟩
    · exact .inr ⟨fun hk => hlive i (hk ▸ hold), hold⟩
  constructor
  · intro kind i j hi hj
    rcases hkind hi with ⟨hk, rfl⟩ | ⟨hk, hi⟩ <;> rcases hkind hj with ⟨hk', rfl⟩ | ⟨hk', hj⟩
    · rfl
    · exact absurd hk hk'
    · exact absurd hk' hk
    · exact hg.unique kind i j hi hj
  · intro kind number hn
    rcases hg.latest kind number hn with hserved | hplaced | ⟨hwaits, hleaving⟩
    · exact .inr (.inl (placed_of_order? hnew (horder.trans hserved)))
    · exact .inr (.inl (Placed.later hlater hplaced))
    · exact .inr (.inr ⟨hwaits, Leaving.submit hbook hleaving⟩)
  · intro kind q hq
    obtain ⟨hkind, hleaving⟩ := hg.pending kind q hq
    exact ⟨hkind, Leaving.submit hbook hleaving⟩
  · intro kind id ha
    exact OfKind.later hlater (hg.active kind id ha)
  · intro f hf
    rcases mem_cons.mp hf with rfl | hf
    · exact ⟨_, hnew, by rw [IsProtection, horder]; rfl⟩
    · exact Fits.later hlater (hg.fits f hf)

/-- **A request waits** behind the live order of its kind, which is asked to be canceled. -/
theorem guarded_wait (hg : Guarded (some (p.kind, p.number)) h)
    (hn : h.latest p.kind = some p.number) (hlive : h.LiveProtection p.kind id) :
    Guarded none ((h.setPending p.kind (some p)).askCancel id) := by
  have hbook : ((h.setPending p.kind (some p)).askCancel id).book =
      h.book.amend id Order.askCancel := rfl
  have hasked : ∀ o, h.book.order? id = some o → o.Later o.askCancel :=
    fun o _ => Order.askCancel_later o
  have hlater : Book.Later h.book ((h.setPending p.kind (some p)).askCancel id).book :=
    Book.amend_later hasked
  have hpending : ((h.setPending p.kind (some p)).askCancel id).router.pendingProtection =
      Function.update h.router.pendingProtection p.kind (some p) := rfl
  have hleaving : ∀ {kind}, h.Leaving kind →
      ((h.setPending p.kind (some p)).askCancel id).Leaving kind := fun hl =>
    Leaving.amend hbook hasked (fun o _ hopen _ => by rwa [Order.status_askCancel]) hl
  have hself : ((h.setPending p.kind (some p)).askCancel id).Leaving p.kind := by
    obtain ⟨o, ho, hopen, hkind⟩ := hlive
    refine ⟨id, o.askCancel, Book.order?_amend_self ho, ?_, ?_,
      Order.cancelRequested_askCancel hopen⟩
    · rwa [Order.status_askCancel]
    · rwa [Order.info_askCancel]
  constructor
  · intro kind i j hi hj
    exact hg.unique kind i j (Book.Live.of_amend hasked hi) (Book.Live.of_amend hasked hj)
  · intro kind number hnumber
    by_cases hk : kind = p.kind
    · subst hk
      obtain rfl := some.inj (hn.symm.trans hnumber)
      exact .inr (.inr ⟨⟨p, by rw [hpending, update_self], rfl⟩, hself⟩)
    · rcases hg.latest kind number hnumber with hserved | hplaced | ⟨⟨q, hq, hqn⟩, hl⟩
      · exact absurd (congrArg Prod.fst (some.inj hserved)).symm hk
      · exact .inr (.inl (Placed.later hlater hplaced))
      · refine .inr (.inr ⟨⟨q, ?_, hqn⟩, hleaving hl⟩)
        rw [hpending, update_of_ne hk, hq]
  · intro kind q hq
    rw [hpending, update_apply] at hq
    split_ifs at hq with hk
    · rw [hk, ← some.inj hq]
      exact ⟨rfl, hself⟩
    · exact ⟨(hg.pending kind q hq).1, hleaving (hg.pending kind q hq).2⟩
  · intro kind i ha
    exact OfKind.later hlater (hg.active kind i ha)
  · intro f hf
    exact Fits.later hlater (hg.fits f hf)

/-- **`_request_protection`**, where the router and the venue agree. -/
theorem guarded_requestProtection (b : Bool) (hg : Guarded (some (p.kind, p.number)) h)
    (hn : h.latest p.kind = some p.number) (hagrees : h.Agrees p.kind) :
    Guarded none (h.requestProtection cfg b p) := by
  unfold Host.requestProtection
  split
  · rename_i hnone
    refine guarded_submitProtection cfg b hg fun i hi => ?_
    exact absurd ((hagrees i).mp hi).1 (by simp [hnone])
  · rename_i a ha
    split
    · rename_i hnone
      have hlive : ∀ i, ¬ h.LiveProtection p.kind i := by
        intro i hi
        obtain ⟨hactive, htracked⟩ := (hagrees i).mp hi
        obtain rfl := some.inj (ha.symm.trans hactive)
        exact htracked hnone
      -- nothing is pending, so that nothing is lost
      have hpending := hg.pending_eq_none hlive
      have hkept : (h.deactivate p.kind).setPending p.kind none = h.deactivate p.kind := by
        unfold Host.setPending
        rw [update_eq_self_iff.mpr]
        exact hpending.symm
      rw [hkept]
      exact guarded_submitProtection cfg b (hg.calm (calm_deactivate p.kind h)) hlive
    · rename_i s hs
      exact guarded_wait hg hn ((hagrees a).mpr ⟨ha, by simp [hs]⟩)

theorem guarded_place (b : Bool) (kind : ProtectionKind) (state : CausalState σ) (reason : String)
    (side : Side) (price qty : ℚ) (hg : Guarded none h) (hagrees : h.Agrees kind) :
    Guarded none (h.place cfg b kind state reason side price qty) := by
  refine guarded_requestProtection cfg b ?_ (update_self ..) hagrees
  refine ⟨hg.unique, fun kind' number hn => ?_, hg.pending, hg.active, fun f hf => ?_⟩
  · simp only [update_apply] at hn
    split_ifs at hn with hk
    · exact .inl (by rw [hk, some.inj hn])
    · exact .inr ((hg.latest kind' number hn).resolve_left (by simp))
  · exact Fits.later (Book.Later.refl _) (hg.fits f hf)

/-! ## Orders that end -/

theorem Guarded.serve (hg : Guarded none h) (served : Option (ProtectionKind × ℕ)) :
    Guarded served h where
  unique := hg.unique
  latest := fun kind number hn => .inr ((hg.latest kind number hn).resolve_left (by simp))
  pending := hg.pending
  active := hg.active
  fits := hg.fits

theorem kind_eq_of_ofKind {kind' : ProtectionKind} (hk : h.OfKind kind id)
    (hk' : h.OfKind kind' id) :
    kind = kind' := by
  obtain ⟨o, ho, hkind⟩ := hk
  obtain ⟨o', ho', hkind'⟩ := hk'
  obtain rfl := some.inj (ho.symm.trans ho')
  exact some.inj (hkind.symm.trans hkind')

/-- The loop of `on_order_canceled` has one round at most. -/
theorem kindsOf_cases (hg : Guarded none h) (id : ℕ) :
    h.router.kindsOf id = [] ∧ (∀ kind, h.router.activeProtection kind ≠ some id) ∨
      ∃ kind, h.router.kindsOf id = [kind] ∧ h.router.activeProtection kind = some id := by
  have hone : ∀ {kind kind'}, h.router.activeProtection kind = some id →
      h.router.activeProtection kind' = some id → kind = kind' := fun ha ha' =>
    kind_eq_of_ofKind (hg.active _ id ha) (hg.active _ id ha')
  unfold Router.kindsOf
  by_cases htp : h.router.activeProtection .tp = some id
  · have hstop : h.router.activeProtection .stop ≠ some id := fun hstop => nomatch hone htp hstop
    exact .inr ⟨.tp, by simp [htp, hstop], htp⟩
  · by_cases hstop : h.router.activeProtection .stop = some id
    · exact .inr ⟨.stop, by simp [htp, hstop], hstop⟩
    · refine .inl ⟨by simp [htp, hstop], fun kind => ?_⟩
      cases kind with
      | tp => exact htp
      | stop => exact hstop

variable {status : Status}

/-- **An order ends and its replacement is submitted.** -/
theorem guarded_replace (hg : Guarded none h) (ho : h.book.order? id = some o)
    (hopen : o.status.IsOpen) (hended : ¬ status.IsOpen)
    (hactive : h.router.activeProtection kind = some id)
    (hp : h.router.pendingProtection kind = some p)
    (book : h'.book = h.book.amend id (Order.finish status))
    (active : ∀ kind i, h'.router.activeProtection kind = some i → h.router.activeProtection kind =
      some i)
    (pending : h'.router.pendingProtection = Function.update h.router.pendingProtection kind none)
    (latest : h'.latest = h.latest) (fits : ∀ f ∈ h'.stack, f ∈ h.stack ∨ f.task.Fits h') :
    Guarded none (h'.submitProtection cfg true p) := by
  obtain ⟨rfl, -⟩ := hg.pending kind p hp
  have hfinish : ∀ o', h.book.order? id = some o' → o'.Later (o'.finish status) := fun o' ho' =>
    Order.finish_later status (some.inj (ho.symm.trans ho') ▸ hopen)
  have hkind : IsProtection p.kind o.info := by
    obtain ⟨o', ho', hkind⟩ := hg.active p.kind id hactive
    obtain rfl := some.inj (ho.symm.trans ho')
    exact hkind
  have hlive : ∀ kind i, h'.LiveProtection kind i → h.LiveProtection kind i := by
    intro kind i hi
    unfold Host.LiveProtection at hi
    rw [book] at hi
    exact Book.Live.of_amend hfinish hi
  refine guarded_submitProtection cfg true ((hg.serve (some (p.kind, p.number))).calm ?_) ?_
  · refine ⟨?_, hlive, active, ?_, ?_, fits⟩
    · rw [book]
      exact Book.amend_later hfinish
    · intro kind q hq
      rw [pending, update_apply] at hq
      split_ifs at hq with hk
      refine ⟨hq, Leaving.amend book hfinish fun o' ho' _ hkind' => ?_⟩
      obtain rfl := some.inj (ho.symm.trans ho')
      exact absurd (some.inj (hkind'.symm.trans hkind)) hk
    · intro kind number hn
      refine ⟨latest ▸ hn, fun q hq hnumber => ?_⟩
      by_cases hk : kind = p.kind
      · subst hk
        obtain rfl := some.inj (hp.symm.trans hq)
        exact .inl (by rw [hnumber])
      · exact .inr (by rw [pending, update_of_ne hk, hq])
  · intro i hi
    obtain rfl := hg.unique p.kind i id (hlive p.kind i hi) ⟨o, ho, hopen, hkind⟩
    unfold Host.LiveProtection at hi
    rw [book] at hi
    exact Book.not_live_amend_self (fun _ => hended) hi

/-- **The venue cancels or rejects an order**, with its replacement pending only if it is
the active one. -/
theorem guarded_ended (hg : Guarded none h) (id : ℕ) (hended : ¬ status.IsOpen)
    (hc : ∀ kind, h.LiveProtection kind id → h.router.pendingProtection kind = none ∨
      h.router.activeProtection kind = some id)
    : Guarded none (h.ended cfg id status) := by
  unfold Host.ended
  split
  · exact hg
  rename_i o ho
  split_ifs with hopen
  swap
  · exact hg
  have hfinish : ∀ o', h.book.order? id = some o' → o'.Later (o'.finish status) := fun o' ho' =>
    Order.finish_later status (some.inj (ho.symm.trans ho') ▸ hopen)
  -- an end that leaves nothing waiting
  have hquiet : (∀ kind, IsProtection kind o.info → h.router.pendingProtection kind = none) →
      Guarded none ((h.finish id status).drop id) := by
    intro hnone
    have hbook : Guarded none (h.finish id status) := by
      refine hg.calm (calm_amend rfl rfl rfl rfl hfinish fun o' kind ho' _ hkind => .inr ?_)
      obtain rfl := some.inj (ho.symm.trans ho')
      exact hnone kind hkind
    exact hbook.calm (calm_drop id _)
  unfold Host.onOrderCanceled
  rcases kindsOf_cases hg id with ⟨hkinds, hinactive⟩ | ⟨kind, hkinds, hactive⟩
  · show Guarded none (Host.release cfg true (h.router.kindsOf id) _)
    rw [hkinds]
    refine hquiet fun kind hkind => ?_
    exact (hc kind ⟨o, ho, hopen, hkind⟩).resolve_right (hinactive kind)
  · show Guarded none (Host.release cfg true (h.router.kindsOf id) _)
    rw [hkinds]
    cases hp : h.router.pendingProtection kind with
    | none =>
      have hrelease : ((h.finish id status).drop id).release cfg true [kind] =
          ((h.finish id status).drop id).deactivate kind := by
        simp only [Host.release, Host.drop, Host.finish, hp]
      rw [hrelease]
      refine (hquiet fun kind' hkind => ?_).calm (calm_deactivate kind _)
      obtain rfl := kind_eq_of_ofKind (hg.active kind id hactive) ⟨o, ho, hkind⟩
      exact hp
    | some p =>
      have hrelease : ((h.finish id status).drop id).release cfg true [kind] =
          (((((h.finish id status).drop id).deactivate kind).setPending kind none).push true
            [.release []]).submitProtection cfg true p := by
        simp only [Host.release, Host.drop, Host.finish, hp]
      rw [hrelease]
      refine guarded_replace cfg hg ho hopen hended hactive hp rfl ?_ rfl rfl ?_
      · have hcalm : Calm none ((h.finish id status).drop id)
            (((h.finish id status).drop id).deactivate kind) := calm_deactivate kind _
        exact hcalm.active
      · intro f hf
        rcases mem_cons.mp hf with rfl | hf
        · exact .inr rfl
        · exact .inl hf

/-! ## Steps -/

/-- **`_cancel_entries` and ladders** put only what concerns no protection on the stack. -/
theorem guarded_push {b : Bool} (hg : Guarded none h) (hfits : ∀ t ∈ tasks, t.Fits (h.push b tasks)) :
    Guarded none (h.push b tasks) :=
  hg.calm (calm_push b hfits)

theorem fits_cancelEntries {side : Option Side} : ∀ t ∈ h.cancelEntries side, t.Fits h' := by
  intro t ht
  obtain ⟨id, -, rfl⟩ := mem_map.mp ht
  trivial

theorem fits_ladderTasks {state : CausalState σ} {reason : String} {side : Side}
    {prices qtys : List ℚ} : ∀ t ∈ ladderTasks state reason side prices qtys, t.Fits h := by
  intro t ht
  rcases mem_append.mp ht with ht | ht
  · obtain ⟨r, -, rfl⟩ := mem_map.mp ht
    trivial
  · split_ifs at ht
    · cases ht
    · rw [mem_singleton.mp ht]
      trivial
    · rw [mem_singleton.mp ht]
      trivial

theorem guarded_obey (b : Bool) (state : CausalState σ) (i : Intent) (hg : Guarded none h)
    {c : Command} (hc : i.command = .ok c) (hagrees : (Task.intent state i).Agrees h) :
    Guarded none (h.obey cfg b state i c) := by
  cases c with
  | cancelAll => exact hg.calm (calm_cancelAll b h)
  | cancelEntries side => exact guarded_push hg fits_cancelEntries
  | replaceLadder side prices qtys =>
    refine guarded_push hg fun t ht => ?_
    exact (mem_append.mp ht).elim (fits_cancelEntries t) (fits_ladderTasks t)
  | marketEnter side qty => exact hg.calm (calm_submit rfl ..)
  | limitIocEnter side price qty => exact hg.calm (calm_submit rfl ..)
  | marketExit side qty => exact hg.calm (calm_submit rfl ..)
  | place kind side price qty =>
    simp only [Task.Agrees, hc] at hagrees
    exact guarded_place cfg b kind state i.reason side price qty hg hagrees

/-- The order of a protection becomes the active one of its kind. -/
theorem guarded_activate (hg : Guarded none h) (hk : h.OfKind kind id) :
    Guarded none (h.activate kind id) where
  unique := hg.unique
  latest := hg.latest
  pending := hg.pending
  active := by
    intro kind' i ha
    simp only [Host.activate, update_apply] at ha
    split_ifs at ha with hkind
    · rw [hkind, ← some.inj ha]
      exact hk
    · exact hg.active kind' i ha
  fits := fun f hf => Fits.later (Book.Later.refl _) (hg.fits f hf)

/-- **One piece of a method.** -/
theorem guarded_perform (b : Bool) (hg : Guarded none h) (hfits : task.Fits h)
    (hagrees : task.Agrees h) : Guarded none (h.perform cfg b task) := by
  cases task with
  | intent state i =>
    simp only [Host.perform]
    split
    · exact hg.calm (calm_raise b _ h)
    · rename_i c hc
      exact guarded_obey cfg b state i hg hc hagrees
  | cancelEntry id side =>
    show Guarded none (h.cancelEntry id side)
    unfold Host.cancelEntry
    split
    · exact hg.calm (calm_of_eq rfl (fun _ _ ha => ha) rfl rfl fun _ hf => .inl hf)
    · split_ifs
      · exact hg.calm (calm_askCancel id h)
      · exact hg
  | rung state reason side index price qty =>
    show Guarded none (h.rung cfg state reason side index price qty)
    unfold Host.rung
    split_ifs
    · exact hg.calm (calm_submit rfl ..)
    · exact hg
  | unevenLadder text => exact hg.calm (calm_raise b _ h)
  | clear => exact hg.calm (calm_clear hagrees)
  | activate kind id => exact guarded_activate hg hfits
  | release kinds =>
    have hkinds : kinds = [] := hfits
    rw [hkinds]
    exact hg
  | discard id =>
    show Guarded none (h.discardIfClosed cfg b id)
    unfold Host.discardIfClosed
    by_cases hcached : cfg.cached = true
    · rw [if_pos hcached]
      split
      · exact hg.calm (calm_raise b _ h)
      · split_ifs
        · exact hg.calm (calm_drop id h)
        · exact hg
    · rw [if_neg hcached]
      exact hg

theorem guarded_resume (hg : Guarded none h)
    (hagrees : ∀ f, h.stack.head? = some f → f.task.Agrees h) : Guarded none (h.resume cfg) := by
  unfold Host.resume
  split
  · exact hg
  rename_i f rest hstack
  have hrest : ∀ f' ∈ rest, f' ∈ h.stack := fun f' hf' => by
    rw [hstack]
    exact mem_cons_of_mem f hf'
  have hpop : Guarded none { h with stack := rest } :=
    hg.calm (calm_of_eq rfl (fun _ _ ha => ha) rfl rfl fun f' hf' => .inl (hrest f' hf'))
  have hf : f.task.Fits h := hg.fits f (by rw [hstack]; exact mem_cons_self)
  refine guarded_perform cfg f.inHandler hpop (Fits.later (Book.Later.refl _) hf) ?_
  -- what the piece needs is not about the stack
  have ha : f.task.Agrees h := hagrees f (by rw [hstack]; rfl)
  cases htask : f.task <;> rw [htask] at ha <;> exact ha

theorem guarded_submitDecision [DecidableEq σ] (b : Bool) (hg : Guarded none h)
    (state : CausalState σ) (intents : List Intent) :
    Guarded none (h.submitDecision cfg b state intents) := by
  unfold Host.submitDecision
  split
  · exact hg.calm (calm_raise b _ h)
  · rename_i states _
    have hremembered : Guarded none { h with router := { h.router with causalStates := states } } :=
      hg.calm (calm_of_eq rfl (fun _ _ ha => ha) rfl rfl fun _ hf => .inl hf)
    refine guarded_push hremembered fun t ht => ?_
    obtain ⟨i, -, rfl⟩ := mem_map.mp ht
    trivial

/-- **`on_order_filled`** asks for nothing, and takes the order out of `_active_protection`. -/
theorem guarded_onOrderFilled [DecidableEq σ] (hg : Guarded none h) (id : ℕ) (event : FillEvent)
    (answer : Except Exc (List Intent)) : Guarded none (h.onOrderFilled cfg id event answer) := by
  unfold Host.onOrderFilled
  split
  · exact hg
  rename_i s _
  have hnoted := hg.calm (calm_noteFill id s event.tradeId h)
  split_ifs
  · exact hg
  split
  · exact hnoted.calm (calm_raise true _ _)
  rename_i fill state _
  have hcalled : Guarded none { h.noteFill id s event.tradeId with
      handed := (h.noteFill id s event.tradeId).handed ++ [(event.tradeId, fill)] } :=
    hnoted.calm (calm_of_eq rfl (fun _ _ ha => ha) rfl rfl fun _ hf => .inl hf)
  cases answer with
  | error e => exact hcalled.calm (calm_raise true e _)
  | ok intents =>
    refine guarded_submitDecision cfg true (guarded_push hcalled fun t ht => ?_) state intents
    rw [mem_singleton.mp ht]
    trivial

/-- **A trade**, with nothing pending behind an order that it closes. -/
theorem guarded_filled [DecidableEq σ] (hg : Guarded none h) (id : ℕ) (event : FillEvent)
    (closes : Bool) (answer : Except Exc (List Intent))
    (hc : Undisturbed h (.filled id event closes answer)) :
    Guarded none (h.filled cfg id event closes answer) := by
  unfold Host.filled
  split
  · exact hg
  rename_i o ho
  split_ifs with hnew
  swap
  · exact hg
  have hself : ∀ {o'}, h.book.order? id = some o' → o' = o := fun ho' =>
    some.inj (ho'.symm.trans ho)
  have hexecuted : Guarded none (h.execute id event.tradeId closes) := by
    refine hg.calm (calm_amend rfl rfl rfl rfl (fun o' ho' => ?_) fun o' kind ho' hopen hkind => ?_)
    · exact Order.trade_later _ closes (hself ho' ▸ hnew.1)
    · cases closes with
      | false => exact .inl (.inr rfl)
      | true => exact .inr (hc rfl kind ⟨o', ho', hopen, hkind⟩)
  exact guarded_onOrderFilled cfg hexecuted id event answer

theorem accepted_calm (id : ℕ) (h : Host σ) : Calm none h (h.accepted id) := by
  refine calm_amend rfl rfl rfl rfl (fun o _ => Order.accept_later o)
    fun o kind _ hopen _ => .inl ?_
  unfold Order.accept
  split_ifs
  · exact .inr rfl
  · exact hopen

/-- **Every step keeps the invariant** if it meets the condition. -/
theorem guarded_step [DecidableEq σ] (h : Host σ) (event : Event σ) (hg : Guarded none h)
    (hc : Undisturbed h event) : Guarded none (step cfg h event) := by
  cases event with
  | decide state intents =>
    show Guarded none (ite ..)
    split_ifs
    · exact guarded_submitDecision cfg false hg state intents
    · exact hg
  | resume => exact guarded_resume cfg hg hc
  | accepted id => exact hg.calm (accepted_calm id h)
  | filled id event closes answer => exact guarded_filled cfg hg id event closes answer hc
  | redelivered id event answer =>
    show Guarded none (h.redelivered cfg id event answer)
    unfold Host.redelivered
    split
    · exact hg
    · split_ifs
      · exact guarded_onOrderFilled cfg hg id event answer
      · exact hg
  | canceled id => exact guarded_ended cfg hg id (by decide) hc
  | rejected id => exact guarded_ended cfg hg id (by decide) hc

/-- **Protections are neither stacked nor dropped**, in every state of every run whose
steps meet the condition. -/
theorem protections [DecidableEq σ] (cfg : Setup) (events : List (Event σ))
    (hc : Machine.Meets (step cfg) Undisturbed Host.start events) :
    (Machine.run (step cfg) Host.start events).Protected :=
  (Machine.inv_run_of_meets (Guarded none) (guarded_step cfg) guarded_start hc).protected

/-- A stop is submitted and accepted; a second one waits for its cancellation, and takes
its place. -/
def replacedStop : List (Event Unit) :=
  [.decide ⟨0, 0, ()⟩ [⟨.placeStop, some .sell, [], [], some 95, some 1, "stop"⟩], .resume, .resume,
    .accepted 0, .decide ⟨0, 0, ()⟩ [⟨.placeStop, some .sell, [], [], some 96, some 1, "trail"⟩],
    .resume, .canceled 0, .resume, .resume, .accepted 1]

theorem protections_replacedStop :
    (Machine.run (step plainSetup) Host.start replacedStop).Protected :=
  protections plainSetup replacedStop (by decide +kernel)

/-! ## A partial fill before a new request -/

/-- A stop is submitted and accepted, and half of it is filled; the strategy asks for
another stop. -/
def stopAfterPartialFill : List (Event Unit) :=
  [.decide ⟨0, 0, ()⟩ [⟨.placeStop, some .sell, [], [], some 95, some 1, "stop"⟩], .resume, .resume,
    .accepted 0, .filled 0 ⟨"t1", 1000000, .sell, 95, 1 / 2, .absent⟩ false (.ok []), .resume,
    .decide ⟨0, 0, ()⟩ [⟨.placeStop, some .sell, [], [], some 96, some (1 / 2), "stop"⟩], .resume,
    .resume, .accepted 1]

/-- **Two stops are live**, without a request to cancel the first. -/
theorem partial_fill_stacks_stops :
    ¬ (Machine.run (step plainSetup) Host.start stopAfterPartialFill).Protected := by
  intro hp
  have hlive :
      (Machine.run (step plainSetup) Host.start stopAfterPartialFill).LiveProtection .stop 0 ∧
      (Machine.run (step plainSetup) Host.start stopAfterPartialFill).LiveProtection .stop 1 := by
    decide +kernel
  exact absurd (hp.unique .stop 0 1 hlive.1 hlive.2) (by decide)

end Qt.Nautilus
