import QuantTrading.Runs

/-!
# A cancel in doubt

A cancel that was dispatched and neither confirmed nor rejected leaves its
order in `CANCEL_PENDING` or `UNKNOWN`, and both block the account. In
`CANCEL_PENDING` an open order at the venue is no evidence, and the code says
so and ignores it. In `UNKNOWN`, which a timeout of the same cancel leads to,
the code takes the same snapshot as the state of the order, and takes a
partial fill for one: the doubt ends although nothing resolved it
(`cancel_reopened`). Where neither happens it stays (`cancel_in_doubt`).
-/

namespace Qt

open Except Option
open Machine

variable {env : Env} {time : ℕ} {db db' : DB} {tx : Transaction}

/-! ## What ends the doubt -/

/-- **The venue resolves a cancel**: it rejects or confirms it, reports the
order at its end, or fills the rest of it. -/
def Transaction.resolvesCancel (tx : Transaction) (db : DB) (o : Order) : Prop :=
  match tx with
  | .cancelResult c _ result => c.intentId = o.intentId ∧ result.status ≠ .unknown
  | tx => (∃ s ∈ tx.snapshot, s.identity.intentId = o.intentId ∧ s.status.terminal = true)
    ∨ ∃ p ∈ tx.fill, p.1 = o.intentId
      ∧ db.fills.find? (o.venue, o.accountId, p.2.venueTradeId) = none
      ∧ o.filledQuantity + p.2.quantity = o.quantity

instance (tx : Transaction) (db : DB) (o : Order) : Decidable (tx.resolvesCancel db o) := by
  unfold Transaction.resolvesCancel
  split <;> infer_instance

/-- **An order of unknown outcome is reopened**: by a current snapshot that
shows it open, or by a fill of part of what is left. -/
def Transaction.reopens (tx : Transaction) (db : DB) (o : Order) : Prop :=
  o.status = .unknown
  ∧ ((∃ s ∈ tx.snapshot, s.identity.intentId = o.intentId ∧ ¬ o.outdates s
      ∧ (s.status = .acknowledged ∨ s.status = .partiallyFilled))
    ∨ ∃ p ∈ tx.fill, p.1 = o.intentId
      ∧ db.fills.find? (o.venue, o.accountId, p.2.venueTradeId) = none
      ∧ o.filledQuantity + p.2.quantity < o.quantity)
deriving Decidable

/-- The outcome of the order, or of its cancel, is open. -/
def OrderStatus.inDoubt (s : OrderStatus) : Prop := s = .cancelPending ∨ s = .unknown
deriving Decidable

variable {s : OrderSnapshot}

theorem Transaction.intentId_of_snapshot (htx : tx.snapshot = some s) :
    tx.intentId = some s.identity.intentId := by
  cases tx with
  | applySnapshot | reconcileSnapshot =>
    cases htx
    rfl
  | _ => cases htx

variable {o : Order}

/-- A transaction that ingests a snapshot or a fill is no result of a cancel. -/
theorem Transaction.resolvesCancel_of_snapshot (htx : tx.snapshot = some s)
    (hid : tx.intentId = some o.intentId) (hterminal : s.status.terminal = true) :
    tx.resolvesCancel db o := by
  have hs : s.identity.intentId = o.intentId :=
    some.inj ((intentId_of_snapshot htx).symm.trans hid)
  cases tx with
  | applySnapshot => exact .inl ⟨s, htx, hs, hterminal⟩
  | reconcileSnapshot => exact .inl ⟨s, htx, hs, hterminal⟩
  | _ => cases htx

theorem Transaction.resolvesCancel_of_fill {f : FillReport} (htx : tx.fill = some (o.intentId, f))
    (hnew : db.fills.find? (o.venue, o.accountId, f.venueTradeId) = none)
    (hfull : o.filledQuantity + f.quantity = o.quantity) : tx.resolvesCancel db o := by
  cases tx with
  | applyFill => exact .inr ⟨_, htx, rfl, hnew, hfull⟩
  | reconcileFill => exact .inr ⟨_, htx, rfl, hnew, hfull⟩
  | _ => cases htx

/-- **One commit keeps the doubt**, unless the venue resolves the cancel or the
order is reopened. -/
theorem Evolves.inDoubt {o' : Order} (h : Evolves time db tx o o') (hs : o.status.inDoubt)
    (hresolves : ¬ tx.resolvesCancel db o) (hreopens : ¬ tx.reopens db o) : o'.status.inDoubt := by
  have hne : ∀ {status : OrderStatus}, o.status = status → status ≠ .cancelPending →
      status ≠ .unknown → False := by
    rintro _ rfl hc hu
    exact hs.elim hc hu
  cases h with
  | same => exact hs
  | fill htx _ hnew _ _ hbound =>
    show (filledStatus o _).inDoubt
    unfold filledStatus
    split_ifs with hfull hkept
    · exact absurd (Transaction.resolvesCancel_of_fill htx hnew hfull) hresolves
    · exact hs
    · -- the order was of unknown outcome, and the fill leaves some of it
      have hunknown : o.status = .unknown := hs.resolve_left (fun hp => hkept (.inr hp))
      exact absurd ⟨hunknown, .inr ⟨_, htx, rfl, hnew, lt_of_le_of_ne hbound hfull⟩⟩ hreopens
  | move _ hid hm =>
    cases hm with
    | expire _ hr | cancelUnsent hr | shadow _ _ hr | claim _ hr | abort _ _ hr | reject _ hr =>
      exact (hne hr (by simp) (by simp)).elim
    | answer _ _ _ _ _ hstatus =>
      rcases hstatus with rfl | ⟨hr, _⟩
      · exact hs
      · exact (hne hr (by simp) (by simp)).elim
    | dispatchCancel _ _ certain =>
      exfalso
      rcases hs with hs | hs <;> rw [hs] at certain <;> cases certain
    | confirmCancel _ confirmed =>
      exact absurd ⟨some.inj hid, by rw [confirmed]; simp⟩ hresolves
    | rejectCancel _ rejected =>
      exact absurd ⟨some.inj hid, by rw [rejected]; simp⟩ hresolves
    | doubt => exact .inr rfl
    | settle => exact hs
    | @observe _ s _ _ _ _ _ _ htx fresh _ _ _ uncanceled _ reported =>
      have hunknown : o.status = .unknown := hs.resolve_left uncanceled
      have hsid : s.identity.intentId = o.intentId :=
        some.inj ((Transaction.intentId_of_snapshot htx).symm.trans hid)
      rcases reported with hr | hr | hr
      · exact absurd ⟨hunknown, .inl ⟨s, htx, hsid, fresh, .inl hr⟩⟩ hreopens
      · exact absurd ⟨hunknown, .inl ⟨s, htx, hsid, fresh, .inr hr⟩⟩ hreopens
      · exact .inl hr
    | finish _ _ _ htx _ _ _ _ _ reported =>
      exact absurd (Transaction.resolvesCancel_of_snapshot htx hid reported) hresolves

/-! ## What the doubt blocks -/

/-- **The account is blocked**: it takes no new order, and is neither
reconciled nor reactivated. -/
def Blocked (env : Env) (db : DB) (accountId : String) : Prop :=
  (∀ c time r, c.intent.accountId = accountId → db.orders.find? c.intent.intentId = none →
    (Transaction.reserve c).exec env time db ≠ .ok r)
  ∧ (∀ tenant nowNs time r,
    (Transaction.markReconciled tenant accountId nowNs).exec env time db ≠ .ok r)
  ∧ ∀ tenant reason deploymentId time r,
    (Transaction.setMode tenant accountId .active reason deploymentId).exec env time db ≠ .ok r

theorem hasUncertain_of_inDoubt {id : String} (ho : db.orders.find? id = some o)
    (hs : o.status.inDoubt) : hasUncertain db o.accountId := by
  refine ⟨o, Table.mem_of_find? ho, rfl, ?_⟩
  rcases hs with hs | hs <;> rw [hs] <;> rfl

theorem not_hasUncertain_of_reserve {c : ReserveCall} {r : Order × DB}
    (hfresh : db.orders.find? c.intent.intentId = none) (h : reserveLocked env c time db = .ok r) :
    ¬ hasUncertain db c.intent.accountId := by
  obtain ⟨_, ⟨_, h⟩ | ⟨_, h, _⟩⟩ := reserveLocked_spec h
  · cases hfresh.symm.trans h
  · exact (reserveAdmissible_spec h).2.2

variable {accountId : String}

theorem not_hasUncertain_of_markReconciled {tenant : String} {nowNs : Option ℕ}
    (h : markReconciled tenant accountId nowNs time db = .ok db') :
    ¬ hasUncertain db accountId ∧ ¬ hasUnsettled db accountId := by
  unfold markReconciled at h
  obtain ⟨_, _, h⟩ := of_bind h
  obtain ⟨huncertain, h⟩ := of_raiseIf h
  exact ⟨huncertain, (of_raiseIf h).1⟩

theorem blocked_of_hasUncertain (h : hasUncertain db accountId) : Blocked env db accountId := by
  refine ⟨fun c time r hc hfresh hr => ?_, fun tenant nowNs time r hr => ?_,
    fun tenant reason deploymentId time r hr => ?_⟩
  · obtain ⟨_, hr, _⟩ := of_bind hr
    exact not_hasUncertain_of_reserve hfresh hr (hc ▸ h)
  · obtain ⟨_, hr, _⟩ := of_bind hr
    exact (not_hasUncertain_of_markReconciled hr).1 h
  · obtain ⟨_, hr, _⟩ := of_bind hr
    obtain ⟨_, _, hsettled, _⟩ := setMode_eq_ok hr
    exact (hsettled rfl).1 h

namespace System

/-- The step does not resolve a cancel of the intent. -/
def Unresolved (env : Env) (id : String) (s : System) (l : Label) : Prop :=
  ∀ p ∈ commits env s l, ∀ o ∈ s.db.orders.find? id, ¬ p.1.resolvesCancel s.db o
deriving Decidable

/-- The step does not reopen the order of the intent from an unknown outcome. -/
def Unopened (env : Env) (id : String) (s : System) (l : Label) : Prop :=
  ∀ p ∈ commits env s l, ∀ o ∈ s.db.orders.find? id, ¬ p.1.reopens s.db o
deriving Decidable

/-- **A cancel in doubt stays in doubt.** From a pending cancel on, as long as
the venue does not resolve it, and no step reopens the order from an unknown
outcome, the order is pending cancel or unknown, and its account blocked. -/
theorem cancel_in_doubt (env : Env) (ls ls' : List Label) (id : String)
    (hpending : ∃ o ∈ (after env ls).db.orders.find? id, o.status = .cancelPending)
    (hunresolved : Meets (step env) (Unresolved env id) (after env ls) ls')
    (hunopened : Meets (step env) (Unopened env id) (after env ls) ls') :
    ∃ o ∈ (after env (ls ++ ls')).db.orders.find? id, o.status.inDoubt
      ∧ Blocked env (after env (ls ++ ls')).db o.accountId := by
  obtain ⟨o, ho, hs⟩ := hpending
  have hmeets : Meets (step env) (fun s l => Unresolved env id s l ∧ Unopened env id s l)
      (after env ls) ls' := meets_and.mpr ⟨hunresolved, hunopened⟩
  have hrun := inv_run_of_meets
    (fun s : System => s.Held ∧ ∃ o, s.db.orders.find? id = some o ∧ o.status.inDoubt)
    ?_ ⟨held_after env ls, o, ho, .inl hs⟩ hmeets
  · obtain ⟨_, o', ho', hdoubt⟩ := hrun
    rw [show after env (ls ++ ls') = run (step env) (after env ls) ls' from run_append _ _ _ _]
    exact ⟨o', ho', hdoubt, blocked_of_hasUncertain (hasUncertain_of_inDoubt ho' hdoubt)⟩
  · rintro s l ⟨hs, o, ho, hdoubt⟩ ⟨hresolves, hreopens⟩
    refine ⟨hs.step l, ?_⟩
    cases h : commits env s l with
    | none =>
      rw [db_of_commits_none h]
      exact ⟨o, ho, hdoubt⟩
    | some p =>
      obtain ⟨o', ho', he⟩ := (commit_of_commits hs h).evolves ho
      exact ⟨o', ho', he.inDoubt hdoubt (hresolves p h o ho) (hreopens p h o ho)⟩

/-- An open order, and its cancel, dispatched. -/
def cancelDispatched : List Label :=
  Sample.opening 0 ++ Sample.reserving (Sample.intent "order" "paper" .buy Sample.seven Sample.ten)
      (Sample.deployment "paper" .paper Sample.capital) 5
    ++ Sample.submitted "order" 6
    ++ [.call 0 (.cancel (Sample.cancelCall "order")), .run 0 7]

/-- The call of the venue times out. -/
def cancelTimedOut : List Label := [.reply 0 .raised, .run 0 8]

/-- A query finds the order open, and the account is declared reconciled. -/
def openOrderSeen : List Label :=
  Sample.querying "order" (Sample.snapshot "order" .acknowledged .notRequired Sample.seven
    Sample.nothing 9) 10
    ++ [.call 0 (.markReconciled "tenant" "account" none), .run 0 11]

theorem cancel_in_doubt_timedOut :
    ∃ o ∈ (after Sample.digests (cancelDispatched ++ cancelTimedOut)).db.orders.find? "order",
      o.status.inDoubt
        ∧ Blocked Sample.digests (after Sample.digests (cancelDispatched ++ cancelTimedOut)).db
          o.accountId :=
  cancel_in_doubt Sample.digests cancelDispatched cancelTimedOut "order" (by decide +kernel)
    (by decide +kernel) (by decide +kernel)

/-- **The doubt ends unresolved**: after the timeout of a cancel an open order
at the venue reopens the order here, and the account is reconciled. -/
theorem cancel_reopened : (∃ o ∈ (after Sample.digests cancelDispatched).db.orders.find? "order",
      o.status = .cancelPending)
    ∧ Meets (step Sample.digests) (Unresolved Sample.digests "order")
      (after Sample.digests cancelDispatched) (cancelTimedOut ++ openOrderSeen)
    ∧ (∃ o ∈ (after Sample.digests (cancelDispatched ++ cancelTimedOut ++ openOrderSeen)).db.orders.find?
        "order", ¬ o.status.inDoubt)
    ∧ (∃ a ∈ (after Sample.digests (cancelDispatched ++ cancelTimedOut ++ openOrderSeen)).db.accounts.find?
        "account", a.reconciledNs = 11) := by
  decide +kernel

end System

end Qt
