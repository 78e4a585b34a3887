import QuantTrading.Commits

/-!
# Runs

What a commit does to one row, and from it what a step and a run of the
system do. A task of a run still holds the rows it read (`System.Held`), so
every transaction a run commits is a `Commit`, and an invariant of commits is
an invariant of runs (`System.inv_after`).
-/

namespace Qt

open Except Table Function Option
open Machine

variable {env : Env} {time : ℕ} {db db' : DB} {tx : Transaction}

/-! ## One order in a commit -/

/-- **What a commit does to an order that is there.** -/
inductive Evolves (time : ℕ) (db : DB) (tx : Transaction) (o : Order) : Order → Prop
  | same (unfilled : ∀ f, tx.fill ≠ some (o.intentId, f)) : Evolves time db tx o o
  | move {a a' : Account} {o' : Order} {ks : List EventType} (located : Located db a o)
      (hid : tx.intentId = some o.intentId) (h : Move time tx a o a' o' ks)
      (hov : o.Valid → o'.Valid) : Evolves time db tx o o'
  | fill {f : FillReport} (htx : tx.fill = some (o.intentId, f)) (hcheck : checkFill f = .ok ())
      (hnew : db.fills.find? (o.venue, o.accountId, f.venueTradeId) = none)
      (hsent : o.status ≠ .reserved)
      (hproven : ¬ provenNeverSent db o.tenantId o.intentId)
      (hbound : o.filledQuantity + f.quantity ≤ o.quantity) (hov : (o.filling f time).Valid) :
      Evolves time db tx o (o.filling f time)

variable {a a' : Account} {ks : List EventType} {o o' : Order}

theorem Move.frozen (h : Move time tx a o a' o' ks) : o'.frozen = o.frozen := by
  cases h <;> rfl

theorem Move.account_frozen (h : Move time tx a o a' o' ks) : a'.frozen = a.frozen := by
  cases h <;> rfl

theorem Evolves.frozen (h : Evolves time db tx o o') : o'.frozen = o.frozen := by
  cases h with
  | same => rfl
  | move _ _ h => exact h.frozen
  | fill => rfl

variable {intentId : String}

/-- A transaction that ingests a fill is about the order of the fill. -/
theorem Transaction.intentId_of_fill {f : FillReport} (htx : tx.fill = some (intentId, f)) :
    tx.intentId = some intentId := by
  cases tx with
  | applyFill =>
    cases htx
    rfl
  | reconcileFill tenant accountId venue item =>
    obtain ⟨_, _, h⟩ := Option.map_eq_some_iff.mp htx
    cases h
    rfl
  | _ => cases htx

theorem Order.intentId_of_frozen (h : o'.frozen = o.frozen) :
    o'.intentId = o.intentId := (congrArg Order.intentId h :)

variable {id : String}

/-- **Orders stay**, and evolve. -/
theorem Commit.evolves (h : Commit env time db tx db') (ho : db.orders.find? id = some o) :
    ∃ o', db'.orders.find? id = some o' ∧ Evolves time db tx o o' := by
  have hid : o.intentId = id := key_of_find? ho
  cases h with
  | aside h =>
    rw [h.orders]
    exact ⟨o, ho, .same (fun f hf => by rw [h.unfilled] at hf; cases hf)⟩
  | fund => exact ⟨o, ho, .same (fun _ hf => by cases hf)⟩
  | reopen => exact ⟨o, ho, .same (fun _ hf => by cases hf)⟩
  | reserve =>
    exact ⟨o, find?_insertOnce_of_find? ho, .same (fun _ hf => by cases hf)⟩
  | @move _ a a' p p' ks located htx hm hav hov =>
    have hp' : p'.intentId = p.intentId := Order.intentId_of_frozen hm.frozen
    by_cases hk : p.intentId = id
    · have hop : p = o := some.inj (located.order.symm.trans (hk ▸ ho))
      subst hop
      exact ⟨p', hk ▸ moved_order located hp', .move located htx hm hov⟩
    · refine ⟨o, ?_, .same (fun f hf => hk ?_)⟩
      · show (db.orders.replace p').find? id = some o
        rw [find?_replace (hp'.symm ▸ located.order), if_neg (hp'.symm ▸ Ne.symm hk), ho]
      · exact (some.inj (htx.symm.trans (Transaction.intentId_of_fill hf))).trans hid
  | @fill _ a p f ks located htx hcheck hassets hgross hnew hunfilled hsent hproven hbound _ _ _
    hov =>
    by_cases hk : p.intentId = id
    · have hop : p = o := some.inj (located.order.symm.trans (hk ▸ ho))
      subst hop
      refine ⟨p.filling f time, ?_, .fill htx hcheck hnew hsent hproven hbound hov⟩
      exact hk ▸ find?_replace_self (s := p.filling f time) located.order
    · refine ⟨o, ?_, .same (fun g hg => hk ?_)⟩
      · show (db.orders.replace (p.filling f time)).find? id = some o
        rw [find?_replace (s := p.filling f time) located.order,
          if_neg (show id ≠ (p.filling f time).intentId from Ne.symm hk), ho]
      · exact (congrArg Prod.fst (some.inj (htx.symm.trans hg))).trans hid

/-- **A reservation passes its checks.** -/
structure Reserves (env : Env) (db : DB) (c : ReserveCall) (a : Account) (now : ℕ) : Prop where
  account : db.accounts.find? c.intent.accountId = some a
  tenantId : a.tenantId = c.tenant
  fresh : db.orders.find? c.intent.intentId = none
  head : ensureActiveDeployment db c.tenant c.intent.accountId c.intent.deploymentId = .ok ()
  admissible : reserveAdmissible env c db a now = .ok ()
  valid : (c.row env now).Valid

/-- An order of the database after is one of the database before, evolved, or
was reserved by the commit. -/
theorem Commit.origin (h : Commit env time db tx db') (ho' : db'.orders.find? id = some o') :
    (∃ o, db.orders.find? id = some o ∧ Evolves time db tx o o')
      ∨ ∃ c a, tx = .reserve c ∧ id = c.intent.intentId ∧ o' = c.row env (nowOf c.nowNs time)
        ∧ Reserves env db c a (nowOf c.nowNs time) := by
  cases ho : db.orders.find? id with
  | some o =>
    obtain ⟨p, hp, he⟩ := h.evolves ho
    obtain rfl : p = o' := some.inj (hp.symm.trans ho')
    exact .inl ⟨o, rfl, he⟩
  | none =>
    refine .inr ?_
    cases h with
    | aside h =>
      rw [h.orders, ho] at ho'
      cases ho'
    | fund => exact absurd (ho.symm.trans ho') (by simp)
    | reopen => exact absurd (ho.symm.trans ho') (by simp)
    | @reserve c a now hnow ha htenant hfresh hhead hadmissible _ _ _ _ _ hvalid =>
      subst hnow
      dsimp only at ho'
      rw [find?_insertOnce] at ho'
      split at ho'
      · rename_i hk
        exact ⟨c, a, rfl, hk.2.symm, (some.inj ho').symm,
          ⟨ha, htenant, hfresh, hhead, hadmissible, hvalid⟩⟩
      · rw [ho] at ho'
        cases ho'
    | @move _ a a' p p' ks located htx hm hav hov =>
      have hp' : p'.intentId = p.intentId := Order.intentId_of_frozen hm.frozen
      have hk : id ≠ p'.intentId := by
        rintro rfl
        rw [hp', located.order] at ho
        cases ho
      rw [show (db.moved a' p' _).orders = db.orders.replace p' from rfl,
        find?_replace (hp'.symm ▸ located.order), if_neg hk, ho] at ho'
      cases ho'
    | @fill _ a p f ks located =>
      have hk : id ≠ (p.filling f time).intentId := by
        rintro rfl
        exact absurd (ho.symm.trans located.order) (by simp)
      have hfind : (db.orders.replace (p.filling f time)).find? id = some o' := ho'
      rw [find?_replace (s := p.filling f time) located.order, if_neg hk, ho] at hfind
      cases hfind

/-- **The rule for the orders of a database**: what holds of an order when it
is reserved and stays as it evolves holds of every order. -/
theorem Commit.forall_orders (h : Commit env time db tx db') {P : Order → Prop}
    (hreserve : ∀ c a now, Reserves env db c a now → P (c.row env now))
    (hevolves : ∀ o o', Evolves time db tx o o' → P o → P o')
    (hP : ∀ o ∈ db.orders.rows, P o) : ∀ o ∈ db'.orders.rows, P o := by
  intro o' ho'
  obtain ⟨o, ho, he⟩ | ⟨c, a, _, _, rfl, hr⟩ := h.origin (find?_of_mem ho')
  · exact hevolves o o' he (hP o (mem_of_find? ho))
  · exact hreserve c a _ hr

theorem Evolves.valid (h : Evolves time db tx o o') (hv : o.Valid) : o'.Valid := by
  cases h with
  | same => exact hv
  | move _ _ _ hov => exact hov hv
  | fill _ _ _ _ _ _ hov => exact hov

/-- **An order is the row of a reservation**, which verified what it reserved. -/
def Order.Admitted (env : Env) (o : Order) : Prop :=
  ∃ (c : ReserveCall) (now : ℕ), o.frozen = (c.row env now).frozen
    ∧ verify env c.intent c.instrument c.fees c.deployment c.market now = .ok ()

/-- The checks of a reservation that later results use. -/
theorem reserveAdmissible_spec {c : ReserveCall} {now : ℕ} {u : Unit}
    (h : reserveAdmissible env c db a now = .ok u) :
    verify env c.intent c.instrument c.fees c.deployment c.market now = .ok ()
      ∧ (a.quoteAsset = c.instrument.quoteAsset ∧ c.deployment.riskBudget.currency = a.quoteAsset
        ∧ c.deployment.riskBudget.capital.val = a.capital)
      ∧ ¬ hasUncertain db c.intent.accountId := by
  unfold reserveAdmissible at h
  obtain ⟨_, hverify, h⟩ := of_bind h
  refine ⟨hverify, ?_⟩
  -- a buy is marked in front of the other checks
  split at h
  · obtain ⟨_, _, h⟩ := of_bind h
    obtain ⟨_, h⟩ := of_raiseIf h
    obtain ⟨hbudget, h⟩ := of_raiseIf h
    obtain ⟨_, h⟩ := of_raiseIf h
    obtain ⟨_, h⟩ := of_raiseIf h
    push Not at hbudget
    exact ⟨⟨hbudget.1, hbudget.2.1, hbudget.2.2.1⟩, (of_raiseIf h).1⟩
  · obtain ⟨_, h⟩ := of_raiseIf h
    obtain ⟨hbudget, h⟩ := of_raiseIf h
    obtain ⟨_, h⟩ := of_raiseIf h
    obtain ⟨_, h⟩ := of_raiseIf h
    push Not at hbudget
    exact ⟨⟨hbudget.1, hbudget.2.1, hbudget.2.2.1⟩, (of_raiseIf h).1⟩

theorem Commit.admitted (h : Commit env time db tx db')
    (hP : ∀ o ∈ db.orders.rows, o.Admitted env) : ∀ o ∈ db'.orders.rows, o.Admitted env := by
  refine h.forall_orders (fun c a now hr => ⟨c, now, rfl, (reserveAdmissible_spec hr.admissible).1⟩) ?_ hP
  rintro o o' he ⟨c, now, hfrozen, hverify⟩
  exact ⟨c, now, he.frozen.trans hfrozen, hverify⟩

/-- **The columns of an order repeat its intent.** -/
structure Order.Faithful (o : Order) : Prop where
  intentId : o.payload.intent.intentId = o.intentId
  accountId : o.payload.intent.accountId = o.accountId
  deploymentId : o.payload.intent.deploymentId = o.deploymentId
  side : o.payload.intent.side = o.side
  quantity : o.payload.intent.quantity.val = o.quantity

theorem Order.Admitted.faithful (h : o.Admitted env) : o.Faithful := by
  obtain ⟨c, now, hfrozen, _⟩ := h
  have hpayload : o.payload = c.envelope := (congrArg Order.payload hfrozen :)
  have hintent : o.payload.intent = c.intent := congrArg Envelope.intent hpayload
  constructor <;> rw [hintent]
  · exact (congrArg Order.intentId hfrozen :).symm
  · exact (congrArg Order.accountId hfrozen :).symm
  · exact (congrArg Order.deploymentId hfrozen :).symm
  · exact (congrArg Order.side hfrozen :).symm
  · exact (congrArg Order.quantity hfrozen :).symm

/-- **The record only grows.** -/
structure Extends (db db' : DB) : Prop where
  events : db.events <+: db'.events
  fills : db.fills.rows <+: db'.fills.rows
  transactions : db.ledgerTransactions.rows <+: db'.ledgerTransactions.rows
  entries : db.ledgerEntries <+: db'.ledgerEntries

theorem rows_prefix_insertOnce {ρ κ : Type} [DecidableEq κ] {key : ρ → κ} (t : Table key) (r : ρ) :
    t.rows <+: (t.insertOnce r).rows := by
  unfold insertOnce
  split_ifs
  · exact List.prefix_rfl
  · exact List.prefix_append _ _

open List in
theorem Commit.extends (h : Commit env time db tx db') : Extends db db' := by
  cases h with
  | aside h =>
    obtain ⟨es, hes, _⟩ := h.events
    exact ⟨⟨es, hes.symm⟩, h.fills ▸ prefix_rfl, h.ledgerTransactions ▸ prefix_rfl,
      h.ledgerEntries ▸ prefix_rfl⟩
  | reopen => exact ⟨prefix_rfl, prefix_rfl, prefix_rfl, prefix_rfl⟩
  | reserve | move => exact ⟨prefix_append _ _, prefix_rfl, prefix_rfl, prefix_rfl⟩
  | fund =>
    exact ⟨prefix_append _ _, prefix_rfl, rows_prefix_insertOnce _ _, prefix_append _ _⟩
  | fill =>
    exact ⟨prefix_append _ _, rows_prefix_insertOnce _ _, rows_prefix_insertOnce _ _,
      prefix_append _ _⟩

/-! ## One account in a commit -/

variable {b : Account}

theorem Account.frozen_of_books (h : b.books = a.books) : b.frozen = a.frozen :=
  (congrArg Account.frozen h :)

theorem Account.accountId_of_frozen (h : b.frozen = a.frozen) :
    b.accountId = a.accountId := (congrArg Account.accountId h :)

theorem Move.severity (h : Move time tx a o a' o' ks) : a.mode.severity ≤ a'.mode.severity := by
  cases h with
  | expire | cancelUnsent | shadow | claim | reject | dispatchCancel | confirmCancel
  | rejectCancel => exact le_rfl
  | abort _ _ _ hmode => exact hmode
  | answer _ _ _ _ hmode => exact hmode
  | doubt => exact severity_halted _
  | settle => exact severity_settled_le _ _ _
  | observe _ _ _ _ _ hmode => exact hmode
  | finish _ _ _ _ _ hmode => exact hmode

theorem severity_fillMode (env : Env) (db : DB) (a : Account) (o : Order) (f : FillReport)
    (time : ℕ) : a.mode.severity ≤ (fillMode env db a o f time).severity := by
  unfold fillMode
  dsimp only
  split_ifs
  · exact severity_halted _
  · exact le_rfl

/-- **Accounts stay**, with their identity; only `set_mode` relaxes a mode. -/
theorem Commit.account (h : Commit env time db tx db') (ha : db.accounts.find? id = some a) :
    ∃ a', db'.accounts.find? id = some a' ∧ a'.frozen = a.frozen
      ∧ (tx.setsMode ≠ some id → a.mode.severity ≤ a'.mode.severity) := by
  have hid : a.accountId = id := key_of_find? ha
  -- the row of another key is not touched, and that of this key is replaced
  have hreplace : ∀ (b b' : Account), db.accounts.find? b.accountId = some b →
      b'.frozen = b.frozen →
      (tx.setsMode ≠ some b.accountId → b.mode.severity ≤ b'.mode.severity) →
      ∃ a', (db.accounts.replace b').find? id = some a' ∧ a'.frozen = a.frozen
        ∧ (tx.setsMode ≠ some id → a.mode.severity ≤ a'.mode.severity) := by
    intro b b' hb hfrozen hmode
    have hb' : b'.accountId = b.accountId := Account.accountId_of_frozen hfrozen
    rw [find?_replace (hb'.symm ▸ hb)]
    by_cases hk : id = b'.accountId
    · rw [if_pos hk]
      have hab : a = b := by
        rw [hk, hb', hb] at ha
        exact (some.inj ha).symm
      subst hab
      exact ⟨b', rfl, hfrozen, fun h => hmode (by rwa [hid])⟩
    · rw [if_neg hk]
      exact ⟨a, ha, rfl, fun _ => le_rfl⟩
  have hinsert : ∀ b : Account, ∃ a', (db.accounts.insertOnce b).find? id = some a'
      ∧ a'.frozen = a.frozen ∧ (tx.setsMode ≠ some id → a.mode.severity ≤ a'.mode.severity) := by
    exact fun b => ⟨a, find?_insertOnce_of_find? ha, rfl, fun _ => le_rfl⟩
  cases h with
  | aside h =>
    obtain haccounts | ⟨b, b', hb, haccounts, hbooks, hmode⟩ := h.accounts
    · rw [haccounts]
      exact ⟨a, ha, rfl, fun _ => le_rfl⟩
    · rw [haccounts]
      exact hreplace b b' hb (Account.frozen_of_books hbooks) hmode
  | fund => exact hinsert _
  | reopen => exact hinsert _
  | @reserve c b now hnow hb =>
    refine hreplace b (b.reserving c now) ?_ rfl (fun _ => le_rfl)
    rwa [key_of_find? hb]
  | @move _ b b' o o' ks located htx hm =>
    exact hreplace b b' located.account hm.account_frozen (fun _ => hm.severity)
  | @fill _ b o f ks located =>
    exact hreplace b _ located.account rfl (fun _ => severity_fillMode _ _ _ _ _ _)

/-! ## Tasks hold the rows they read -/

theorem Holds.commit {row : Order} (hheld : Holds db intentId row) (h : Commit env time db tx db') :
    Holds db' intentId row := by
  obtain ⟨o, ho, hfrozen⟩ := hheld
  obtain ⟨o', ho', he⟩ := h.evolves ho
  exact ⟨o', ho', he.frozen.trans hfrozen⟩

/-- A transaction that is an operation of its own. -/
def Transaction.alone : Transaction → Bool
  | .createAccount .. | .claimAccount .. | .check .. | .stop .. | .applyFill .. | .markReconciled ..
  | .setMode .. | .activate .. | .deactivate .. | .publishHealth .. => true
  | _ => false

theorem Transaction.held_of_alone {tx : Transaction} (h : tx.alone = true) : tx.Held db := by
  cases tx <;> trivial

/-- The rows a task holds are still the rows of their orders. -/
def Task.Held (db : DB) : Task → Prop
  | .single tx => tx.alone = true
  | .submitMarket c row | .submitCheck c row _ | .submitClaim c row _ | .submitPresend c row _
  | .submitSend c row | .submitAwait c row | .submitResult c row _ => Holds db c.intentId row
  | .cancelAwait c row | .cancelResult c row _ => Holds db c.intentId row
  | _ => True

variable {t : Task}

theorem Task.Held.commit (hheld : t.Held db) (h : Commit env time db tx db') : t.Held db' := by
  cases t <;> first | trivial | exact hheld | exact Holds.commit hheld h

/-- The transaction a task runs next is handed rows the task holds. -/
theorem Task.Held.next (hheld : t.Held db) (hnext : t.next = some tx) : tx.Held db := by
  unfold Task.next at hnext
  split at hnext <;> cases hnext <;> first | trivial | exact Transaction.held_of_alone hheld

theorem Operation.start_held (op : Operation) (db : DB) : op.start.Held db := by
  cases op <;> trivial

theorem Task.Held.raised (e : Exc) : (t.raised e).Held db := by
  unfold Task.raised
  split <;> trivial

theorem Task.Held.advance (hheld : t.Held db) : t.advance.Held db := by
  unfold Task.advance
  split
  · exact hheld
  · trivial
  · exact hheld

theorem Task.Held.replied (hheld : t.Held db) (r : Reply) : (t.replied r).Held db := by
  unfold Task.replied
  split
  · split
    · exact hheld
    · trivial
  · trivial
  · split
    · exact hheld
    · trivial
  · trivial
  · trivial
  · trivial
  · trivial
  · split <;> trivial
  · trivial
  · exact hheld


theorem Located.holds (located : Located db a o) (hid : o.intentId = intentId) :
    Holds db intentId o :=
  ⟨o, hid ▸ located.order, rfl⟩

theorem Task.Held.committed (hheld : t.Held db) (hnext : t.next = some tx) {outcome : Outcome}
    (h : tx.exec env time db = .ok (outcome, db')) : (t.committed time outcome).Held db' := by
  have hcommit : Commit env time db tx db' := commit_of_exec (hheld.next hnext) h
  have hafter : t.Held db' := hheld.commit hcommit
  cases t with
  | reserveCheck c =>
    cases outcome <;> first
    | trivial
    | (unfold Task.committed; dsimp only; split <;> trivial)
  | submitRead c =>
    cases hnext
    obtain ⟨row, hrow, h⟩ := of_bind h
    cases h
    obtain ⟨hfound, _⟩ := orderOf_eq_ok.mp hrow
    unfold Task.committed
    dsimp only
    split <;> exact ⟨row, hfound, rfl⟩
  | submitMarket c row =>
    cases outcome with
    | market raw =>
      cases raw with
      | none => trivial
      | some m =>
        cases m with
        | none => trivial
        | some market => exact hafter
    | _ => trivial
  | submitCheck c row market =>
    cases outcome with
    | report r =>
      unfold Task.committed
      dsimp only
      split
      · trivial
      · exact hafter
    | _ => trivial
  | submitClaim c row market =>
    cases hnext
    obtain ⟨⟨claim, db₁⟩, hclaim, h⟩ := of_bind h
    cases h
    obtain ⟨a, o, located, hid, _, _, hout⟩ := submitClaim_spec hclaim
    rcases hout with rfl | ⟨rfl, _⟩
    · trivial
    · exact (located.holds hid).commit hcommit
  | submitPresend c row market =>
    cases outcome with
    | fence f =>
      cases f with
      | clear => exact hafter
      | _ => trivial
    | _ => trivial
  | cancelClaim c =>
    cases hnext
    obtain ⟨⟨claim, db₁⟩, hclaim, h⟩ := of_bind h
    cases h
    obtain ⟨a, o, located, hid, _, hout⟩ := cancelClaim_spec hclaim
    cases claim with
    | returned => trivial
    | dispatched row =>
      obtain rfl := hout row rfl
      exact (located.holds hid).commit hcommit
  | queryRead tenant intentId => cases outcome <;> trivial
  | reconcileRead tenant accountId venue => cases outcome <;> trivial
  | reconcileItems tenant accountId venue fills orders complete =>
    cases fills with
    | cons => trivial
    | nil => cases orders <;> trivial
  | _ => trivial

/-! ## Steps and runs of the system -/

namespace System

/-- Every task holds the rows it read. -/
def Held (s : System) : Prop := ∀ tid, (s.tasks tid).Held s.db

/-- How a task goes on without a commit and without a send. -/
inductive Quiet (t : Task) : Task → Prop
  | stay : Quiet t t
  | crash : Quiet t .rest
  | start (op : Operation) : Quiet t op.start
  | raised (e : Exc) : Quiet t (t.raised e)
  | replied (r : Reply) : Quiet t (t.replied r)
  | advance (h : t.sends = none) : Quiet t t.advance

/-- **What a step of the system does**: a task goes on without touching the
repository, commits a transaction, or begins to send an intent. -/
inductive Steps (env : Env) (s : System) : Label → System → Prop
  | quiet {l : Label} (tid : ℕ) {t : Task} (ht : Quiet (s.tasks tid) t) :
      Steps env s l (s.setTask tid t)
  | commit (tid time : ℕ) {tx : Transaction} {outcome : Outcome} {db : DB}
      (hnext : (s.tasks tid).next = some tx) (hexec : tx.exec env time s.db = .ok (outcome, db)) :
      Steps env s (.run tid time)
        { s.setTask tid ((s.tasks tid).committed time outcome) with
          db := db, log := s.log ++ [.committed tid tx time] }
  | send (tid time : ℕ) {c : SubmitCall} {row : Order} (ht : s.tasks tid = .submitSend c row) :
      Steps env s (.run tid time)
        { s.setTask tid (.submitAwait c row) with log := s.log ++ [.sent tid row.payload.intent] }

theorem setTask_self (s : System) (tid : ℕ) : s.setTask tid (s.tasks tid) = s := by
  unfold setTask
  rw [update_eq_self]

theorem steps (env : Env) (s : System) (l : Label) : Steps env s l (step env s l) := by
  cases l with
  | call tid op =>
    unfold step
    dsimp only
    split
    · exact .quiet tid (.start op)
    · have h : Steps env s (.call tid op) (s.setTask tid (s.tasks tid)) := .quiet tid .stay
      rwa [setTask_self] at h
  | crash tid => exact .quiet tid .crash
  | reply tid r => exact .quiet tid (.replied r)
  | run tid time =>
    unfold step
    dsimp only
    split
    · rename_i tx hnext
      split
      · rename_i hexec
        exact .commit tid time hnext hexec
      · exact .quiet tid (.raised _)
    · cases hs : (s.tasks tid).sends with
      | none =>
        have h : Steps env s (.run tid time) (s.setTask tid (s.tasks tid).advance) :=
          .quiet tid (.advance hs)
        simpa [setTask] using h
      | some intent =>
        unfold Task.sends at hs
        split at hs
        · rename_i c row ht
          cases hs
          rw [ht]
          exact .send tid time ht
        · cases hs

theorem Quiet.held {t u : Task} (h : Quiet t u) (hheld : t.Held db) : u.Held db := by
  cases h with
  | stay => exact hheld
  | crash => trivial
  | start op => exact op.start_held db
  | raised e => exact Task.Held.raised e
  | replied r => exact hheld.replied r
  | advance => exact hheld.advance

variable {s : System}

variable {tid : ℕ}

theorem forall_setTask {t : Task} {P : Task → Prop} (hs : ∀ i, P (s.tasks i)) (ht : P t) (i : ℕ) :
    P ((s.setTask tid t).tasks i) := by
  show P (Function.update s.tasks tid t i)
  by_cases hi : i = tid
  · rw [hi, update_self]
    exact ht
  · rw [update_of_ne hi]
    exact hs i

theorem Held.step (hs : s.Held) (l : Label) : (step env s l).Held := by
  have h := steps env s l
  generalize System.step env s l = s' at h
  intro i
  cases h with
  | quiet tid ht => exact forall_setTask hs (ht.held (hs tid)) i
  | commit tid time hnext hexec =>
    have hcommit := commit_of_exec ((hs tid).next hnext) hexec
    exact forall_setTask (fun j => (hs j).commit hcommit) ((hs tid).committed hnext hexec) i
  | @send tid time c row ht =>
    have hrow : (Task.submitAwait c row).Held s.db := by
      have h := hs tid
      rw [ht] at h
      exact h
    exact forall_setTask hs hrow i

theorem held_init : init.Held := fun _ => trivial

/-- **Tasks hold the rows they read**, after every run. -/
theorem held_after (env : Env) (ls : List Label) : (after env ls).Held :=
  inv_run Held (fun _ l h => h.step l) held_init ls

/-- The transaction a step commits, if it commits one. -/
def commits (env : Env) (s : System) : Label → Option (Transaction × ℕ)
  | .run tid time =>
    match (s.tasks tid).next with
    | some tx => if (tx.exec env time s.db).isOk then some (tx, time) else none
    | none => none
  | _ => none

theorem commits_of_exec {tx : Transaction} {r : Outcome × DB} (hnext : (s.tasks tid).next = some tx)
    (hexec : tx.exec env time s.db = .ok r) : commits env s (.run tid time) = some (tx, time) := by
  show (match (s.tasks tid).next with
    | some tx => if (tx.exec env time s.db).isOk then some (tx, time) else none
    | none => none) = _
  rw [hnext]
  dsimp only
  rw [hexec]
  rfl

variable {l : Label}

/-- What a step commits is what its transaction leaves. -/
theorem exec_of_commits (h : commits env s l = some (tx, time)) :
    ∃ outcome, tx.exec env time s.db = .ok (outcome, (step env s l).db) := by
  cases l with
  | call | crash | reply => cases h
  | run tid time' =>
    unfold commits at h
    unfold step
    dsimp only at h ⊢
    cases hnext : (s.tasks tid).next with
    | none =>
      rw [hnext] at h
      cases h
    | some tx' =>
      rw [hnext] at h
      dsimp only at h ⊢
      cases hexec : tx'.exec env time' s.db with
      | error e =>
        rw [hexec] at h
        cases h
      | ok p =>
        rw [hexec] at h
        cases h
        exact ⟨p.1, hexec⟩

/-- The transaction that a step commits holds the rows it was given. -/
theorem held_of_commits (hs : s.Held) (h : commits env s l = some (tx, time)) : tx.Held s.db := by
  cases l with
  | call | crash | reply => cases h
  | run tid time' =>
    unfold commits at h
    dsimp only at h
    cases hnext : (s.tasks tid).next with
    | none =>
      rw [hnext] at h
      cases h
    | some tx' =>
      rw [hnext] at h
      dsimp only at h
      split_ifs at h
      cases h
      exact (hs tid).next hnext

/-- A step that commits nothing leaves the repository as it is. -/
theorem db_of_commits_none (h : commits env s l = none) : (step env s l).db = s.db := by
  cases l with
  | call tid op =>
    unfold step
    dsimp only
    split <;> rfl
  | crash tid => rfl
  | reply tid r => rfl
  | run tid time =>
    cases hnext : (s.tasks tid).next with
    | none =>
      unfold step
      dsimp only
      rw [hnext]
      rfl
    | some tx =>
      cases hexec : tx.exec env time s.db with
      | ok r =>
        rw [commits_of_exec hnext hexec] at h
        cases h
      | error e =>
        unfold step
        dsimp only
        rw [hnext]
        dsimp only
        rw [hexec]
        rfl

/-- A step that commits a transaction is a `Commit`. -/
theorem commit_of_commits (hs : s.Held) {tx : Transaction} {time : ℕ}
    (h : commits env s l = some (tx, time)) : Commit env time s.db tx (step env s l).db := by
  obtain ⟨outcome, hexec⟩ := exec_of_commits h
  exact commit_of_exec (held_of_commits hs h) hexec

/-- **The invariant rule for the repository, with the transactions**, from any
point of a run on. -/
theorem inv_run_of_exec (Inv : DB → Prop)
    (hexec : ∀ {time db tx outcome db'}, Commit env time db tx db' →
      Transaction.exec env time db tx = .ok (outcome, db') → Inv db → Inv db')
    (ls ls' : List Label) (h : Inv (after env ls).db) : Inv (after env (ls ++ ls')).db := by
  have hstep : ∀ (s : System) (l : Label), s.Held ∧ Inv s.db →
      (step env s l).Held ∧ Inv (step env s l).db := by
    intro s l ⟨hs, hinv⟩
    refine ⟨hs.step l, ?_⟩
    cases hc : commits env s l with
    | none => rwa [db_of_commits_none hc]
    | some p =>
      obtain ⟨outcome, hok⟩ := exec_of_commits hc
      exact hexec (commit_of_commits hs hc) hok hinv
  have hrun := inv_run (fun s : System => s.Held ∧ Inv s.db) hstep ⟨held_after env ls, h⟩ ls'
  unfold after at hrun ⊢
  rw [run_append]
  exact hrun.2

/-- **The invariant rule for the repository**: what every commit keeps holds
after every run. -/
theorem inv_after (Inv : DB → Prop) (hempty : Inv .empty)
    (hcommit : ∀ {time db tx db'}, Commit env time db tx db' → Inv db → Inv db') (ls : List Label) :
    Inv (after env ls).db :=
  inv_run_of_exec Inv (fun h _ => hcommit h) [] ls hempty

theorem admitted_after (env : Env) (ls : List Label) :
    ∀ o ∈ (after env ls).db.orders.rows, o.Admitted env :=
  inv_after (fun db => ∀ o ∈ db.orders.rows, o.Admitted env) (fun o ho => by cases ho)
    (fun h hP => h.admitted hP) ls

/-- **The rule for the repository in a run**: what every commit relates,
reflexively and transitively, the run relates. -/
theorem db_of_run (R : DB → DB → Prop) (hrefl : ∀ db, R db db)
    (htrans : ∀ db₁ db₂ db₃, R db₁ db₂ → R db₂ db₃ → R db₁ db₃)
    (hcommit : ∀ {time db tx db'}, Commit env time db tx db' → R db db') (ls ls' : List Label) :
    R (after env ls).db (after env (ls ++ ls')).db := by
  have hstep : ∀ (s : System) (l : Label), s.Held → (step env s l).Held := fun _ l h => h.step l
  have hrel := rel_run Held (fun s s' : System => R s.db s'.db) hstep
    (fun s => hrefl s.db) (fun s t u => htrans s.db t.db u.db) (fun s l hs => ?_)
    (held_after env ls) ls'
  · unfold after at hrel ⊢
    rwa [run_append]
  · cases h : commits env s l with
    | none =>
      rw [db_of_commits_none h]
      exact hrefl s.db
    | some p => exact hcommit (commit_of_commits hs h)

open List in
theorem extends_of_run (env : Env) (ls ls' : List Label) :
    Extends (after env ls).db (after env (ls ++ ls')).db :=
  db_of_run Extends (fun _ => ⟨prefix_rfl, prefix_rfl, prefix_rfl, prefix_rfl⟩)
    (fun _ _ _ h h' => ⟨h.events.trans h'.events, h.fills.trans h'.fills,
      h.transactions.trans h'.transactions, h.entries.trans h'.entries⟩) Commit.extends ls ls'

/-- **The rule for one row in a run**, under an invariant: it stays, and what
every commit relates, reflexively and transitively, the run relates. -/
theorem row_of_run {ρ : Type} (row : DB → Option ρ) {R : ρ → ρ → Prop} (Inv : DB → Prop)
    (hrefl : ∀ r, R r r) (htrans : ∀ r s t, R r s → R s t → R r t)
    (hcommit : ∀ {time db tx db'}, Commit env time db tx db' → Inv db →
      Inv db' ∧ ∀ r, row db = some r → ∃ r', row db' = some r' ∧ R r r')
    (ls ls' : List Label) (hinv : Inv (after env ls).db) {r : ρ}
    (hr : row (after env ls).db = some r) :
    ∃ r', row (after env (ls ++ ls')).db = some r' ∧ R r r' := by
  refine (db_of_run (fun db db' => Inv db → Inv db' ∧ ∀ r, row db = some r →
    ∃ r', row db' = some r' ∧ R r r') (fun _ h => ⟨h, fun r hr => ⟨r, hr, hrefl r⟩⟩)
    (fun _ _ _ h₁ h₂ h => ?_) hcommit ls ls' hinv).2 r hr
  obtain ⟨h, hr₁⟩ := h₁ h
  obtain ⟨h, hr₂⟩ := h₂ h
  refine ⟨h, fun r hr => ?_⟩
  obtain ⟨s, hs, hrs⟩ := hr₁ r hr
  obtain ⟨t, ht, hst⟩ := hr₂ s hs
  exact ⟨t, ht, htrans r s t hrs hst⟩

/-- **An order in a run.** -/
theorem order_of_run {R : Order → Order → Prop} (hrefl : ∀ o, R o o)
    (htrans : ∀ o p q, R o p → R p q → R o q)
    (hevolves : ∀ {time db tx o o'}, Evolves time db tx o o' → R o o') (ls ls' : List Label)
    {id : String} {o : Order} (ho : (after env ls).db.orders.find? id = some o) :
    ∃ o', (after env (ls ++ ls')).db.orders.find? id = some o' ∧ R o o' :=
  row_of_run (·.orders.find? id) (fun _ => True) hrefl htrans
    (fun h _ => ⟨trivial, fun _ ho => (h.evolves ho).imp fun _ => .imp_right hevolves⟩)
    ls ls' trivial ho

/-- **An account in a run** keeps what is frozen. -/
theorem account_of_run (env : Env) (ls ls' : List Label) {id : String} {a : Account}
    (ha : (after env ls).db.accounts.find? id = some a) :
    ∃ a', (after env (ls ++ ls')).db.accounts.find? id = some a' ∧ a'.frozen = a.frozen :=
  row_of_run (R := fun a a' => a'.frozen = a.frozen) (·.accounts.find? id) (fun _ => True)
    (fun _ => rfl) (fun _ _ _ h h' => h'.trans h)
    (fun h _ => ⟨trivial, fun _ ha => (h.account ha).imp fun _ => .imp_right And.left⟩)
    ls ls' trivial ha

end System

/-! ## A sample account

One account, with the specifications and calls that the runs on fixed inputs
in the later modules are made of. -/

namespace Sample

/-- Digests that tell apart what the sample runs hash. -/
def digests : Env where
  contentHash
    | .instrument spec => "instrument:" ++ spec.instrument
    | .fees schedule => "fees:" ++ schedule.source
    | .deployment manifest => "deployment:" ++ manifest.deploymentId
    | .envelope payload => "envelope:" ++ payload.intent.intentId
    | .fill payload => "fill:" ++ payload.intentId ++ ":" ++ toString payload.quantity.num ++ "/"
        ++ toString payload.quantity.den ++ ":" ++ toString payload.price.num ++ "/"
        ++ toString payload.price.den
    | .fillKey venue accountId venueTradeId => venue ++ ":" ++ accountId ++ ":" ++ venueTradeId
    | .ledgerKey accountId kind sourceId => accountId ++ ":" ++ kind ++ ":" ++ sourceId
  manifestHmac _ manifest := "signed:" ++ manifest.deploymentId

def decimal (x : ℚ) (h : Fits x := by decide +kernel) : DecimalString := ⟨x, h⟩

def positive (x : ℚ) (h : Fits x ∧ 0 < x := by decide +kernel) : PositiveDecimal := ⟨x, h.1, h.2⟩

def nonNegative (x : ℚ) (h : Fits x ∧ 0 ≤ x := by decide +kernel) : NonNegativeDecimal :=
  ⟨x, h.1, h.2⟩

def seven : PositiveDecimal := positive 7

def ten : PositiveDecimal := positive 10

def nothing : NonNegativeDecimal := nonNegative 0

def probability (x : ℚ) (h : Fits x ∧ 0 ≤ x ∧ x ≤ 1 := by decide +kernel) : Probability :=
  ⟨x, h.1, h.2.1, h.2.2⟩

def instrument : InstrumentSpec where
  venue := "venue"
  instrument := "BTC-USDT"
  baseAsset := "BTC"
  quoteAsset := "USDT"
  settlementAsset := "USDT"
  priceIncrement := positive (1 / 100)
  quantityIncrement := positive (1 / 100)
  minimumQuantity := positive (1 / 100)
  minimumNotional := nonNegative 1
  contractMultiplier := positive 1
  instrumentType := .spot
  tradingSessions := ["24x7"]
  effectiveFromNs := 0
  effectiveToNs := none
  nativeIdentifiers := []
  source := "catalogue"
  valid_interval := by simp

/-- A tenth of a percent, in the quote asset. -/
def fees : FeeSchedule where
  venue := "venue"
  accountTier := "tier"
  makerRate := decimal (1 / 1000)
  takerRate := decimal (1 / 1000)
  feeBasis := .notional
  feeAsset := "USDT"
  fundingRules := []
  feeRules := []
  effectiveFromNs := 0
  effectiveToNs := none
  source := "schedule"
  sourceHash := "schedule"
  valid_interval := by simp

def budget (capital : PositiveDecimal) : RiskBudget where
  capital := capital
  currency := "USDT"
  maximumPositionFraction := probability 1
  maximumOrderFraction := probability 1
  plannedLossFraction := probability 1
  maximumDrawdownFraction := probability 1
  maximumDailyLossFraction := probability 1
  maximumLeverage := positive 1

def deployment (deploymentId : String) (mode : DeploymentMode) (capital : PositiveDecimal) :
    DeploymentManifest where
  deploymentId := deploymentId
  strategyHash := "strategy"
  provider := "provider"
  modelId := "model"
  promptHash := "prompt"
  toolsHash := "tools"
  riskPolicyHash := "policy"
  feeScheduleHashes := ["fees:schedule"]
  validationReportHash := "report"
  venue := "venue"
  accountId := "account"
  mode := mode
  riskBudget := budget capital
  validFromNs := 0
  validUntilNs := 10 ^ 18
  signature := "signed:" ++ deploymentId
  valid_interval := by decide

def market (asofNs : ℕ) : ExecutableMarketSnapshot where
  venue := "venue"
  instrument := "BTC-USDT"
  bid := ten
  ask := positive 11
  asofNs := asofNs
  bookValid := true
  instrumentSpecHash := "instrument:BTC-USDT"
  feeScheduleHash := "fees:schedule"
  valid_spread := by decide +kernel

def intent (intentId deploymentId : String) (side : Side) (quantity limitPrice : PositiveDecimal) :
    OrderIntent where
  intentId := intentId
  accountId := "account"
  deploymentId := deploymentId
  signalId := intentId
  legNo := 0
  venue := "venue"
  instrument := "BTC-USDT"
  side := side
  quantity := quantity
  limitPrice := limitPrice
  timeInForce := .gtc
  strategyHash := "strategy"
  policyHash := "policy"
  feeScheduleHash := "fees:schedule"
  instrumentSpecHash := "instrument:BTC-USDT"
  riskReservationId := intentId
  createdAtNs := 0
  validUntilNs := 10 ^ 17
  reduceOnly := false
  valid_interval := by decide

def oms : OMS where
  fundedGate := none
  dailyEntryFraction := 1 / 50
  fraction_fits := by decide +kernel
  fraction_pos := by decide +kernel
  fraction_le_one := by decide +kernel

def capital : PositiveDecimal := positive 10000

/-- Reserve, under a deployment, at a time. -/
def reserveCall (order : OrderIntent) (manifest : DeploymentManifest) (now : ℕ) : ReserveCall where
  self := oms
  tenant := "tenant"
  intent := order
  instrument := instrument
  fees := fees
  deployment := manifest
  market := market now
  nowNs := some now

/-- Submit to a paper adapter, at a time. -/
def submitCall (intentId : String) (now : ℕ) : SubmitCall where
  self := oms
  tenant := "tenant"
  intentId := intentId
  adapter := ⟨some "paper"⟩
  leaseToken := "lease"
  nowNs := some now

def cancelCall (intentId : String) : CancelCall := ⟨"tenant", intentId, "lease"⟩

/-- Open the account and claim its lease. -/
def opening (now : ℕ) : List System.Label :=
  [.call 0 (.createAccount "tenant" "account" 10000 "USDT"), .run 0 now,
    .call 0 (.claimAccount "tenant" "account" "worker" 300 none none "lease"), .run 0 now]

/-- A reservation, from the call to its end. -/
def reserving (order : OrderIntent) (manifest : DeploymentManifest) (now : ℕ) : List System.Label :=
  [.call 0 (.reserve (reserveCall order manifest now)), .run 0 now, .run 0 now]

/-- A submission, from the call to the adapter call. -/
def submitting (intentId : String) (now : ℕ) : List System.Label :=
  [.call 0 (.submit (submitCall intentId now)), .run 0 now, .run 0 now, .run 0 now, .run 0 now,
    .run 0 now, .run 0 now]

/-- The venue's identity of an order. -/
def identity (intentId : String) : OrderIdentity := ⟨"venue", "account", intentId, some intentId⟩

/-- A submission that the venue accepts. -/
def submitted (intentId : String) (now : ℕ) : List System.Label :=
  submitting intentId now ++ [.reply 0 (.submitted ⟨.accepted, identity intentId⟩), .run 0 now]

/-- A report of a trade at its price, with the scheduled fee. -/
def fill (venueTradeId : String) (quantity price fee : ℚ) (status : SettlementStatus) :
    FillReport where
  venueTradeId := venueTradeId
  quantity := quantity
  price := price
  fee := fee
  feeAsset := "USDT"
  baseAsset := "BTC"
  quoteAsset := "USDT"
  settlementStatus := status

/-- What the venue says of an order. -/
def snapshot (intentId : String) (status : OrderStatus) (settlementStatus : SettlementStatus)
    (quantity : PositiveDecimal) (filledQuantity : NonNegativeDecimal) (asofNs : ℕ)
    (h : filledQuantity.val ≤ quantity.val ∧ (status = .filled → filledQuantity.val = quantity.val)
      ∧ (status = .partiallyFilled → 0 < filledQuantity.val ∧ filledQuantity.val < quantity.val) := by
      decide +kernel) : OrderSnapshot where
  identity := identity intentId
  status := status
  settlementStatus := settlementStatus
  quantity := quantity
  filledQuantity := filledQuantity
  asofNs := asofNs
  filled_le := h.1
  filled_complete := h.2.1
  incomplete_of_partiallyFilled := h.2.2

/-- A query, from the call to its end. -/
def querying (intentId : String) (s : OrderSnapshot) (now : ℕ) : List System.Label :=
  [.call 0 (.query "tenant" intentId), .run 0 now, .reply 0 (.snapshot s), .run 0 now]

/-- The ingestion of a report. -/
def filling (intentId : String) (f : FillReport) (now : ℕ) : List System.Label :=
  [.call 0 (.applyFill "tenant" intentId f), .run 0 now]

end Sample

end Qt
