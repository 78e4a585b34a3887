import QuantTrading.Lifecycle

/-!
# The transactions of the code are commits

One spec for each transaction: a transaction that returned normally passed
its checks, and wrote what a `Commit` writes. `commit_of_exec` puts them
together. It holds of a transaction whose task still holds the rows it was
handed (`Transaction.Held`), which tasks of the system do.
-/

namespace Qt

open Except List Table Option
open SigDigits

/-! ## Statements and what they leave

A transaction that returns normally passed its checks, and its statements
wrote to rows that exist. -/

variable {env : Env} {time : ℕ} {db db' : DB}

variable {a : Account} {accountId tenant : String}

theorem accountOf_eq_ok : accountOf db tenant accountId = .ok a
      ↔ db.accounts.find? accountId = some a ∧ a.tenantId = tenant := by
  unfold accountOf
  cases db.accounts.find? accountId with
  | none => simp
  | some b =>
    by_cases h : b.tenantId = tenant
    · simp only [if_pos h, Except.ok.injEq, Option.some.injEq]
      exact ⟨fun he => ⟨he, he ▸ h⟩, And.left⟩
    · simp only [if_neg h, Option.some.injEq, reduceCtorEq, false_iff, not_and]
      exact fun he => he ▸ h

variable {intentId : String} {o : Order}

theorem orderOf_eq_ok : orderOf env db tenant intentId = .ok o
      ↔ db.orders.find? intentId = some o ∧ o.tenantId = tenant
        ∧ env.contentHash (.envelope o.payload) = o.sha256 := by
  unfold orderOf
  cases db.orders.find? intentId with
  | none => simp
  | some p =>
    by_cases h : p.tenantId = tenant
    · simp only [if_pos h, raiseIf_bind_eq_ok, not_not, Option.some.injEq, pure, Except.pure,
        Except.ok.injEq]
      constructor
      · rintro ⟨hs, rfl⟩
        exact ⟨rfl, h, hs⟩
      · rintro ⟨rfl, -, hs⟩
        exact ⟨hs, rfl⟩
    · simp only [if_neg h, Option.some.injEq, reduceCtorEq, false_iff, not_and]
      exact fun he ht => absurd (he ▸ ht) h

theorem setAccount_eq (ha : db.accounts.find? accountId = some a) (f : Account → Account)
    (hf : ∀ a, (f a).accountId = a.accountId) :
    db.setAccount accountId f hf = { db with accounts := db.accounts.replace (f a) } := by
  unfold DB.setAccount
  rw [update_eq_replace ha]

theorem setMode_eq (ha : db.accounts.find? accountId = some a) (mode : RiskMode) :
    db.setMode accountId mode
      = { db with accounts := db.accounts.replace { a with mode := mode } } :=
  setAccount_eq ha _ _

theorem setOrder_eq (ho : db.orders.find? intentId = some o) (f : Order → Order)
    (hf : ∀ o, (f o).intentId = o.intentId) :
    db.setOrder intentId f hf = { db with orders := db.orders.replace (f o) } := by
  unfold DB.setOrder
  rw [update_eq_replace ho]

theorem setAccountMoney_eq_ok (ha : db.accounts.find? accountId = some a) (f : Account → Account)
    (hf : ∀ a, (f a).accountId = a.accountId) : db.setAccountMoney accountId f hf = .ok db'
      ↔ (f a).Valid ∧ db' = { db with accounts := db.accounts.replace (f a) } := by
  unfold DB.setAccountMoney
  rw [raiseIf_bind_eq_ok, ha, setAccount_eq ha]
  simp only [mem_def, Option.some.injEq, exists_eq_left', not_not, pure, Except.pure,
    Except.ok.injEq]
  exact and_congr_right (fun _ => eq_comm)

theorem setOrderMoney_eq_ok (ho : db.orders.find? intentId = some o) (f : Order → Order)
    (hf : ∀ o, (f o).intentId = o.intentId) : db.setOrderMoney intentId f hf = .ok db'
      ↔ (f o).Valid ∧ db' = { db with orders := db.orders.replace (f o) } := by
  unfold DB.setOrderMoney
  rw [raiseIf_bind_eq_ok, ho, setOrder_eq ho]
  simp only [mem_def, Option.some.injEq, exists_eq_left', not_not, pure, Except.pure,
    Except.ok.injEq]
  exact and_congr_right (fun _ => eq_comm)

theorem Located.of_read (ho : orderOf env db tenant intentId = .ok o)
    (ha : accountOf db tenant o.accountId = .ok a) :
    Located db a o ∧ o.intentId = intentId ∧ o.tenantId = tenant := by
  obtain ⟨ho, htenant, _⟩ := orderOf_eq_ok.mp ho
  obtain ⟨ha, hta⟩ := accountOf_eq_ok.mp ha
  have hid : o.intentId = intentId := key_of_find? ho
  have haid : a.accountId = o.accountId := key_of_find? ha
  exact ⟨⟨haid.symm ▸ ha, hid.symm ▸ ho, haid, hta.trans htenant.symm⟩, hid, htenant⟩

section Located

variable {a b : Account} {o p : Order} {es : List Event}

theorem moved_self (located : Located db a o) : db.moved a o [] = db := by
  unfold DB.moved
  rw [replace_self located.account, replace_self located.order, append_nil]

theorem moved_event (tenant entity : String) (k : EventType) (now : ℕ) :
    (db.moved a o es).event tenant entity k now
      = db.moved a o (es ++ [⟨tenant, entity, k, now⟩]) := by
  unfold DB.moved DB.event
  rw [append_assoc]

theorem moved_account (located : Located db a o) (hid : b.accountId = a.accountId) :
    (db.moved b p es).accounts.find? a.accountId = some b := by
  rw [← hid]
  exact find?_replace_self (hid ▸ located.account)

theorem moved_order (located : Located db a o) (hid : p.intentId = o.intentId) :
    (db.moved b p es).orders.find? o.intentId = some p := by
  rw [← hid]
  exact find?_replace_self (hid ▸ located.order)

theorem moved_setAccount (located : Located db a o) (hid : b.accountId = a.accountId)
    (f : Account → Account) (hf : ∀ a, (f a).accountId = a.accountId) :
    (db.moved b p es).setAccount a.accountId f hf = db.moved (f b) p es := by
  unfold DB.moved DB.setAccount
  dsimp only
  rw [update_replace located.account hid]

theorem moved_setMode (located : Located db a o) (hid : b.accountId = a.accountId)
    (mode : RiskMode) :
    (db.moved b p es).setMode a.accountId mode = db.moved { b with mode := mode } p es :=
  moved_setAccount located hid _ _

theorem moved_setOrder (located : Located db a o) (hid : p.intentId = o.intentId)
    (f : Order → Order) (hf : ∀ o, (f o).intentId = o.intentId) :
    (db.moved b p es).setOrder o.intentId f hf = db.moved b (f p) es := by
  unfold DB.moved DB.setOrder
  dsimp only
  rw [update_replace located.order hid]

theorem moved_setAccountMoney_eq_ok (located : Located db a o) (hid : b.accountId = a.accountId)
    (f : Account → Account) (hf : ∀ a, (f a).accountId = a.accountId) :
    (db.moved b p es).setAccountMoney a.accountId f hf = .ok db'
      ↔ (f b).Valid ∧ db' = db.moved (f b) p es := by
  rw [setAccountMoney_eq_ok (moved_account located hid)]
  refine and_congr_right (fun _ => ?_)
  rw [← moved_setAccount located hid f hf, setAccount_eq (moved_account located hid)]

theorem moved_setOrderMoney_eq_ok (located : Located db a o) (hid : p.intentId = o.intentId)
    (f : Order → Order) (hf : ∀ o, (f o).intentId = o.intentId) :
    (db.moved b p es).setOrderMoney o.intentId f hf = .ok db'
      ↔ (f p).Valid ∧ db' = db.moved b (f p) es := by
  rw [setOrderMoney_eq_ok (moved_order located hid)]
  refine and_congr_right (fun _ => ?_)
  rw [← moved_setOrder located hid f hf, setOrder_eq (moved_order located hid)]

variable {now : ℕ} {status : OrderStatus}

/-- **A release** frees the account and ends the order. The row of the order
may have changed since it was read. -/
theorem moved_release_eq_ok (located : Located db a o) (hid : p.intentId = o.intentId) :
    release (db.moved a p es) a o status now = .ok db'
      ↔ (a.freed o).Valid ∧ (p.ended status now).Valid
        ∧ db' = db.moved (a.freed o) (p.ended status now) es := by
  unfold release
  rw [bind_eq_ok]
  constructor
  · rintro ⟨db₁, h₁, h₂⟩
    obtain ⟨hv, rfl⟩ := (moved_setAccountMoney_eq_ok located rfl _ _).mp h₁
    exact ⟨hv, (moved_setOrderMoney_eq_ok located hid _ _).mp h₂⟩
  · rintro ⟨hv, hv', rfl⟩
    refine ⟨_, (moved_setAccountMoney_eq_ok located rfl _ _).mpr ⟨hv, rfl⟩, ?_⟩
    exact (moved_setOrderMoney_eq_ok located hid _ _).mpr ⟨hv', rfl⟩

theorem release_eq_ok (located : Located db a o) :
    release db a o status now = .ok db' ↔ (a.freed o).Valid ∧ (o.ended status now).Valid
        ∧ db' = db.moved (a.freed o) (o.ended status now) [] := by
  have h : release (db.moved a o []) a o status now = .ok db' ↔ _ := moved_release_eq_ok located rfl
  rwa [moved_self located] at h

/-- **A settlement report** moves the settlement of its order, and halts the
account if it is broken. -/
theorem settlement_eq (located : Located db a o) (haid : b.accountId = a.accountId)
    (hoid : p.intentId = o.intentId) (incoming : SettlementStatus) (authoritative : Bool)
    (now : ℕ) :
    settlement (db.moved b p es) o.tenantId o incoming authoritative now
      = db.moved (b.settled (settlementAfter o.settlementStatus incoming authoritative) incoming)
          { p with
            settlementStatus :=
              if settlementAfter o.settlementStatus incoming authoritative ≠ o.settlementStatus then
                settlementAfter o.settlementStatus incoming authoritative
              else p.settlementStatus }
          (es ++ o.eventsOf (if settlementAfter o.settlementStatus incoming authoritative
            ≠ o.settlementStatus then [.settlementObserved] else []) now) := by
  unfold settlement
  generalize settlementAfter o.settlementStatus incoming authoritative = status
  have hset : (if status ≠ o.settlementStatus then
        ((db.moved b p es).setOrder o.intentId (fun o => { o with settlementStatus := status })).event
          o.tenantId o.intentId .settlementObserved now
      else db.moved b p es)
      = db.moved b { p with
          settlementStatus := if status ≠ o.settlementStatus then status else p.settlementStatus }
        (es ++ o.eventsOf (if status ≠ o.settlementStatus then [.settlementObserved] else []) now) := by
    by_cases hs : status ≠ o.settlementStatus
    · rw [if_pos hs, if_pos hs, if_pos hs, moved_setOrder located hoid, moved_event]
      rfl
    · rw [if_neg hs, if_neg hs, if_neg hs]
      exact congrArg _ (append_nil es).symm
  dsimp only
  rw [hset, ← located.accountId]
  unfold Account.settled
  by_cases hb : status = incoming ∧ incoming.broken = true
  · rw [if_pos hb, if_pos hb, moved_setMode located haid]
  · rw [if_neg hb, if_neg hb]

theorem settlement_self_eq (located : Located db a o) (incoming : SettlementStatus)
    (authoritative : Bool) (now : ℕ) : settlement db o.tenantId o incoming authoritative now
      = db.moved (a.settled (settlementAfter o.settlementStatus incoming authoritative) incoming)
          { o with settlementStatus := settlementAfter o.settlementStatus incoming authoritative }
          (o.eventsOf (if settlementAfter o.settlementStatus incoming authoritative
            ≠ o.settlementStatus then [.settlementObserved] else []) now) := by
  conv_lhs => rw [← moved_self located]
  rw [settlement_eq located rfl rfl incoming authoritative now, nil_append]
  generalize settlementAfter o.settlementStatus incoming authoritative = status
  by_cases hs : status ≠ o.settlementStatus
  · simp only [if_pos hs]
  · rw [not_not] at hs
    simp only [hs, ne_eq, not_true_eq_false, if_false]

end Located

/-! ## One spec for each transaction -/

/-- A row that was read is still the row of the order, but for the columns
that change. -/
def Holds (db : DB) (intentId : String) (row : Order) : Prop :=
  ∃ o, db.orders.find? intentId = some o ∧ o.frozen = row.frozen

/-- The rows a transaction was handed are still the rows of their orders. -/
def Transaction.Held (db : DB) : Transaction → Prop
  | .submitPresend c row _ | .submitResult c row _ => Holds db c.intentId row
  | .cancelResult c row _ => Holds db c.intentId row
  | _ => True

variable {es : List Event} {tx : Transaction}

theorem Aside.of_events (htx : tx.fill = none) (h : ∀ e ∈ es, e.eventType.neverSent = false) :
    Aside tx db { db with events := db.events ++ es } :=
  ⟨htx, rfl, rfl, rfl, rfl, ⟨es, rfl, h⟩, .inl rfl, .inl rfl, fun _ => ⟨rfl, rfl⟩⟩

theorem Aside.refl (htx : tx.fill = none) (db : DB) : Aside tx db db :=
  ⟨htx, rfl, rfl, rfl, rfl, ⟨[], (append_nil _).symm, by simp⟩, .inl rfl, .inl rfl,
    fun _ => ⟨rfl, rfl⟩⟩

/-- **One order is touched**: it moves along its lifecycle, or nothing but the
record changes. -/
def Touches (time : ℕ) (tx : Transaction) (db : DB) (a : Account) (o : Order) (db' : DB) : Prop :=
  (tx.fill = none ∧ ∃ es : List Event, (∀ e ∈ es, e.eventType.neverSent = false)
    ∧ db' = { db with events := db.events ++ es })
  ∨ ∃ a' o' ks, Move time tx a o a' o' ks ∧ (a.Valid → a'.Valid) ∧ (o.Valid → o'.Valid)
    ∧ db' = db.moved a' o' (o.eventsOf ks time)

theorem Touches.refl (time : ℕ) (htx : tx.fill = none) (db : DB) (a : Account) (o : Order) :
    Touches time tx db a o db := by
  refine .inl ⟨htx, [], by simp, ?_⟩
  rw [append_nil]

theorem Touches.event (htx : tx.fill = none) {k : EventType} (hk : k.neverSent = false)
    (tenant entity : String) (now : ℕ) : Touches time tx db a o (db.event tenant entity k now) := by
  refine .inl ⟨htx, [⟨tenant, entity, k, now⟩], ?_, rfl⟩
  simpa using hk

/-- The transactions that write `risk_state`. -/
def Transaction.marks : Transaction → Bool
  | .check _ _ _ _ _ | .stop _ _ _ _ _ => true
  | _ => false

theorem Touches.commit (located : Located db a o) (hid : tx.intentId = some o.intentId)
    (h : Touches time tx db a o db') :
    Commit env time db tx db' ∧ (tx.marks = false → db'.riskState = db.riskState) := by
  obtain ⟨htx, es, hes, rfl⟩ | ⟨a', o', ks, hm, hav, hov, rfl⟩ := h
  · exact ⟨.aside (Aside.of_events htx hes), fun _ => rfl⟩
  · exact ⟨.move located hid hm hav hov, fun _ => rfl⟩

/-- A commit that posts a fill, or could, writes no risk state. -/
theorem Commit.riskState_of_fill {fill : String × FillReport} (h : Commit env time db tx db')
    (htx : tx.fill = some fill) : db'.riskState = db.riskState := by
  cases h with
  | aside h =>
    have hnone := h.unfilled
    rw [htx] at hnone
    cases hnone
  | fund | reopen | reserve | move | fill => rfl

variable {c : SubmitCall}

variable {market : Option ExecutableMarketSnapshot}

/-- **The claim**: the intent is there, its deployment may act, the caller
holds the lease, and the order moves – into `SUBMITTING` exactly when the
claim succeeds. -/
theorem submitClaim_spec {claim : Claim} (h : submitClaim env c market time db = .ok (claim, db')) :
    ∃ a o, Located db a o ∧ o.intentId = c.intentId
      ∧ ensureActiveDeployment db o.tenantId o.accountId o.deploymentId = .ok ()
      ∧ Touches time (.submitClaim c market) db a o db'
      ∧ (claim = .returned o ∨ (claim = .claimed o ∧ o.status = .reserved ∧ db' = db.moved a
          { o with status := .submitting, updatedNs := nowOf c.nowNs time }
          (o.eventsOf [.orderSubmitting] time))) := by
  unfold submitClaim at h
  obtain ⟨o, ho, h⟩ := of_bind h
  obtain ⟨a, ha, h⟩ := of_bind h
  obtain ⟨_, hhead, h⟩ := of_bind h
  obtain ⟨_, _, h⟩ := of_bind h
  obtain ⟨located, hid, htenant⟩ := Located.of_read ho ha
  refine ⟨a, o, located, hid, htenant.symm ▸ hhead, ?_⟩
  rw [← htenant, ← hid] at h
  split at h
  · -- the order is not reserved any more
    cases h
    exact ⟨Touches.refl _ rfl _ _ _, .inl rfl⟩
  rename_i hs
  rw [not_not] at hs
  split at h
  · -- it expired
    obtain ⟨db₁, hrel, h⟩ := of_bind h
    obtain ⟨hv, hv', rfl⟩ := (release_eq_ok located).mp hrel
    cases h
    refine ⟨.inr ⟨_, _, _, .expire (nowOf c.nowNs time) hs, fun _ => hv, fun _ => hv', ?_⟩, .inl rfl⟩
    rw [moved_event]
    rfl
  rename_i hcurrent
  obtain ⟨_, _, h⟩ := of_bind h
  split at h
  · -- its deployment is a shadow
    rename_i hshadow
    obtain ⟨db₁, hrel, h⟩ := of_bind h
    obtain ⟨hv, hv', rfl⟩ := (release_eq_ok located).mp hrel
    obtain ⟨db₂, hdaily, h⟩ := of_bind h
    cases h
    unfold releaseDaily at hdaily
    rw [← located.accountId] at hdaily
    split at hdaily
    · rename_i hday
      obtain ⟨hv₂, rfl⟩ := (moved_setAccountMoney_eq_ok (b := a.freed o) located rfl _ _).mp hdaily
      refine ⟨.inr ⟨_, _, _, .shadow _ rfl hs hshadow (not_le.mp hcurrent) (if_pos hday).symm,
        fun _ => hv₂, fun _ => hv', ?_⟩, .inl rfl⟩
      rw [moved_event]
      rfl
    · rename_i hday
      cases hdaily
      refine ⟨.inr ⟨_, _, _, .shadow a.dailyNewRisk rfl hs hshadow (not_le.mp hcurrent)
        (if_neg hday).symm, fun _ => hv, fun _ => hv', ?_⟩, .inl rfl⟩
      rw [moved_event]
      rfl
  · -- it is claimed
    obtain ⟨_, _, h⟩ := of_bind h
    obtain ⟨_, h⟩ := of_raiseIf h
    cases h
    have hmoved : (db.setOrder o.intentId (fun o => if o.status = .reserved then
          { o with status := .submitting, updatedNs := nowOf c.nowNs time } else o)
          (by intro o; split_ifs <;> rfl)).event o.tenantId o.intentId .orderSubmitting time
        = db.moved a { o with status := .submitting, updatedNs := nowOf c.nowNs time }
          (o.eventsOf [.orderSubmitting] time) := by
      conv_lhs => rw [← moved_self located]
      rw [moved_setOrder located rfl, moved_event, if_pos hs]
      rfl
    exact ⟨.inr ⟨a, _, _, .claim (nowOf c.nowNs time) hs, id, fun hv => hv, hmoved⟩,
      .inr ⟨rfl, hs, hmoved⟩⟩

variable {mode : RiskMode} {reason : String}

variable {checked : Except Exc Unit} {side : Side}

theorem presendOutcome_severity (h : presendOutcome a side checked = some (reason, mode)) :
    a.mode.severity ≤ mode.severity := by
  unfold presendOutcome at h
  cases checked with
  | ok _ =>
    dsimp only at h
    split at h
    · cases h
      exact le_rfl
    · cases h
  | error e =>
    cases e with
    | staleMarketObservation m =>
      cases h
      exact le_rfl
    | riskBudgetExceeded m =>
      cases h
      cases a.mode <;> decide
    | _ =>
      cases h
      cases a.mode <;> decide

theorem presendOutcome_none (h : presendOutcome a side checked = none) :
    a.mode ≠ .halted ∧ (side = .buy → a.mode = .active) := by
  unfold presendOutcome at h
  cases checked with
  | ok _ =>
    dsimp only at h
    split at h
    · cases h
    · rename_i hb
      refine ⟨fun hh => hb (.inl hh), fun hside => ?_⟩
      by_contra hm
      exact hb (.inr ⟨hm, by rw [hside]; decide⟩)
  | error e => cases e <;> cases h

variable {row : Order}

theorem Located.of_held {current : Order} (hheld : Holds db intentId row)
    (ha : accountOf db tenant row.accountId = .ok a)
    (hcur : orderOf env db tenant intentId = .ok current) :
    Located db a current ∧ current.intentId = intentId ∧ current.tenantId = tenant
      ∧ current.frozen = row.frozen := by
  obtain ⟨o, ho, hfrozen⟩ := hheld
  obtain ⟨hfound, _, _⟩ := orderOf_eq_ok.mp hcur
  obtain rfl : o = current := some.inj (ho.symm.trans hfound)
  have hacc : o.accountId = row.accountId := (congrArg Order.accountId hfrozen :)
  rw [← hacc] at ha
  obtain ⟨located, hid, htenant⟩ := Located.of_read hcur ha
  exact ⟨located, hid, htenant, hfrozen⟩

/-- **The fence in front of the send** lets an order pass only while it is
`SUBMITTING`, its deployment may act and the mode permits its side. -/
theorem submitPresend_spec {fence : Fence} (hheld : Holds db c.intentId row)
    (h : submitPresend env c row market time db = .ok (fence, db')) :
    ∃ a o, Located db a o ∧ o.intentId = c.intentId ∧ o.frozen = row.frozen
      ∧ ensureActiveDeployment db o.tenantId o.accountId o.deploymentId = .ok ()
      ∧ Touches time (.submitPresend c row market) db a o db'
      ∧ (fence = .clear → db' = db ∧ o.status = .submitting ∧ a.mode ≠ .halted
          ∧ (o.payload.intent.side = .buy → a.mode = .active)) := by
  unfold submitPresend at h
  obtain ⟨a, ha, h⟩ := of_bind h
  obtain ⟨o, hcur, h⟩ := of_bind h
  obtain ⟨_, _, h⟩ := of_bind h
  obtain ⟨_, hhead, h⟩ := of_bind h
  obtain ⟨located, hid, htenant, hfrozen⟩ := Located.of_held hheld ha hcur
  have hacc : o.accountId = row.accountId := (congrArg Order.accountId hfrozen :)
  have hdep : o.deploymentId = row.deploymentId := (congrArg Order.deploymentId hfrozen :)
  have hpay : o.payload = row.payload := (congrArg Order.payload hfrozen :)
  rw [← htenant, ← hacc, ← hdep] at hhead
  refine ⟨a, o, located, hid, hfrozen, hhead, ?_⟩
  split at h
  · cases h
    exact ⟨Touches.refl _ rfl _ _ _, fun hf => by cases hf⟩
  rename_i hs
  rw [not_not] at hs
  split at h
  · rename_i hout
    cases h
    obtain ⟨hm, hb⟩ := presendOutcome_none hout
    exact ⟨Touches.refl _ rfl _ _ _, fun _ => ⟨rfl, hs, hm, fun hside => hb (hpay ▸ hside)⟩⟩
  · rename_i mode hout
    obtain ⟨db₁, hrel, h⟩ := of_bind h
    obtain ⟨hv, hv', rfl⟩ := (release_eq_ok located).mp hrel
    cases h
    refine ⟨.inr ⟨_, _, _, .abort mode (nowOf c.nowNs time) hs (presendOutcome_severity hout),
      fun _ => hv, fun _ => hv', ?_⟩, fun hf => by cases hf⟩
    rw [← hacc, ← located.accountId, moved_setMode (b := a.freed o) located rfl, moved_event,
      ← htenant, ← hid]
    rfl

theorem submitResult_spec {result : SubmitResult} (hheld : Holds db c.intentId row)
    (h : submitResult env c row result time db = .ok db') :
    ∃ a o, Located db a o ∧ o.intentId = c.intentId
      ∧ Touches time (.submitResult c row result) db a o db' := by
  unfold submitResult at h
  obtain ⟨a, ha, h⟩ := of_bind h
  obtain ⟨o, hcur, h⟩ := of_bind h
  obtain ⟨_, _, h⟩ := of_bind h
  obtain ⟨_, _, h⟩ := of_bind h
  obtain ⟨located, hid, htenant, hfrozen⟩ := Located.of_held hheld ha hcur
  have hacc : o.accountId = row.accountId := (congrArg Order.accountId hfrozen :)
  refine ⟨a, o, located, hid, .inr ?_⟩
  rw [← htenant, ← hid, ← hacc, ← located.accountId] at h
  -- the first statement records the venue's id of the order, if it came with one
  have hfirst : ∃ v, (if result.identity.venueOrderId ≠ none then
      db.setOrder o.intentId (fun o => { o with venueOrderId := result.identity.venueOrderId })
      else db) = db.moved a { o with venueOrderId := v } [] := by
    by_cases hv : result.identity.venueOrderId ≠ none
    · rw [if_pos hv]
      refine ⟨result.identity.venueOrderId, ?_⟩
      conv_lhs => rw [← moved_self located]
      exact moved_setOrder located rfl _ _
    · rw [if_neg hv]
      exact ⟨o.venueOrderId, (moved_self located).symm⟩
  obtain ⟨v, hfirst⟩ := hfirst
  dsimp only at h
  rw [hfirst] at h
  split at h
  · -- the order still waits for this answer
    rename_i hs
    split at h
    · rename_i hrej
      obtain ⟨db₁, hrel, h⟩ := of_bind h
      obtain ⟨hv, hv', rfl⟩ := (moved_release_eq_ok (p := { o with venueOrderId := v })
        located rfl).mp hrel
      rw [if_neg (by rw [hrej]; decide)] at h
      cases h
      refine ⟨_, _, _, .reject v hs, fun _ => hv, fun _ => hv', ?_⟩
      rw [moved_event]
      rfl
    · rw [ok_bind, moved_setOrder (p := { o with venueOrderId := v }) located rfl] at h
      split at h
      · rename_i hunknown
        rw [ok_bind, moved_setMode located rfl, moved_event] at h
        cases h
        refine ⟨_, _, _, .answer .halted .unknown result.identity.venueOrderId time ?_
          (.inr ⟨hs, .inr rfl⟩), id, id, ?_⟩
        · cases a.mode <;> decide
        · rw [hunknown]
          rfl
      · rw [ok_bind, moved_event] at h
        cases h
        refine ⟨_, _, _, .answer a.mode _ result.identity.venueOrderId time le_rfl
          (.inr ⟨hs, ?_⟩), id, id, rfl⟩
        split
        · exact .inl rfl
        · exact .inr rfl
  · -- a fill or an account event advanced it
    rw [ok_bind, moved_event] at h
    cases h
    exact ⟨_, _, _, .answer a.mode o.status v o.updatedNs le_rfl (.inl rfl), id, id, rfl⟩

theorem cancelClaim_spec {c : CancelCall} {claim : CancelClaim}
    (h : cancelClaim env c time db = .ok (claim, db')) :
    ∃ a o, Located db a o ∧ o.intentId = c.intentId ∧ Touches time (.cancelClaim c) db a o db'
      ∧ (∀ row, claim = .dispatched row → row = o) := by
  unfold cancelClaim at h
  obtain ⟨o, ho, h⟩ := of_bind h
  obtain ⟨a, ha, h⟩ := of_bind h
  obtain ⟨_, _, h⟩ := of_bind h
  obtain ⟨located, hid, htenant⟩ := Located.of_read ho ha
  rw [← htenant, ← hid] at h
  refine ⟨a, o, located, hid, ?_⟩
  split at h
  · cases h
    exact ⟨Touches.refl _ rfl _ _ _, fun _ hr => by cases hr⟩
  rename_i hterminal
  split at h
  · rename_i hs
    obtain ⟨db₁, hrel, h⟩ := of_bind h
    obtain ⟨hv, hv', rfl⟩ := (release_eq_ok located).mp hrel
    cases h
    refine ⟨.inr ⟨_, _, _, .cancelUnsent hs, fun _ => hv, fun _ => hv', ?_⟩,
      fun _ hr => by cases hr⟩
    rw [moved_event]
    rfl
  rename_i hs
  split at h
  · cases h
    exact ⟨Touches.refl _ rfl _ _ _, fun _ hr => by cases hr⟩
  rename_i huncertain
  cases h
  refine ⟨.inr ⟨a, _, _, .dispatchCancel (by simpa using hterminal) hs (by simpa using huncertain),
    id, fun hv => hv, ?_⟩, fun _ hr => by cases hr; rfl⟩
  conv_lhs => rw [← moved_self located]
  rw [moved_setOrder located rfl, moved_event]
  rfl

theorem cancelResult_spec {c : CancelCall} {result : CancelResult} (hheld : Holds db c.intentId row)
    (h : cancelResult env c row result time db = .ok db') :
    ∃ a o, Located db a o ∧ o.intentId = c.intentId
      ∧ Touches time (.cancelResult c row result) db a o db' := by
  unfold cancelResult at h
  obtain ⟨a, ha, h⟩ := of_bind h
  obtain ⟨o, hcur, h⟩ := of_bind h
  obtain ⟨_, _, h⟩ := of_bind h
  obtain ⟨located, hid, htenant, hfrozen⟩ := Located.of_held hheld ha hcur
  rw [← htenant, ← hid] at h
  refine ⟨a, o, located, hid, ?_⟩
  split at h
  · rename_i hs
    obtain ⟨db₁, hrel, h⟩ := of_bind h
    obtain ⟨hv, hv', rfl⟩ := (release_eq_ok located).mp hrel
    cases h
    refine .inr ⟨_, _, _, .confirmCancel hs.1 hs.2, fun _ => hv, fun _ => hv', ?_⟩
    rw [moved_event]
    rfl
  split at h
  · rename_i hs
    cases h
    refine .inr ⟨a, _, _, .rejectCancel hs.1 hs.2, id, fun hv => hv, ?_⟩
    conv_lhs => rw [← moved_self located]
    rw [moved_setOrder located rfl, moved_event]
    rfl
  · cases h
    exact Touches.event rfl rfl _ _ _

theorem uncertain_spec {expected : Option OrderStatus}
    (h : uncertain env tenant intentId expected time db = .ok db') :
    ∃ a o, Located db a o ∧ o.intentId = intentId
      ∧ Touches time (.uncertain tenant intentId expected) db a o db' := by
  unfold uncertain at h
  obtain ⟨o, ho, h⟩ := of_bind h
  obtain ⟨a, ha, h⟩ := of_bind h
  obtain ⟨located, hid, htenant⟩ := Located.of_read ho ha
  refine ⟨a, o, located, hid, ?_⟩
  split at h
  · cases h
    exact Touches.event rfl rfl _ _ _
  rename_i hs
  push Not at hs
  cases h
  refine .inr ⟨_, _, _, .doubt (by simpa using hs.1) (fun s hs' => ?_), id, fun hv => hv, ?_⟩
  · by_contra hne
    rw [not_or] at hne
    exact hne.2 (hs.2 s hs' hne.1)
  rw [← htenant, ← hid]
  conv_lhs => rw [← moved_self located]
  rw [moved_setOrder located rfl, moved_setMode located rfl, moved_event]
  rfl


theorem severity_settled_le (a : Account) (status incoming : SettlementStatus) :
    a.mode.severity ≤ (a.settled status incoming).mode.severity := by
  unfold Account.settled
  dsimp only
  split
  · cases a.mode <;> decide
  · exact le_rfl

theorem severity_halted (m : RiskMode) : m.severity ≤ RiskMode.halted.severity := by
  cases m <;> decide

variable {u : Unit}

theorem identityMatches_eq_ok {identity : OrderIdentity}
    (h : identityMatches row identity = .ok u) :
    identity.intentId = row.intentId ∧ identity.accountId = row.accountId
      ∧ identity.venue = row.venue
      ∧ (row.venueOrderId ≠ none → identity.venueOrderId = row.venueOrderId) := by
  have hn := raiseIf_eq_ok.mp h
  push Not at hn
  exact hn

variable {s : OrderSnapshot}

theorem snapshotAdmissible_spec (h : snapshotAdmissible o s time = .ok u) :
    s.identity.intentId = o.intentId ∧ o.status ≠ .reserved
      ∧ s.filledQuantity.val = o.filledQuantity
      ∧ (s.status ≠ .created ∧ s.status ≠ .reserved ∧ s.status ≠ .submitting ∧ s.status ≠ .unknown)
      ∧ (o.status.terminal = true → s.status = o.status) := by
  unfold snapshotAdmissible at h
  obtain ⟨_, hid, h⟩ := of_bind h
  obtain ⟨hsent, h⟩ := of_raiseIf h
  obtain ⟨hledger, h⟩ := of_raiseIf h
  obtain ⟨_, h⟩ := of_raiseIf h
  obtain ⟨hresolves, h⟩ := of_raiseIf h
  obtain ⟨hregress, h⟩ := of_raiseIf h
  push Not at hledger hresolves hregress
  exact ⟨(identityMatches_eq_ok hid).1, hsent, hledger.2, hresolves, hregress⟩

theorem recordSnapshot_eq (s : OrderSnapshot) (time : ℕ) {b : Account} {p : Order}
    (located : Located db a o) (haid : b.accountId = a.accountId) (hoid : p.intentId = o.intentId) :
    ∃ (mode : RiskMode) (ks : List EventType), b.mode.severity ≤ mode.severity
      ∧ (∀ k ∈ ks, k.neverSent = false)
      ∧ recordSnapshot o.tenantId o s time (db.moved b p []) = db.moved { b with mode := mode }
          { p with
            status := s.status, venueOrderId := s.identity.venueOrderId
            settlementStatus := settlementAfter o.settlementStatus s.settlementStatus true
            lastReconciledNs := s.asofNs, updatedNs := time } (o.eventsOf ks time) := by
  unfold recordSnapshot
  dsimp only
  rw [settlement_eq located haid hoid _ _ _, moved_setOrder located (by exact hoid), ← located.accountId,
    nil_append]
  generalize settlementAfter o.settlementStatus s.settlementStatus true = status
  refine ⟨if s.settlementStatus.broken = true then .halted
      else (b.settled status s.settlementStatus).mode,
    (if status ≠ o.settlementStatus then [.settlementObserved] else []) ++ [.orderReconciled],
    ?_, ?_, ?_⟩
  · split_ifs
    · exact severity_halted _
    · exact severity_settled_le _ _ _
  · split_ifs <;> simp [EventType.neverSent]
  · have hes : o.eventsOf (if status ≠ o.settlementStatus then [.settlementObserved] else []) time
          ++ [⟨o.tenantId, o.intentId, .orderReconciled, time⟩]
        = o.eventsOf ((if status ≠ o.settlementStatus then [.settlementObserved] else [])
          ++ [.orderReconciled]) time := by
      simp [Order.eventsOf]
    by_cases hb : s.settlementStatus.broken = true
    · rw [if_pos hb, if_pos hb,
        moved_setMode (b := b.settled status s.settlementStatus) located haid, moved_event, hes]
      rfl
    · rw [if_neg hb, if_neg hb, moved_event, hes]
      rfl

/-- An admissible snapshot of an order that is not terminal reports it open. -/
theorem reported_open {status : OrderStatus} (h : status.terminal = false)
    (hresolves : status ≠ .created ∧ status ≠ .reserved ∧ status ≠ .submitting ∧
      status ≠ .unknown) :
    status = .acknowledged ∨ status = .partiallyFilled ∨ status = .cancelPending := by
  cases status <;> simp_all [OrderStatus.terminal]

/-- A transaction that ingests a snapshot ingests no fill. -/
theorem fill_of_snapshot (htx : tx.snapshot = some s) : tx.fill = none := by
  cases tx <;> first | rfl | cases htx

theorem applySnapshot_spec (htx : tx.snapshot = some s)
    (h : applySnapshot env tenant s time db = .ok db') :
    ∃ a o, Located db a o ∧ o.intentId = s.identity.intentId ∧ Touches time tx db a o db' := by
  unfold applySnapshot at h
  obtain ⟨o, ho, h⟩ := of_bind h
  obtain ⟨_, _, h⟩ := of_bind h
  obtain ⟨a, ha, h⟩ := of_bind h
  obtain ⟨located, hid, htenant⟩ := Located.of_read ho ha
  refine ⟨a, o, located, hid, ?_⟩
  rw [← htenant] at h
  split at h
  · cases h
    exact Touches.event (fill_of_snapshot htx) rfl _ _ _
  rename_i hfresh
  obtain ⟨_, hadm, h⟩ := of_bind h
  obtain ⟨_, hsent, hfilled, hresolves, hregress⟩ := snapshotAdmissible_spec hadm
  split at h
  · cases h
    exact Touches.refl _ (fill_of_snapshot htx) _ _ _
  rename_i hpending
  rw [not_and] at hpending
  split at h
  · rename_i hterminal
    obtain ⟨db₁, hrel, h⟩ := of_bind h
    obtain ⟨hv, hv', rfl⟩ := (release_eq_ok located).mp hrel
    obtain ⟨mode, ks, hmode, hks, hrec⟩ := recordSnapshot_eq s time (b := a.freed o)
      (p := o.ended s.status time) located rfl rfl
    cases h
    exact .inr ⟨_, _, _, .finish mode ks hks htx hfresh hmode hsent hregress hfilled hterminal
      rfl, fun _ => hv, fun _ => hv', hrec⟩
  · rename_i hterminal
    obtain ⟨mode, ks, hmode, hks, hrec⟩ := recordSnapshot_eq s time located rfl rfl
    rw [moved_self located] at hrec
    cases h
    rw [Bool.not_eq_true] at hterminal
    have hunended : o.status.terminal = false := by
      by_contra ht
      rw [Bool.not_eq_false] at ht
      rw [hregress ht] at hterminal
      rw [hterminal] at ht
      cases ht
    refine .inr ⟨_, _, _, .observe mode ks hks htx hfresh hmode hunended hsent
      (fun hp => ?_) hfilled ?_ rfl, id, fun hv => hv, hrec⟩
    · exact absurd hterminal (hpending hp)
    · exact reported_open hterminal hresolves

variable {account : Account} {now : ℕ}

theorem journal_eq_ok {kind : JournalKind} {source : String} {entries : List (String × Bucket × ℚ)} :
    journal env db account kind source entries now = .ok db'
      ↔ Journalable env db account.accountId kind source entries
        ∧ db' = db.journaled env account.accountId kind source entries now := by
  unfold journal
  dsimp only
  rw [raiseIf_bind_eq_ok, raiseIf_bind_eq_ok, raiseIf_bind_eq_ok]
  push Not
  simp only [pure, Except.pure, Except.ok.injEq]
  exact ⟨fun ⟨hb, hu, hf, he⟩ => ⟨⟨hb, hu, hf⟩, he.symm⟩, fun ⟨⟨hb, hu, hf⟩, he⟩ =>
    ⟨hb, hu, hf, he.symm⟩⟩

def Order.fillEvents (o : Order) (f : FillReport) : List EventType :=
  (if settlementAfter o.settlementStatus f.settlementStatus false ≠ o.settlementStatus then
    [.settlementObserved] else []) ++ [.fillApplied]

/-- **A new trade can be posted**: the order was sent and has room for it, no
key is taken, and the rows stay valid. -/
structure Postable (env : Env) (db : DB) (a : Account) (o : Order) (f : FillReport) (time : ℕ) :
    Prop where
  sent : o.status ≠ .reserved
  unproven : ¬ provenNeverSent db o.tenantId o.intentId
  bound : o.filledQuantity + f.quantity ≤ o.quantity
  unfilled : ∀ g ∈ db.fills.rows, g.fillId ≠ (fillRow env o f time).fillId
  journal : Journalable env db o.accountId .trade (fillRow env o f time).fillId
    (fillEntries o.side f)
  order : (o.filling f time).Valid
  account : (a.filling o f).Valid

/-- The database before `apply_fill` decides whether the fill breaches. -/
def DB.filling (env : Env) (db : DB) (a : Account) (o : Order) (f : FillReport) (time : ℕ) : DB :=
  (db.posted env o f time).moved
    { a.settled (settlementAfter o.settlementStatus f.settlementStatus false) f.settlementStatus with
      reservedQuote := (a.filling o f).reservedQuote }
    (o.filling f time)
    (o.eventsOf (if settlementAfter o.settlementStatus f.settlementStatus false
      ≠ o.settlementStatus then [.settlementObserved] else []) time)

theorem Located.posted (located : Located db a o) (f : FillReport) (time : ℕ) :
    Located (db.posted env o f time) a o :=
  ⟨located.account, located.order, located.accountId, located.tenantId⟩

variable {f : FillReport}

/-- The last statements of `apply_fill` halt the account if the fill breaches. -/
theorem setMode_filling_eq (located : Located db a o) :
    (if fillBreach (db.filling env a o f time) o f (a.filling o f).reservedQuote
          ∨ f.settlementStatus.broken = true then
        (db.filling env a o f time).setMode a.accountId .halted
      else db.filling env a o f time).event o.tenantId o.intentId .fillApplied time
      = db.filled env a o f (o.fillEvents f) time := by
  have hes : o.eventsOf (if settlementAfter o.settlementStatus f.settlementStatus false
          ≠ o.settlementStatus then [.settlementObserved] else []) time
        ++ [⟨o.tenantId, o.intentId, .fillApplied, time⟩] = o.eventsOf (o.fillEvents f) time := by
    simp [Order.eventsOf, Order.fillEvents]
  unfold DB.filled fillMode DB.filling
  dsimp only
  by_cases hb : fillBreach { db.posted env o f time with
      orders := (db.posted env o f time).orders.replace (o.filling f time) } o f
      (a.filling o f).reservedQuote ∨ f.settlementStatus.broken = true
  · rw [if_pos hb]
    conv_lhs => arg 1; rw [if_pos (by exact hb)]
    rw [moved_setMode (located.posted f time) (by rfl), moved_event, hes]
    rfl
  · rw [if_neg hb]
    conv_lhs => arg 1; rw [if_neg (by exact hb)]
    rw [moved_event, hes]
    have hmode : (a.settled (settlementAfter o.settlementStatus f.settlementStatus false)
        f.settlementStatus).mode = a.mode := if_neg (fun h => hb (.inr h.2))
    rw [← hmode]
    rfl

variable {r : Fill × DB}

theorem postFill_eq_ok (located : Located db a o) :
    postFill env o.tenantId f a o time db = .ok r ↔ Postable env db a o f time
      ∧ r = (fillRow env o f time, db.filled env a o f (o.fillEvents f) time) := by
  have located₀ : Located (db.posted env o f time) a o := located.posted f time
  have hdb₀ : DB.journaled env { db with fills := db.fills.insertOnce (fillRow env o f time) }
      a.accountId .trade (fillRow env o f time).fillId (fillEntries o.side f) time
      = db.posted env o f time := by
    rw [located.accountId]
    rfl
  unfold postFill
  dsimp only
  rw [raiseIf_bind_eq_ok, raiseIf_bind_eq_ok, raiseIf_bind_eq_ok, raiseIf_bind_eq_ok, bind_eq_ok]
  constructor
  · rintro ⟨hsent, hproven, hbound, hunfilled, db₀, hjournal, h⟩
    push Not at hunfilled
    obtain ⟨hpostable, rfl⟩ := journal_eq_ok.mp hjournal
    rw [hdb₀, ← located.accountId, settlement_self_eq located₀] at h
    obtain ⟨db₁, horder, h⟩ := of_bind h
    obtain ⟨hov, rfl⟩ := (moved_setOrderMoney_eq_ok located₀ (by rfl) _ _).mp horder
    obtain ⟨db₂, haccount, h⟩ := of_bind h
    obtain ⟨hav, rfl⟩ := (moved_setAccountMoney_eq_ok (b := a.settled _ _) located₀ rfl _ _).mp
      haccount
    rw [located.accountId] at hpostable
    refine ⟨⟨hsent, hproven, not_lt.mp hbound, hunfilled,
      ⟨hpostable.balanced, hpostable.unposted, hpostable.fits⟩, hov, hav⟩, ?_⟩
    rw [← setMode_filling_eq located]
    exact (ok.inj h).symm
  · rintro ⟨⟨hsent, hproven, hbound, hunfilled, hjournal, hov, hav⟩, rfl⟩
    refine ⟨hsent, hproven, not_lt.mpr hbound, ?_, _, journal_eq_ok.mpr ⟨?_, rfl⟩, ?_⟩
    · push Not
      exact hunfilled
    · rw [located.accountId]
      exact ⟨hjournal.balanced, hjournal.unposted, hjournal.fits⟩
    · rw [hdb₀, ← located.accountId, settlement_self_eq located₀]
      refine bind_eq_ok.mpr ⟨_, (moved_setOrderMoney_eq_ok located₀ (by rfl) _ _).mpr ⟨hov, rfl⟩, ?_⟩
      refine bind_eq_ok.mpr ⟨_, (moved_setAccountMoney_eq_ok (b := a.settled _ _) located₀ rfl _
        _).mpr ⟨hav, rfl⟩, ?_⟩
      rw [← setMode_filling_eq located]
      rfl

/-- **A report is applicable**: it is well formed, and of an order that is
there, in the assets of the order. -/
structure Applicable (env : Env) (db : DB) (tenant intentId : String) (f : FillReport) (a : Account)
    (o : Order) : Prop where
  check : checkFill f = .ok ()
  order : orderOf env db tenant intentId = .ok o
  account : accountOf db tenant o.accountId = .ok a
  assets : f.baseAsset = o.payload.instrument.baseAsset
    ∧ f.quoteAsset = o.payload.instrument.quoteAsset
  gross : checkAmount (fillGross o.side f.quantity f.price) true = .ok ()

/-- **`apply_fill`, case by case**: a known trade is matched by its digest and
moves the settlement, a new one is posted. -/
theorem applyFill_eq_ok : applyFill env tenant intentId f time db = .ok r
      ↔ ∃ a o, Applicable env db tenant intentId f a o
        ∧ ((∃ g, db.fills.find? (o.venue, o.accountId, f.venueTradeId) = some g
            ∧ g.sha256 = env.contentHash (.fill (fillPayload o f))
            ∧ r = (g, settlement db tenant o f.settlementStatus false time))
          ∨ (db.fills.find? (o.venue, o.accountId, f.venueTradeId) = none
            ∧ postFill env tenant f a o time db = .ok r)) := by
  unfold applyFill
  rw [bind_eq_ok]
  constructor
  · rintro ⟨_, hcheck, h⟩
    obtain ⟨o, ho, h⟩ := of_bind h
    obtain ⟨a, ha, h⟩ := of_bind h
    obtain ⟨hassets, h⟩ := of_raiseIf h
    obtain ⟨_, hgross, h⟩ := of_bind h
    rw [not_or, not_not, not_not] at hassets
    refine ⟨a, o, ⟨hcheck, ho, ha, hassets, hgross⟩, ?_⟩
    split at h
    · rename_i g hg
      obtain ⟨hdigest, h⟩ := of_raiseIf h
      exact .inl ⟨g, hg, not_not.mp hdigest, (ok.inj h).symm⟩
    · rename_i hnew
      exact .inr ⟨hnew, h⟩
  · rintro ⟨a, o, ⟨hcheck, ho, ha, hassets, hgross⟩, h⟩
    refine ⟨(), hcheck, bind_eq_ok.mpr ⟨o, ho, bind_eq_ok.mpr ⟨a, ha, ?_⟩⟩⟩
    refine raiseIf_bind_eq_ok.mpr ⟨?_, bind_eq_ok.mpr ⟨(), hgross, ?_⟩⟩
    · rwa [not_or, not_not, not_not]
    · obtain ⟨g, hg, hdigest, rfl⟩ | ⟨hnew, h⟩ := h
      · rw [hg]
        exact raiseIf_bind_eq_ok.mpr ⟨not_not.mpr hdigest, rfl⟩
      · rw [hnew]
        exact h

theorem applyFill_commit {fill : Fill} (htxid : tx.intentId = some intentId)
    (htx : tx.fill = some (intentId, f))
    (h : applyFill env tenant intentId f time db = .ok (fill, db')) :
    Commit env time db tx db' := by
  obtain ⟨a, o, ⟨hcheck, ho, ha, hassets, hgross⟩, h⟩ := applyFill_eq_ok.mp h
  obtain ⟨located, hid, htenant⟩ := Located.of_read ho ha
  rw [← hid] at htx htxid
  rw [← htenant] at h
  obtain ⟨g, _, _, hr⟩ | ⟨hnew, h⟩ := h
  · -- the trade is known
    cases hr
    rw [settlement_self_eq located]
    refine .move located htxid (.settle (f := f) _ ?_ htx rfl) id (fun hv => hv)
    split_ifs <;> simp [EventType.neverSent]
  · obtain ⟨hp, hr⟩ := (postFill_eq_ok located).mp h
    cases hr
    refine .fill located htx hcheck hassets hgross hnew hp.unfilled hp.sent hp.unproven hp.bound
      hp.journal ?_ hp.account hp.order
    unfold Order.fillEvents
    split_ifs <;> simp [EventType.neverSent]

/-- **What a reservation does**: the order is there already, or the reservation is taken. -/
theorem reserveLocked_spec {c : ReserveCall} (h : reserveLocked env c time db = .ok (row, db')) :
    ensureActiveDeployment db c.tenant c.intent.accountId c.intent.deploymentId = .ok ()
      ∧ (db' = db ∧ db.orders.find? c.intent.intentId = some row
        ∨ ∃ a, reserveAdmissible env c db a (nowOf c.nowNs time) = .ok ()
          ∧ Commit env time db (.reserve c) db' ∧ db'.riskState = db.riskState) := by
  unfold reserveLocked at h
  obtain ⟨_, _, h⟩ := of_bind h
  obtain ⟨_, _, h⟩ := of_bind h
  obtain ⟨_, _, h⟩ := of_bind h
  obtain ⟨a, ha, h⟩ := of_bind h
  obtain ⟨_, hhead, h⟩ := of_bind h
  obtain ⟨ha, htenant⟩ := accountOf_eq_ok.mp ha
  refine ⟨hhead, ?_⟩
  split at h
  · -- the intent is reserved already
    obtain ⟨_, h⟩ := of_raiseIf h
    cases h
    exact .inl ⟨rfl, ‹_›⟩
  rename_i hfresh
  obtain ⟨_, hadmissible, h⟩ := of_bind h
  obtain ⟨_, hsizable, h⟩ := of_bind h
  -- the sizing of a buy moves the daily counter, that of a sale nothing
  have haid : a.accountId = c.intent.accountId := key_of_find? ha
  have hsized : ∃ a₁ : Account, a₁.accountId = c.intent.accountId
      ∧ { a₁ with reservedQuote := a.reservedQuote + c.reservedQuote }
        = a.reserving c (nowOf c.nowNs time)
      ∧ (c.intent.side = .buy → ∃ db₀, reserveBuy c db a (nowOf c.nowNs time) = .ok db₀)
      ∧ (c.intent.side = .sell → ∃ db₀, reserveSell c db = .ok db₀)
      ∧ insertReservation env c a (nowOf c.nowNs time) time
        { db with accounts := db.accounts.replace a₁ } = .ok (row, db') := by
    split at h
    · rename_i hbuy
      obtain ⟨db₁, hbuy', h⟩ := of_bind h
      have hb := hbuy'
      unfold reserveBuy at hb
      obtain ⟨_, hb⟩ := of_raiseIf hb
      obtain ⟨_, hb⟩ := of_raiseIf hb
      obtain ⟨_, hb⟩ := of_raiseIf hb
      obtain ⟨_, rfl⟩ := (setAccountMoney_eq_ok ha _ _).mp hb
      refine ⟨{ a with
        dailyNewRisk := ctxAdd (dailyRisk a (nowOf c.nowNs time)) c.gross
        dayUtc := dayOf (nowOf c.nowNs time) }, haid, ?_, fun _ => ⟨_, hbuy'⟩, fun hs => ?_, h⟩
      · simp [Account.reserving, hbuy]
      · rw [hbuy] at hs
        cases hs
    · rename_i hbuy
      obtain ⟨db₁, hsell, h⟩ := of_bind h
      have hs := hsell
      unfold reserveSell at hs
      obtain ⟨_, hs⟩ := of_raiseIf hs
      cases hs
      refine ⟨a, haid, ?_, fun hb => absurd hb hbuy, fun _ => ⟨_, hsell⟩, ?_⟩
      · simp [Account.reserving, hbuy]
      · rw [replace_self (haid.symm ▸ ha)]
        exact h
  obtain ⟨a₁, haid₁, ha₁, hbuy, hsell, h⟩ := hsized
  unfold insertReservation at h
  obtain ⟨db₂, hmoney, h⟩ := of_bind h
  have ha₁' : ({ db with accounts := db.accounts.replace a₁ } : DB).accounts.find?
      c.intent.accountId = some a₁ := by
    rw [← haid₁]
    exact find?_replace_self (haid₁ ▸ ha)
  obtain ⟨hav, rfl⟩ := (setAccountMoney_eq_ok ha₁' _ _).mp hmoney
  obtain ⟨db₃, hinsert, h⟩ := of_bind h
  unfold insertOrderOnce at hinsert
  obtain ⟨hov, hinsert⟩ := of_raiseIf hinsert
  rw [not_not] at hov
  obtain ⟨hident, h⟩ := of_raiseIf h
  split at hinsert
  · -- a row with another key took the reservation: nothing was inserted
    cases hinsert
    refine absurd ?_ hident
    intro o ho
    rw [show db.orders.find? c.intent.intentId = none from hfresh] at ho
    cases ho
  · rename_i hdistinct
    cases hinsert
    cases h
    push Not at hdistinct
    have hcommit : Commit env time db (.reserve c) _ := .reserve rfl ha htenant hfresh hhead
      hadmissible hsizable hbuy hsell hdistinct (ha₁ ▸ hav) hov
    refine .inr ⟨a, hadmissible, ?_, rfl⟩
    rw [replace_replace _ (by exact rfl), ha₁]
    exact hcommit

theorem reserve_commit {c : ReserveCall} (h : reserveLocked env c time db = .ok (row, db')) :
    Commit env time db (.reserve c) db' ∧ db'.riskState = db.riskState := by
  obtain ⟨_, ⟨rfl, _⟩ | ⟨_, _, hcommit⟩⟩ := reserveLocked_spec h
  · exact ⟨.aside (Aside.refl rfl _), rfl⟩
  · exact hcommit

/-! ## Off the trading path -/

theorem checkAmount_eq_ok {value : ℚ} {positive : Bool} (h : checkAmount value positive = .ok u) :
    0 ≤ value ∧ (positive = true → 0 < value) ∧ Fits value := by
  unfold checkAmount at h
  obtain ⟨hsign, h⟩ := of_raiseIf h
  have hfits := raiseIf_eq_ok.mp h
  push Not at hsign hfits
  exact ⟨hsign.1, hsign.2, hfits⟩

theorem createAccount_commit {quoteAsset : String} {capital : ℚ}
    (h : createAccount env tenant accountId capital quoteAsset time db = .ok db') :
    Commit env time db (.createAccount tenant accountId capital quoteAsset) db'
      ∧ db'.riskState = db.riskState := by
  unfold createAccount at h
  obtain ⟨_, _, h⟩ := of_bind h
  obtain ⟨_, _, h⟩ := of_bind h
  obtain ⟨_, _, h⟩ := of_bind h
  obtain ⟨_, hamount, h⟩ := of_bind h
  obtain ⟨account, haccount, h⟩ := of_bind h
  obtain ⟨hident, h⟩ := of_raiseIf h
  obtain ⟨_, hpos, hfits⟩ := checkAmount_eq_ok hamount
  obtain ⟨haccount, htenant⟩ := accountOf_eq_ok.mp haccount
  push Not at hident
  split at h
  · rename_i hfunded
    cases h
    exact ⟨.reopen (hpos rfl) hfits hfunded, rfl⟩
  · rename_i hunfunded
    obtain ⟨db₀, hpost, h⟩ := of_bind h
    obtain ⟨hjournal, rfl⟩ := journal_eq_ok.mp hpost
    have haid : account.accountId = accountId := key_of_find? haccount
    rw [haid] at hjournal h
    cases h
    push Not at hunfunded
    exact ⟨.fund (hpos rfl) hfits (fun t ht hk => hunfunded t ht hk.1 hk.2) haccount htenant
      hident.1 hident.2 ⟨hjournal.balanced, hjournal.unposted, hjournal.fits⟩, rfl⟩

/-- A statement on an account that no order reads, and its event. -/
theorem Aside.of_account (a b : Account) (riskState : Table RiskState.key) (htx : tx.fill = none)
    (ha : db.accounts.find? accountId = some a) (hbooks : b.books = a.books)
    (hmode : tx.setsMode ≠ some a.accountId → a.mode.severity ≤ b.mode.severity)
    (hes : ∀ e ∈ es, e.eventType.neverSent = false) (hrisk : Recorded db riskState) :
    Aside tx db { db with
      accounts := db.accounts.replace b, events := db.events ++ es, riskState := riskState } := by
  have haid : a.accountId = accountId := key_of_find? ha
  exact ⟨htx, rfl, rfl, rfl, rfl, ⟨es, rfl, hes⟩, .inr ⟨a, b, haid.symm ▸ ha, rfl, hbooks, hmode⟩,
    hrisk, fun _ => ⟨rfl, rfl⟩⟩

theorem claimAccount_aside {owner : String} {ttlSeconds : ℕ} {leaseToken proof : Option String}
    {fresh : String}
    (h : claimAccount tenant accountId owner ttlSeconds leaseToken proof fresh time db = .ok db') :
    Aside (.claimAccount tenant accountId owner ttlSeconds leaseToken proof fresh) db db'
      ∧ db'.riskState = db.riskState := by
  unfold claimAccount at h
  obtain ⟨_, _, h⟩ := of_bind h
  obtain ⟨_, h⟩ := of_raiseIf h
  obtain ⟨a, ha, h⟩ := of_bind h
  obtain ⟨_, h⟩ := of_raiseIf h
  obtain ⟨_, h⟩ := of_raiseIf h
  obtain ⟨ha, _⟩ := accountOf_eq_ok.mp ha
  dsimp only at h
  rw [setAccount_eq ha] at h
  cases h
  refine ⟨Aside.of_account a _ db.riskState rfl ha rfl (fun _ => le_rfl) ?_ (.inl rfl), rfl⟩
  simp [EventType.neverSent]

variable {nowNs : Option ℕ}

theorem markReconciled_aside (h : markReconciled tenant accountId nowNs time db = .ok db') :
    Aside (.markReconciled tenant accountId nowNs) db db' ∧ db'.riskState = db.riskState := by
  unfold markReconciled at h
  obtain ⟨a, ha, h⟩ := of_bind h
  obtain ⟨_, h⟩ := of_raiseIf h
  obtain ⟨_, h⟩ := of_raiseIf h
  obtain ⟨ha, _⟩ := accountOf_eq_ok.mp ha
  rw [setAccount_eq ha] at h
  cases h
  refine ⟨Aside.of_account a _ db.riskState rfl ha rfl (fun _ => le_rfl) ?_ (.inl rfl), rfl⟩
  simp [EventType.neverSent]

variable {deploymentId : Option String}

/-- What `set_mode` writes. -/
theorem setMode_eq_ok (h : setMode tenant accountId mode reason deploymentId time db = .ok db') :
    ∃ a, db.accounts.find? accountId = some a
      ∧ (mode = .active → ¬ hasUncertain db accountId ∧ ¬ hasUnsettled db accountId)
      ∧ db' = { db with
        accounts := db.accounts.replace { a with mode := mode }
        events := db.events ++ [⟨tenant, accountId, .riskModeChanged, time⟩] } := by
  unfold setMode at h
  obtain ⟨_, h⟩ := of_raiseIf h
  obtain ⟨a, ha, h⟩ := of_bind h
  obtain ⟨ha, _⟩ := accountOf_eq_ok.mp ha
  obtain ⟨_, _, h⟩ := of_bind h
  obtain ⟨_, h⟩ := of_raiseIf h
  obtain ⟨huncertain, h⟩ := of_raiseIf h
  obtain ⟨hunsettled, h⟩ := of_raiseIf h
  cases h
  refine ⟨a, ha, fun hm => ⟨fun hu => huncertain ⟨hm, hu⟩, fun hu => hunsettled ⟨hm, hu⟩⟩, ?_⟩
  rw [setMode_eq ha]
  rfl

theorem setMode_aside (h : setMode tenant accountId mode reason deploymentId time db = .ok db') :
    Aside (.setMode tenant accountId mode reason deploymentId) db db'
      ∧ db'.riskState = db.riskState := by
  obtain ⟨a, ha, _, rfl⟩ := setMode_eq_ok h
  have haid : a.accountId = accountId := key_of_find? ha
  refine ⟨Aside.of_account a _ db.riskState rfl ha rfl (fun hm => ?_) ?_ (.inl rfl), rfl⟩
  · exact absurd (congrArg some haid.symm) hm
  · simp [EventType.neverSent]

variable {deployment : DeploymentManifest}

variable {instrument : InstrumentSpec}

/-- A report never asks for a mode that forbids less than the one in force. -/
theorem severity_evaluateLocked {market : ExecutableMarketSnapshot} : account.mode.severity
      ≤ (RiskGuard.evaluateLocked env db account deployment instrument market now).mode.severity := by
  unfold RiskGuard.evaluateLocked
  dsimp only
  split_ifs
  · exact le_rfl
  · exact severity_halted _
  · exact severity_halted _
  · show account.mode.severity ≤ (RiskGuard.breachMode account _).severity
    unfold RiskGuard.breachMode
    split_ifs with h₁ h₂ h₃
    · exact severity_halted _
    · exact severity_halted _
    · revert h₁
      cases account.mode <;> decide
    · exact le_rfl

/-- An `UPDATE` of `risk_state` for an account of its tenant keeps what was
latched. -/
theorem Recorded.of_update (ha : db.accounts.find? accountId = some a) {latched : List String}
    (hlatched : ∀ old, db.riskState.find? accountId = some old → old.tenantId = a.tenantId →
      old.latchedReasons ⊆ latched) :
    Recorded db (RiskGuard.setLatched db accountId latched).riskState := by
  cases hold : db.riskState.find? accountId with
  | none =>
    exact .inl (update_of_find?_none hold (fun s => { s with latchedReasons := latched })
      (fun _ => rfl))
  | some old =>
    have hid : old.accountId = accountId := key_of_find? hold
    subst hid
    refine .inr ⟨a, { old with latchedReasons := latched }, ha, ?_, .inr ⟨old, hold, rfl⟩, hlatched⟩
    refine (update_eq_replace hold (fun s => { s with latchedReasons := latched })
      (fun _ => rfl)).trans ?_
    have hkept : db.riskState.insertOnce { old with latchedReasons := latched } = db.riskState :=
      insertOnce_of_find? hold
    rw [hkept]

theorem subset_latch (old : RiskState) (reasons : List String) :
    old.latchedReasons ⊆ RiskGuard.latch (some old) reasons := by
  intro r hr
  unfold RiskGuard.latch fromkeys
  rw [mem_eraseDups]
  exact mem_append_left _ hr

theorem stateOf_eq_some {old : RiskState} (hold : db.riskState.find? a.accountId = some old)
    (htenant : old.tenantId = a.tenantId) : RiskGuard.stateOf db a = some old := by
  unfold RiskGuard.stateOf
  rw [hold, filter_some, if_pos (by simpa using htenant)]

/-- A report is recorded in `risk_state`. -/
theorem recordReport_eq (ha : db.accounts.find? deployment.accountId = some a)
    (htenant : a.tenantId = tenant) (market : ExecutableMarketSnapshot) (report : RiskGuard.Report)
    (hstate : report.state = RiskGuard.stateOf db a) (now : ℕ) :
    ∃ riskState, RiskGuard.recordReport db tenant deployment market report
        (RiskGuard.latch report.state report.reasons) now = { db with riskState := riskState }
      ∧ Recorded db riskState := by
  have haid : a.accountId = deployment.accountId := key_of_find? ha
  have hlatched : ∀ old, db.riskState.find? deployment.accountId = some old →
      old.tenantId = a.tenantId →
      old.latchedReasons ⊆ RiskGuard.latch report.state report.reasons := by
    intro old hold ht
    rw [hstate, stateOf_eq_some (haid.symm ▸ hold) ht]
    exact subset_latch old _
  unfold RiskGuard.recordReport
  cases hmark : report.mark with
  | some mark =>
    refine ⟨_, rfl, .inr ⟨a, RiskGuard.markedState tenant deployment market mark
      (RiskGuard.latch report.state report.reasons) now, ha, ?_, .inl htenant.symm, hlatched⟩⟩
    set values := RiskGuard.markedState tenant deployment market mark
      (RiskGuard.latch report.state report.reasons) now with hvalues
    obtain ⟨s, hs⟩ : ∃ s, (db.riskState.insertOnce values).find? deployment.accountId = some s := by
      rw [find?_insertOnce]
      by_cases hnone : db.riskState.find? (RiskState.key values) = none
      · exact ⟨values, if_pos ⟨hnone, rfl⟩⟩
      · obtain ⟨s, hs⟩ := ne_none_iff_exists'.mp hnone
        exact ⟨s, by rw [if_neg (fun h => hnone h.1)]; exact hs⟩
    have hsid : s.accountId = deployment.accountId := key_of_find? hs
    refine (update_eq_replace hs (fun r => { values with accountId := r.accountId })
      (fun _ => rfl)).trans ?_
    rw [hsid]
    rfl
  | none =>
    dsimp only
    cases hs : report.state with
    | none => exact ⟨db.riskState, rfl, .inl rfl⟩
    | some old =>
      refine ⟨_, rfl, ?_⟩
      rw [hstate] at hs
      unfold RiskGuard.stateOf at hs
      obtain ⟨hold, _⟩ := filter_eq_some_iff.mp hs
      refine Recorded.of_update ha (fun old' hold' ht => ?_)
      have hsub := hlatched old' hold' ht
      rw [haid] at hold
      obtain rfl : old' = old := some.inj (hold'.symm.trans hold)
      rwa [hstate, stateOf_eq_some (haid.symm ▸ hold) ht] at hsub

/-- A report carries the risk state it was computed from. -/
theorem state_evaluateLocked (env : Env) (db : DB) (a : Account) (deployment : DeploymentManifest)
    (instrument : InstrumentSpec) (market : ExecutableMarketSnapshot) (now : ℕ) :
    (RiskGuard.evaluateLocked env db a deployment instrument market now).state
      = RiskGuard.stateOf db a := by
  unfold RiskGuard.evaluateLocked
  dsimp only
  split_ifs <;> rfl

theorem check_aside {market : ExecutableMarketSnapshot} {report : RiskGuard.Report}
    (h : RiskGuard.check env tenant deployment instrument market nowNs time db = .ok (report, db'))
    : Aside (.check tenant deployment instrument market nowNs) db db' := by
  unfold RiskGuard.check at h
  obtain ⟨a, ha, h⟩ := of_bind h
  obtain ⟨_, _, h⟩ := of_bind h
  obtain ⟨ha, htenant⟩ := accountOf_eq_ok.mp ha
  have hsev : a.mode.severity ≤ (RiskGuard.evaluateLocked env db a deployment instrument market
    (nowOf nowNs time)).mode.severity := severity_evaluateLocked
  dsimp only at h
  split at h
  · cases h
    exact Aside.refl rfl _
  obtain ⟨riskState, hrecord, hrecorded⟩ := recordReport_eq ha htenant market _
    (state_evaluateLocked env db a deployment instrument market (nowOf nowNs time))
    (nowOf nowNs time)
  rw [hrecord] at h
  have ha' : ({ db with riskState := riskState } : DB).accounts.find? deployment.accountId
    = some a := ha
  split at h
  · cases h
    rw [setMode_eq ha']
    refine Aside.of_account a _ riskState rfl ha rfl (fun _ => hsev) ?_ hrecorded
    simp [EventType.neverSent]
  · cases h
    exact ⟨rfl, rfl, rfl, rfl, rfl, ⟨[], (append_nil _).symm, by simp⟩, .inl rfl, hrecorded,
      fun _ => ⟨rfl, rfl⟩⟩

theorem stop_aside {reasons : List String}
    (h : RiskGuard.stop tenant accountId reasons mode deploymentId time db = .ok db') :
    Aside (.stop tenant accountId reasons mode deploymentId) db db' := by
  unfold RiskGuard.stop at h
  obtain ⟨hvalid, h⟩ := of_raiseIf h
  obtain ⟨a, ha, h⟩ := of_bind h
  obtain ⟨ha, _⟩ := accountOf_eq_ok.mp ha
  split at h
  · cases h
    exact Aside.refl rfl _
  dsimp only at h
  rw [setMode_eq ha] at h
  cases h
  refine Aside.of_account a { a with mode := if a.mode = .halted then .halted else mode } _ rfl ha
    rfl (fun _ => ?_) ?_ ?_
  · split
    · exact severity_halted _
    · rename_i hm
      push Not at hvalid
      cases mode with
      | halted => exact severity_halted _
      | reduceOnly =>
        revert hm
        dsimp only
        cases a.mode <;> decide
      | active => exact absurd (hvalid.1 (by decide)) (by decide)
      | emergencyExit => exact absurd (hvalid.1 (by decide)) (by decide)
  · simp [EventType.neverSent]
  · refine Recorded.of_update ha (fun old hold _ => ?_)
    rw [hold]
    exact subset_latch old reasons

/-- A statement on tables the trading path does not write. -/
theorem Aside.of_heads {deploymentHeads : Table DeploymentHead.key}
    {deployments : Table DeploymentArtifact.key} (htx : tx.fill = none)
    (hmoves : tx.movesHead = true) (hes : ∀ e ∈ es, e.eventType.neverSent = false) :
    Aside tx db { db with
      events := db.events ++ es, deploymentHeads := deploymentHeads, deployments := deployments } :=
  ⟨htx, rfl, rfl, rfl, rfl, ⟨es, rfl, hes⟩, .inl rfl, .inl rfl, fun h => by
    rw [hmoves] at h
    cases h⟩

variable {self : DeploymentRegistry}

theorem activate_aside {manifest : DeploymentManifest} {row : DeploymentArtifact}
    (h : DeploymentRegistry.activate env self tenant manifest reason time db = .ok (row, db')) :
    Aside (.activate self tenant manifest reason) db db' ∧ db'.riskState = db.riskState := by
  unfold DeploymentRegistry.activate at h
  obtain ⟨_, _, h⟩ := of_bind h
  obtain ⟨_, _, h⟩ := of_bind h
  dsimp only at h
  split at h
  · cases h
  · split at h
    · obtain ⟨_, h⟩ := of_raiseIf h
      obtain ⟨_, h⟩ := of_raiseIf h
      cases h
      have haside : Aside (.activate self tenant manifest reason) db { db with
          events := db.events ++ []
          deploymentHeads := db.deploymentHeads.insertOnce
            (DeploymentRegistry.uninitialized tenant manifest.accountId time) } :=
        Aside.of_heads rfl rfl (by simp)
      exact ⟨append_nil db.events ▸ haside, rfl⟩
    · obtain ⟨_, _, h⟩ := of_bind h
      obtain ⟨_, _, h⟩ := of_bind h
      cases h
      refine ⟨Aside.of_heads rfl rfl ?_, rfl⟩
      simp [EventType.neverSent]

theorem deactivate_aside {deploymentId : String}
    (h : DeploymentRegistry.deactivate env self tenant deploymentId reason time db = .ok db') :
    Aside (.deactivate self tenant deploymentId reason) db db' ∧ db'.riskState = db.riskState := by
  unfold DeploymentRegistry.deactivate at h
  obtain ⟨_, _, h⟩ := of_bind h
  obtain ⟨_, _, h⟩ := of_bind h
  obtain ⟨_, _, h⟩ := of_bind h
  split at h
  · cases h
  · obtain ⟨_, h⟩ := of_raiseIf h
    split at h
    · cases h
      exact ⟨Aside.refl rfl _, rfl⟩
    · obtain ⟨_, _, h⟩ := of_bind h
      cases h
      refine ⟨Aside.of_heads rfl rfl ?_, rfl⟩
      simp [EventType.neverSent]

/-! ## Every transaction -/

/-- **What a transaction does**: one of the things a `Commit` does, and only a check and a stop
write the risk state. -/
theorem exec_spec {outcome : Outcome} (hheld : tx.Held db)
    (h : tx.exec env time db = .ok (outcome, db')) :
    Commit env time db tx db' ∧ (tx.marks = false → db'.riskState = db.riskState) := by
  cases tx with
  | readOrder tenant intentId =>
    obtain ⟨_, _, h⟩ := of_bind h
    cases h
    exact ⟨.aside (Aside.refl rfl _), fun _ => rfl⟩
  | readMarket tenant row =>
    cases h
    exact ⟨.aside (Aside.refl rfl _), fun _ => rfl⟩
  | readAccount tenant accountId =>
    obtain ⟨_, _, h⟩ := of_bind h
    cases h
    exact ⟨.aside (Aside.refl rfl _), fun _ => rfl⟩
  | createAccount tenant accountId capital quoteAsset =>
    obtain ⟨_, h', h⟩ := of_bind h
    cases h
    exact (createAccount_commit h').imp_right fun hrisk _ => hrisk
  | claimAccount tenant accountId owner ttlSeconds leaseToken proof fresh =>
    obtain ⟨_, h', h⟩ := of_bind h
    cases h
    exact (claimAccount_aside h').imp .aside fun hrisk _ => hrisk
  | check tenant deployment instrument market nowNs =>
    obtain ⟨_, h', h⟩ := of_bind h
    cases h
    exact ⟨.aside (check_aside h'), nofun⟩
  | stop tenant accountId reasons mode deploymentId =>
    obtain ⟨_, h', h⟩ := of_bind h
    cases h
    exact ⟨.aside (stop_aside h'), nofun⟩
  | reserve c =>
    obtain ⟨_, h', h⟩ := of_bind h
    cases h
    exact (reserve_commit h').imp_right fun hrisk _ => hrisk
  | submitClaim c market =>
    obtain ⟨_, h', h⟩ := of_bind h
    cases h
    obtain ⟨a, o, located, hid, _, ht, _⟩ := submitClaim_spec h'
    exact ht.commit located (congrArg some hid.symm)
  | submitPresend c row market =>
    obtain ⟨_, h', h⟩ := of_bind h
    cases h
    obtain ⟨a, o, located, hid, _, _, ht, _⟩ := submitPresend_spec hheld h'
    exact ht.commit located (congrArg some hid.symm)
  | submitResult c row result =>
    obtain ⟨_, h', h⟩ := of_bind h
    cases h
    obtain ⟨a, o, located, hid, ht⟩ := submitResult_spec hheld h'
    exact ht.commit located (congrArg some hid.symm)
  | uncertain tenant intentId expected =>
    obtain ⟨_, h', h⟩ := of_bind h
    cases h
    obtain ⟨a, o, located, hid, ht⟩ := uncertain_spec h'
    exact ht.commit located (congrArg some hid.symm)
  | cancelClaim c =>
    obtain ⟨_, h', h⟩ := of_bind h
    cases h
    obtain ⟨a, o, located, hid, ht, _⟩ := cancelClaim_spec h'
    exact ht.commit located (congrArg some hid.symm)
  | cancelResult c row result =>
    obtain ⟨_, h', h⟩ := of_bind h
    cases h
    obtain ⟨a, o, located, hid, ht⟩ := cancelResult_spec hheld h'
    exact ht.commit located (congrArg some hid.symm)
  | applyFill tenant intentId f =>
    obtain ⟨_, h', h⟩ := of_bind h
    cases h
    have hcommit : Commit env time db (.applyFill tenant intentId f) _ :=
      applyFill_commit rfl rfl h'
    exact ⟨hcommit, fun _ => hcommit.riskState_of_fill rfl⟩
  | reconcileFill tenant accountId venue item =>
    obtain ⟨_, h', h⟩ := of_bind h
    cases h
    unfold reconcileFill at h'
    cases hfields : item.fields with
    | none =>
      rw [hfields] at h'
      cases h'
    | some f =>
      rw [hfields] at h'
      obtain ⟨_, _, h'⟩ := of_bind h'
      obtain ⟨_, h'⟩ := of_raiseIf h'
      have htx : item.fields.map (fun f => (item.intentId, f)) = some (item.intentId, f) := by
        rw [hfields]
        rfl
      have hcommit : Commit env time db (.reconcileFill tenant accountId venue item) _ :=
        applyFill_commit rfl htx h'
      exact ⟨hcommit, fun _ => hcommit.riskState_of_fill htx⟩
  | applySnapshot tenant s =>
    obtain ⟨_, h', h⟩ := of_bind h
    cases h
    have htx : (Transaction.applySnapshot tenant s).snapshot = some s := rfl
    obtain ⟨a, o, located, hid, ht⟩ := applySnapshot_spec htx h'
    exact ht.commit located (congrArg some hid.symm)
  | reconcileSnapshot tenant accountId venue s =>
    obtain ⟨_, h', h⟩ := of_bind h
    cases h
    obtain ⟨_, h'⟩ := of_raiseIf h'
    have htx : (Transaction.reconcileSnapshot tenant accountId venue s).snapshot = some s := rfl
    obtain ⟨a, o, located, hid, ht⟩ := applySnapshot_spec htx h'
    exact ht.commit located (congrArg some hid.symm)
  | markReconciled tenant accountId nowNs =>
    obtain ⟨_, h', h⟩ := of_bind h
    cases h
    exact (markReconciled_aside h').imp .aside fun hrisk _ => hrisk
  | setMode tenant accountId mode reason deploymentId =>
    obtain ⟨_, h', h⟩ := of_bind h
    cases h
    exact (setMode_aside h').imp .aside fun hrisk _ => hrisk
  | activate self tenant manifest reason =>
    obtain ⟨_, h', h⟩ := of_bind h
    cases h
    exact (activate_aside h').imp .aside fun hrisk _ => hrisk
  | deactivate self tenant deploymentId reason =>
    obtain ⟨_, h', h⟩ := of_bind h
    cases h
    exact (deactivate_aside h').imp .aside fun hrisk _ => hrisk
  | publishHealth tenant name payload =>
    cases h
    exact ⟨.aside ⟨rfl, rfl, rfl, rfl, rfl, ⟨[], (append_nil _).symm, by simp⟩, .inl rfl,
      .inl rfl, fun _ => ⟨rfl, rfl⟩⟩, fun _ => rfl⟩

/-- **The transactions of the code are commits.** A transaction that returns
normally, on rows that are still those of their orders, does one of the things
a `Commit` does. -/
theorem commit_of_exec {outcome : Outcome} (hheld : tx.Held db)
    (h : tx.exec env time db = .ok (outcome, db')) : Commit env time db tx db' :=
  (exec_spec hheld h).1

end Qt
