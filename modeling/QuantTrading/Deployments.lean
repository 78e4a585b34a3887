import QuantTrading.RiskLatch
import QuantTrading.Sends

/-!
# The head of an account

At most one deployment may act for an account: the one that the `ACTIVE` head
of the account names. A head moves while the account has nothing outstanding,
so what a deployment reserved is over when another takes its place
(`DB.Headed`). Activation, deactivation, reservation and submission are
transactions of their own. What all of them do to the heads is a `HeadStep`,
and what any number of them leaves of a head is `HeadsSince`.

A limit is never raised, and the capital is one of the limits. That it stays
what it was is asked of the account, where there is one.
-/

namespace Qt

open Except List Table Option
open Machine

variable {env : Env} {time : ℕ} {db db' : DB} {tx : Transaction}

/-! ## Who may act -/

/-- **A head lets a deployment act.** -/
def DeploymentHead.names (h : DeploymentHead) (deploymentId : String) : Prop :=
  h.status = .active ∧ h.deploymentId = some deploymentId
deriving Decidable

variable {accountId deploymentId : String} {tenant : String}

theorem ensureActiveDeployment_eq_ok {u : Unit} :
    ensureActiveDeployment db tenant accountId deploymentId = .ok u
      ↔ ∀ h, db.deploymentHeads.find? (tenant, accountId) = some h → h.names deploymentId := by
  unfold ensureActiveDeployment
  cases db.deploymentHeads.find? (tenant, accountId) with
  | none => simp
  | some h =>
    refine raiseIf_eq_ok.trans ?_
    simp [DeploymentHead.names]

/-- **A budget is within another one**: no limit is higher, and the currency
is the same. -/
structure RiskBudget.Within (new old : RiskBudget) : Prop where
  currency : new.currency = old.currency
  capital : new.capital.val ≤ old.capital.val
  maximumPositionFraction : new.maximumPositionFraction.val ≤ old.maximumPositionFraction.val
  maximumOrderFraction : new.maximumOrderFraction.val ≤ old.maximumOrderFraction.val
  plannedLossFraction : new.plannedLossFraction.val ≤ old.plannedLossFraction.val
  maximumDrawdownFraction : new.maximumDrawdownFraction.val ≤ old.maximumDrawdownFraction.val
  maximumDailyLossFraction : new.maximumDailyLossFraction.val ≤ old.maximumDailyLossFraction.val
  maximumLeverage : new.maximumLeverage.val ≤ old.maximumLeverage.val

theorem RiskBudget.Within.refl (b : RiskBudget) : b.Within b := by
  constructor <;> rfl

theorem RiskBudget.Within.trans {a b c : RiskBudget} (h : a.Within b) (h' : b.Within c) :
    a.Within c where
  currency := h.currency.trans h'.currency
  capital := h.capital.trans h'.capital
  maximumPositionFraction := h.maximumPositionFraction.trans h'.maximumPositionFraction
  maximumOrderFraction := h.maximumOrderFraction.trans h'.maximumOrderFraction
  plannedLossFraction := h.plannedLossFraction.trans h'.plannedLossFraction
  maximumDrawdownFraction := h.maximumDrawdownFraction.trans h'.maximumDrawdownFraction
  maximumDailyLossFraction := h.maximumDailyLossFraction.trans h'.maximumDailyLossFraction
  maximumLeverage := h.maximumLeverage.trans h'.maximumLeverage

/-- What `_no_escalation` lets pass. -/
theorem within_of_not_escalates {old new : RiskBudget}
    (h : ¬ DeploymentRegistry.escalates old new) : new.Within old := by
  unfold DeploymentRegistry.escalates DeploymentRegistry.limits at h
  push Not at h
  obtain ⟨hcurrency, hlimits⟩ := h
  simp only [zip_cons_cons, zip_nil_right, forall_mem_cons] at hlimits
  obtain ⟨hcapital, hposition, horder, hplanned, hdrawdown, hdaily, hleverage, -⟩ := hlimits
  exact ⟨hcurrency.symm, hcapital, hposition, horder, hplanned, hdrawdown, hdaily, hleverage⟩

/-! ## What a transaction does to the heads -/

/-- The orders of an account have ended. -/
def DB.Ended (db : DB) (accountId : String) : Prop :=
  ∀ o ∈ db.orders.rows, o.accountId = accountId → o.status.terminal = true

/-- **What a transaction does to the heads**: nothing, or it moves one, of an
account whose orders have ended. -/
inductive HeadStep (db db' : DB) : Prop
  | kept (heads : db'.deploymentHeads = db.deploymentHeads)
      (deployments : db'.deployments = db.deployments) : HeadStep db db'
  /-- A manifest that was not there before takes the head. -/
  | activated {tenant : String} {manifest : DeploymentManifest} {now : ℕ} {head head' : DeploymentHead}
      {row : DeploymentArtifact}
      (hhead : db.deploymentHeads.find? (tenant, manifest.accountId) = some head
        ∨ db.deploymentHeads.find? (tenant, manifest.accountId) = none ∧ head.deploymentId = none)
      (fresh : db.deployments.find? (tenant, manifest.deploymentId) = none)
      (previous : ∀ id, head.deploymentId = some id → ∃ old,
        db.deployments.find? (tenant, id) = some old
          ∧ manifest.riskBudget.Within old.payload.riskBudget)
      (ended : db.Ended manifest.accountId)
      (account : ∀ a, db.accounts.find? manifest.accountId = some a → a.tenantId = tenant
        ∧ a.capital = manifest.riskBudget.capital ∧ a.quoteAsset = manifest.riskBudget.currency)
      (hactive : head'.names manifest.deploymentId)
      (hgeneration : head'.generation = head.generation + 1)
      (hrow : row.payload = manifest)
      (heads : ∀ k, db'.deploymentHeads.find? k
        = if k = (tenant, manifest.accountId) then some head' else db.deploymentHeads.find? k)
      (deployments : ∀ k, db'.deployments.find? k
        = if k = (tenant, manifest.deploymentId) then some row else db.deployments.find? k) :
      HeadStep db db'
  /-- The deployment that a head names loses it. -/
  | deactivated {tenant accountId : String} {head head' : DeploymentHead}
      (hhead : db.deploymentHeads.find? (tenant, accountId) = some head)
      (ended : db.Ended accountId)
      (hinactive : head'.status = .inactive) (hid : head'.deploymentId = head.deploymentId)
      (hgeneration : head'.generation = head.generation + 1)
      (heads : ∀ k, db'.deploymentHeads.find? k
        = if k = (tenant, accountId) then some head' else db.deploymentHeads.find? k)
      (deployments : db'.deployments = db.deployments) : HeadStep db db'

/-- `_flat` accepts an account without open orders, or none. -/
theorem flat_eq_ok {account : Option Account}
    (h : DeploymentRegistry.flat db tenant accountId = .ok account) :
    account = db.accounts.find? accountId ∧ (∀ a, account = some a → a.tenantId = tenant
      ∧ ¬ DeploymentRegistry.outstanding db accountId) := by
  unfold DeploymentRegistry.flat at h
  cases hfind : db.accounts.find? accountId with
  | none =>
    rw [hfind] at h
    cases h
    exact ⟨rfl, fun _ h => nomatch h⟩
  | some a =>
    rw [hfind] at h
    obtain ⟨htenant, h⟩ := of_raiseIf h
    obtain ⟨hout, h⟩ := of_raiseIf h
    obtain ⟨_, h⟩ := of_raiseIf h
    obtain ⟨_, h⟩ := of_raiseIf h
    cases h
    refine ⟨rfl, fun b hb => ?_⟩
    cases hb
    exact ⟨not_not.mp htenant, fun hopen => hout (.inl hopen)⟩

theorem ended_of_flat (hb : db.Balanced) {account : Option Account}
    (h : DeploymentRegistry.flat db tenant accountId = .ok account) : db.Ended accountId := by
  intro o ho haccount
  obtain ⟨hfind, hflat⟩ := flat_eq_ok h
  obtain ⟨a, ha, -⟩ := hb.owned o ho
  rw [haccount] at ha
  have hout := (hflat a (hfind.trans ha)).2
  by_contra hopen
  exact hout ⟨o, ho, haccount, .inl (Bool.not_eq_true _ ▸ hopen)⟩

variable {head : DeploymentHead}

theorem find?_setHead {f : DeploymentHead → DeploymentHead} (hf : ∀ h, (f h).key = h.key)
    (hfind : db.deploymentHeads.find? (tenant, accountId) = some head) (k : String × String) :
    (DeploymentRegistry.setHead db tenant accountId f hf).deploymentHeads.find? k
      = if k = (tenant, accountId) then some (f head) else db.deploymentHeads.find? k := by
  refine (Table.find?_update db.deploymentHeads (tenant, accountId) f hf k).trans ?_
  rw [hfind, map_some]

variable {manifest : DeploymentManifest}

/-- The last checks of an activation: the account is flat, and its money is
that of the manifest. -/
theorem account_of_admissible {u : Unit} (h : (do
      let account ← DeploymentRegistry.flat db tenant manifest.accountId
      raiseIf (account = none ∧ manifest.mode ≠ DeploymentMode.paper)
        (.conflict "shadow_or_funded_deployment_requires_existing_reconciled_account")
      raiseIf (∃ a ∈ account, a.capital ≠ manifest.riskBudget.capital
          ∨ a.quoteAsset ≠ manifest.riskBudget.currency)
        (.conflict "deployment_capital_or_currency_requires_separate_account_review")) = .ok u) :
    (∃ account, DeploymentRegistry.flat db tenant manifest.accountId = .ok account)
    ∧ ∀ a, db.accounts.find? manifest.accountId = some a → a.tenantId = tenant
      ∧ a.capital = manifest.riskBudget.capital ∧ a.quoteAsset = manifest.riskBudget.currency := by
  obtain ⟨account, hflat, h⟩ := of_bind h
  obtain ⟨_, h⟩ := of_raiseIf h
  have hcapital := raiseIf_eq_ok.mp h
  push Not at hcapital
  obtain ⟨hfind, hflat'⟩ := flat_eq_ok hflat
  refine ⟨⟨account, hflat⟩, fun a ha => ?_⟩
  have hsome : account = some a := hfind.trans ha
  exact ⟨(hflat' a hsome).1, hcapital a hsome⟩

variable {row : DeploymentArtifact}

theorem stored_eq_ok (h : DeploymentRegistry.stored env db tenant deploymentId = .ok row) :
    db.deployments.find? (tenant, deploymentId) = some row := by
  unfold DeploymentRegistry.stored at h
  cases hrow : db.deployments.find? (tenant, deploymentId) with
  | none =>
    rw [hrow] at h
    cases h
  | some row' =>
    rw [hrow] at h
    obtain ⟨_, h⟩ := of_raiseIf h
    exact congrArg some (ok.inj h)

variable {self : DeploymentRegistry}

theorem activationAdmissible_eq_ok {u : Unit}
    (h : DeploymentRegistry.activationAdmissible env self tenant manifest head time db = .ok u) :
    (∀ id, head.deploymentId = some id → ∃ old, db.deployments.find? (tenant, id) = some old
      ∧ manifest.riskBudget.Within old.payload.riskBudget)
    ∧ (∃ account, DeploymentRegistry.flat db tenant manifest.accountId = .ok account)
    ∧ ∀ a, db.accounts.find? manifest.accountId = some a → a.tenantId = tenant
      ∧ a.capital = manifest.riskBudget.capital ∧ a.quoteAsset = manifest.riskBudget.currency := by
  unfold DeploymentRegistry.activationAdmissible at h
  dsimp only at h
  cases hid : head.deploymentId with
  | none =>
    rw [hid] at h
    exact ⟨(fun _ he => nomatch he), account_of_admissible h⟩
  | some id =>
    rw [hid] at h
    obtain ⟨old, hold, h⟩ := of_bind h
    obtain ⟨_, _, h⟩ := of_bind h
    obtain ⟨_, hescalates, h⟩ := of_bind h
    refine ⟨fun id' he => ?_, account_of_admissible h⟩
    cases he
    exact ⟨old, stored_eq_ok hold, within_of_not_escalates (raiseIf_eq_ok.mp hescalates)⟩

variable {reason : String}

/-- **The activation of a manifest**, on the heads. -/
theorem headStep_of_activate (hb : db.Balanced)
    (h : DeploymentRegistry.activate env self tenant manifest reason time db = .ok (row, db')) :
    HeadStep db db' := by
  unfold DeploymentRegistry.activate at h
  obtain ⟨_, _, h⟩ := of_bind h
  obtain ⟨_, _, h⟩ := of_bind h
  dsimp only at h
  generalize hheads : db.deploymentHeads.insertOnce
    (DeploymentRegistry.uninitialized tenant manifest.accountId time) = heads at h
  have hother : ∀ k, k ≠ (tenant, manifest.accountId) →
      heads.find? k = db.deploymentHeads.find? k := by
    intro k hk
    rw [← hheads, find?_insertOnce, if_neg]
    exact fun he => hk he.2.symm
  split at h
  · cases h
  next head hhead =>
    have hbefore : db.deploymentHeads.find? (tenant, manifest.accountId) = some head
        ∨ db.deploymentHeads.find? (tenant, manifest.accountId) = none
          ∧ head = DeploymentRegistry.uninitialized tenant manifest.accountId time := by
      cases hfind : db.deploymentHeads.find? (tenant, manifest.accountId) with
      | some head₀ =>
        rw [← hheads, find?_insertOnce_of_find? hfind] at hhead
        exact .inl hhead
      | none =>
        have hnew := find?_insertOnce_self
          (r := DeploymentRegistry.uninitialized tenant manifest.accountId time) hfind
        rw [hheads] at hnew
        exact .inr ⟨rfl, some.inj (hhead.symm.trans hnew)⟩
    split at h
    next existing hexisting =>
      obtain ⟨_, h⟩ := of_raiseIf h
      obtain ⟨hcurrent, h⟩ := of_raiseIf h
      cases h
      push Not at hcurrent
      refine .kept ?_ rfl
      obtain hold | ⟨-, rfl⟩ := hbefore
      · show heads = _
        rw [← hheads]
        exact insertOnce_of_find? hold
      · cases hcurrent.1
    next hfresh =>
      obtain ⟨_, hadmissible, h⟩ := of_bind h
      obtain ⟨_, _, h⟩ := of_bind h
      cases h
      obtain ⟨hprevious, ⟨account, hflat⟩, haccount⟩ := activationAdmissible_eq_ok hadmissible
      let head' : DeploymentHead := { head with
        deploymentId := some manifest.deploymentId, status := .active
        generation := head.generation + 1, updatedNs := time, reason := reason }
      refine @HeadStep.activated _ _ _ _ time head head'
        (DeploymentRegistry.artifact env tenant manifest time)
        (hbefore.imp_right fun ⟨hnone, he⟩ => ⟨hnone, he ▸ rfl⟩) hfresh hprevious
        (ended_of_flat hb hflat) haccount ⟨rfl, rfl⟩ rfl rfl (fun k => ?_) (fun k => ?_)
      · refine Eq.trans (find?_setHead (by intro _; rfl) hhead k) ?_
        by_cases hk : k = (tenant, manifest.accountId)
        · rw [if_pos hk, if_pos hk]
        · rw [if_neg hk, if_neg hk]
          exact hother k hk
      · refine (find?_insertOnce db.deployments
          (DeploymentRegistry.artifact env tenant manifest time) k).trans ?_
        by_cases hk : k = (tenant, manifest.deploymentId)
        · rw [if_pos ⟨hfresh, hk.symm⟩, if_pos hk]
        · rw [if_neg (fun he => hk he.2.symm), if_neg hk]

/-- **The deactivation of a head.** -/
theorem headStep_of_deactivate (hb : db.Balanced)
    (h : DeploymentRegistry.deactivate env self tenant deploymentId reason time db = .ok db') :
    HeadStep db db' := by
  unfold DeploymentRegistry.deactivate at h
  obtain ⟨_, _, h⟩ := of_bind h
  obtain ⟨row, _, h⟩ := of_bind h
  obtain ⟨_, _, h⟩ := of_bind h
  split at h
  · cases h
  next head hhead =>
    obtain ⟨_, h⟩ := of_raiseIf h
    split at h
    · cases h
      exact .kept rfl rfl
    · obtain ⟨_, hflat, h⟩ := of_bind h
      cases h
      let head' : DeploymentHead := { head with
        status := .inactive, generation := head.generation + 1, updatedNs := time, reason := reason }
      exact @HeadStep.deactivated _ _ _ _ head head' hhead (ended_of_flat hb hflat) rfl rfl rfl
        (find?_setHead (by intro _; rfl) hhead) rfl

theorem Commit.heads (h : Commit env time db tx db') (hmoves : tx.movesHead = false) :
    db'.deploymentHeads = db.deploymentHeads ∧ db'.deployments = db.deployments := by
  cases h with
  | aside h => exact h.heads hmoves
  | fund | reopen | reserve | move | fill => exact ⟨rfl, rfl⟩

variable {outcome : Outcome}

/-- **What every transaction does to the heads.** -/
theorem headStep_of_exec (hb : db.Balanced) (hc : Commit env time db tx db')
    (h : tx.exec env time db = .ok (outcome, db')) : HeadStep db db' := by
  cases tx with
  | activate self tenant manifest reason =>
    obtain ⟨⟨row, db₁⟩, hactivate, h⟩ := of_bind h
    cases h
    exact headStep_of_activate hb hactivate
  | deactivate self tenant deploymentId reason =>
    obtain ⟨db₁, hdeactivate, h⟩ := of_bind h
    cases h
    exact headStep_of_deactivate hb hdeactivate
  | _ =>
    obtain ⟨hheads, hdeployments⟩ := hc.heads rfl
    exact .kept hheads hdeployments

/-! ## The order and the head -/

/-- **An order that has not ended is of the deployment that may act**, and what
a head names is stored. -/
structure DB.Headed (db : DB) : Prop where
  order : ∀ o ∈ db.orders.rows, o.status.terminal = false → ∀ h,
    db.deploymentHeads.find? (o.tenantId, o.accountId) = some h → h.names o.deploymentId
  stored : ∀ k h d, db.deploymentHeads.find? k = some h → h.deploymentId = some d →
    ∃ row, db.deployments.find? (k.1, d) = some row ∧ row.payload.accountId = k.2

/-- An order that has not ended after a commit had not ended before, or was
reserved by it, under the head. -/
theorem Commit.unended (h : Commit env time db tx db') {o' : Order} (ho' : o' ∈ db'.orders.rows)
    (hopen : o'.status.terminal = false) :
    (∃ o ∈ db.orders.rows, o.status.terminal = false ∧ o'.frozen = o.frozen)
    ∨ db.orders.find? o'.intentId = none ∧ tx.movesHead = false ∧ ∀ head,
      db.deploymentHeads.find? (o'.tenantId, o'.accountId) = some head →
      head.names o'.deploymentId := by
  obtain ⟨o, ho, he⟩ | ⟨c, a, rfl, -, rfl, hr⟩ := h.origin (find?_of_mem ho')
  · refine .inl ⟨o, mem_of_find? ho, ?_, he.frozen⟩
    by_contra hended
    rw [Bool.not_eq_false] at hended
    rw [he.terminal hended] at hopen
    cases hopen
  · exact .inr ⟨hr.fresh, rfl, ensureActiveDeployment_eq_ok.mp hr.head⟩

/-- **A step of the heads keeps the orders under them.** -/
theorem DB.Headed.exec (h : db.Headed) (hb : db.Balanced) (hc : Commit env time db tx db')
    (hexec : tx.exec env time db = .ok (outcome, db')) : db'.Headed where
  order o' ho' hopen head' hhead' := by
    obtain ⟨o, ho, hopen₀, hfrozen⟩ | ⟨-, hmoves, hhead⟩ := hc.unended ho' hopen
    · have haccount : o'.accountId = o.accountId := (congrArg Order.accountId hfrozen :)
      have htenant : o'.tenantId = o.tenantId := (congrArg Order.tenantId hfrozen :)
      rw [show o'.deploymentId = o.deploymentId from (congrArg Order.deploymentId hfrozen :)]
      rw [haccount, htenant] at hhead'
      -- a head that moves is of an account whose orders have ended, so not of this one
      have hother : ∀ {tenant accountId : String}, db.Ended accountId →
          (o.tenantId, o.accountId) ≠ (tenant, accountId) := by
        intro tenant accountId hended he
        rw [hended o ho (congrArg Prod.snd he)] at hopen₀
        cases hopen₀
      cases headStep_of_exec hb hc hexec with
      | kept heads =>
        rw [heads] at hhead'
        exact h.order o ho hopen₀ head' hhead'
      | activated _ _ _ ended _ _ _ _ heads =>
        rw [heads, if_neg (hother ended)] at hhead'
        exact h.order o ho hopen₀ head' hhead'
      | deactivated _ ended _ _ _ heads =>
        rw [heads, if_neg (hother ended)] at hhead'
        exact h.order o ho hopen₀ head' hhead'
    · rw [(hc.heads hmoves).1] at hhead'
      exact hhead head' hhead'
  stored k head d hhead hd := by
    cases headStep_of_exec hb hc hexec with
    | kept heads deployments =>
      rw [heads] at hhead
      rw [deployments]
      exact h.stored k head d hhead hd
    | @activated tenant manifest _ _ head' row _ fresh _ _ _ hactive _ hrow heads deployments =>
      rw [heads] at hhead
      rw [deployments]
      split_ifs at hhead with hk
      · cases hhead
        obtain rfl : manifest.deploymentId = d := some.inj (hactive.2.symm.trans hd)
        exact ⟨row, if_pos (by rw [hk]), by rw [hrow, hk]⟩
      · obtain ⟨old, hold, haccount⟩ := h.stored k head d hhead hd
        refine ⟨old, (if_neg fun he => ?_).trans hold, haccount⟩
        rw [he, fresh] at hold
        cases hold
    | @deactivated tenant accountId head₀ head' hhead₀ _ _ hid _ heads deployments =>
      rw [heads] at hhead
      rw [deployments]
      split_ifs at hhead with hk
      · cases hhead
        rw [hk]
        exact h.stored _ head₀ d hhead₀ (hid.symm.trans hd)
      · exact h.stored k head d hhead hd

/-! ## What runs leave of a head -/

/-- A deployment has lost the head of an account, or never had it. -/
def DB.Superseded (db : DB) (tenant accountId deploymentId : String) : Prop :=
  ∃ h, db.deploymentHeads.find? (tenant, accountId) = some h ∧ ¬ h.names deploymentId

/-- **What any number of transactions leaves of the heads.** -/
structure HeadsSince (db₀ db : DB) : Prop where
  deployments : ∀ k row, db₀.deployments.find? k = some row → db.deployments.find? k = some row
  generation : ∀ k h₀, db₀.deploymentHeads.find? k = some h₀ →
    ∃ h, db.deploymentHeads.find? k = some h ∧ (h = h₀ ∨ h₀.generation < h.generation)
  limits : ∀ k h₀ d₀ row₀, db₀.deploymentHeads.find? k = some h₀ → h₀.deploymentId = some d₀ →
    db₀.deployments.find? (k.1, d₀) = some row₀ →
    ∃ h d row, db.deploymentHeads.find? k = some h ∧ h.deploymentId = some d
      ∧ db.deployments.find? (k.1, d) = some row
      ∧ row.payload.riskBudget.Within row₀.payload.riskBudget
  account : ∀ id a₀, db₀.accounts.find? id = some a₀ →
    ∃ a, db.accounts.find? id = some a ∧ a.frozen = a₀.frozen
  capital : ∀ tenant d row a, db.deployments.find? (tenant, d) = some row →
    db₀.deployments.find? (tenant, d) = none →
    db₀.accounts.find? row.payload.accountId = some a → a.tenantId = tenant
      ∧ a.capital = row.payload.riskBudget.capital ∧ a.quoteAsset = row.payload.riskBudget.currency
  superseded : ∀ tenant accountId d row, db₀.deployments.find? (tenant, d) = some row →
    db₀.Superseded tenant accountId d → db.Superseded tenant accountId d
      ∧ ∀ o ∈ db.orders.rows, o.tenantId = tenant → o.accountId = accountId → o.deploymentId = d →
        ∃ o₀ ∈ db₀.orders.rows, o₀.frozen = o.frozen

variable {k : String × String}

/-- What a step leaves of the deployments that are stored. -/
theorem HeadStep.deployments_kept (h : HeadStep db db') (hrow : db.deployments.find? k = some row) :
    db'.deployments.find? k = some row := by
  cases h with
  | kept _ deployments => rwa [deployments]
  | activated _ fresh _ _ _ _ _ _ _ deployments =>
    rw [deployments, if_neg]
    · exact hrow
    · rintro rfl
      rw [fresh] at hrow
      cases hrow
  | deactivated _ _ _ _ _ _ deployments => rwa [deployments]

/-- A head that is not the one that moves is what it was. -/
theorem HeadStep.generation (h : HeadStep db db') (hhead : db.deploymentHeads.find? k = some head) :
    ∃ head', db'.deploymentHeads.find? k = some head'
      ∧ (head' = head ∨ head.generation < head'.generation) := by
  cases h with
  | kept heads => exact ⟨head, by rw [heads, hhead], .inl rfl⟩
  | @activated tenant manifest _ head₀ head' _ hhead₀ _ _ _ _ _ hgeneration _ heads =>
    by_cases hk : k = (tenant, manifest.accountId)
    · rw [hk] at hhead
      obtain hfound | ⟨hnone, -⟩ := hhead₀
      · obtain rfl : head₀ = head := some.inj (hfound.symm.trans hhead)
        exact ⟨head', (heads k).trans (if_pos hk), .inr (by omega)⟩
      · rw [hnone] at hhead
        cases hhead
    · exact ⟨head, (heads k).trans ((if_neg hk).trans hhead), .inl rfl⟩
  | @deactivated tenant accountId head₀ head' hhead₀ _ _ _ hgeneration heads =>
    by_cases hk : k = (tenant, accountId)
    · rw [hk] at hhead
      obtain rfl : head₀ = head := some.inj (hhead₀.symm.trans hhead)
      exact ⟨head', (heads k).trans (if_pos hk), .inr (by omega)⟩
    · exact ⟨head, (heads k).trans ((if_neg hk).trans hhead), .inl rfl⟩

variable {d : String}

/-- **No limit is raised** by a step. -/
theorem HeadStep.limits (h : HeadStep db db') (hhead : db.deploymentHeads.find? k = some head)
    (hd : head.deploymentId = some d) (hrow : db.deployments.find? (k.1, d) = some row) :
    ∃ head' d' row', db'.deploymentHeads.find? k = some head' ∧ head'.deploymentId = some d'
      ∧ db'.deployments.find? (k.1, d') = some row'
      ∧ row'.payload.riskBudget.Within row.payload.riskBudget := by
  have hkept := h.deployments_kept hrow
  cases h with
  | kept heads => exact ⟨head, d, row, by rw [heads, hhead], hd, hkept, .refl _⟩
  | @activated tenant manifest _ head₀ head' row' hhead₀ _ previous _ _ hactive _ hpayload heads
      deployments =>
    by_cases hk : k = (tenant, manifest.accountId)
    · rw [hk] at hhead hrow
      obtain hfound | ⟨hnone, -⟩ := hhead₀
      · obtain rfl : head₀ = head := some.inj (hfound.symm.trans hhead)
        obtain ⟨old, hold, hwithin⟩ := previous d hd
        obtain rfl : old = row := some.inj (hold.symm.trans hrow)
        refine ⟨head', manifest.deploymentId, row', (heads k).trans (if_pos hk), hactive.2,
          (deployments _).trans (if_pos (by rw [hk])), ?_⟩
        rwa [hpayload]
      · rw [hnone] at hhead
        cases hhead
    · exact ⟨head, d, row, (heads k).trans ((if_neg hk).trans hhead), hd, hkept, .refl _⟩
  | @deactivated tenant accountId head₀ head' hhead₀ _ _ hid _ heads =>
    by_cases hk : k = (tenant, accountId)
    · rw [hk] at hhead
      obtain rfl : head₀ = head := some.inj (hhead₀.symm.trans hhead)
      exact ⟨head', d, row, (heads k).trans (if_pos hk), hid.trans hd, hkept, .refl _⟩
    · exact ⟨head, d, row, (heads k).trans ((if_neg hk).trans hhead), hd, hkept, .refl _⟩

/-- **A deployment that lost a head does not get it back**: what takes a head
was not stored before. -/
theorem HeadStep.superseded (h : HeadStep db db')
    (hrow : db.deployments.find? (tenant, d) = some row) (hlost : db.Superseded tenant accountId d)
    : db'.Superseded tenant accountId d := by
  obtain ⟨head, hhead, hnames⟩ := hlost
  cases h with
  | kept heads => exact ⟨head, by rw [heads, hhead], hnames⟩
  | @activated tenant' manifest _ _ head' _ _ fresh _ _ _ hactive _ _ heads =>
    by_cases hk : (tenant, accountId) = (tenant', manifest.accountId)
    · refine ⟨head', (heads _).trans (if_pos hk), fun hn => ?_⟩
      obtain rfl : manifest.deploymentId = d := some.inj (hactive.2.symm.trans hn.2)
      rw [show tenant = tenant' from congrArg Prod.fst hk, fresh] at hrow
      cases hrow
    · exact ⟨head, (heads _).trans ((if_neg hk).trans hhead), hnames⟩
  | @deactivated tenant' accountId' _ head' _ _ hinactive _ _ heads =>
    by_cases hk : (tenant, accountId) = (tenant', accountId')
    · refine ⟨head', (heads _).trans (if_pos hk), fun hn => ?_⟩
      cases hinactive.symm.trans hn.1
    · exact ⟨head, (heads _).trans ((if_neg hk).trans hhead), hnames⟩

/-- **One transaction.** -/
theorem headsSince_of_exec (hb : db.Balanced) (hc : Commit env time db tx db')
    (hexec : tx.exec env time db = .ok (outcome, db')) : HeadsSince db db' := by
  have hstep := headStep_of_exec hb hc hexec
  refine ⟨fun _ _ => hstep.deployments_kept, fun _ _ => hstep.generation,
    fun _ _ _ _ => hstep.limits, fun id a ha => ?_, ?_, fun tenant accountId d row hrow hlost => ?_⟩
  · obtain ⟨a', ha', hfrozen, -⟩ := hc.account ha
    exact ⟨a', ha', hfrozen⟩
  · intro tenant d row a hrow hnone ha
    cases hstep with
    | kept _ deployments | deactivated _ _ _ _ _ _ deployments =>
      rw [deployments, hnone] at hrow
      cases hrow
    | @activated tenant' manifest _ _ _ row' _ _ _ _ account _ _ hpayload _ deployments =>
      rw [deployments] at hrow
      split_ifs at hrow with hk
      · cases hrow
        rw [hpayload] at ha ⊢
        rw [show tenant = tenant' from congrArg Prod.fst hk]
        exact account a ha
      · rw [hnone] at hrow
        cases hrow
  · refine ⟨hstep.superseded hrow hlost, fun o' ho' htenant haccount hd => ?_⟩
    obtain ⟨o, ho, he⟩ | ⟨c, a, rfl, -, rfl, hr⟩ := hc.origin (find?_of_mem ho')
    · exact ⟨o, mem_of_find? ho, he.frozen.symm⟩
    · -- a reservation is of the deployment that the head names
      obtain ⟨head, hhead, hnames⟩ := hlost
      have hensured := ensureActiveDeployment_eq_ok.mp hr.head head
      rw [show c.tenant = tenant from htenant, show c.intent.accountId = accountId from haccount,
        show c.intent.deploymentId = d from hd] at hensured
      exact absurd (hensured hhead) hnames

theorem HeadsSince.refl (db : DB) : HeadsSince db db where
  deployments _ _ h := h
  generation _ h₀ h := ⟨h₀, h, .inl rfl⟩
  limits _ h₀ d₀ row₀ h hd hrow := ⟨h₀, d₀, row₀, h, hd, hrow, .refl _⟩
  account _ a h := ⟨a, h, rfl⟩
  capital tenant d row a hrow hnone ha := by
    rw [hnone] at hrow
    cases hrow
  superseded _ _ _ _ _ h := ⟨h, fun o ho _ _ _ => ⟨o, ho, rfl⟩⟩

theorem HeadsSince.trans {db₀ db₁ db₂ : DB} (h : HeadsSince db₀ db₁) (h' : HeadsSince db₁ db₂) :
    HeadsSince db₀ db₂ where
  deployments k row hrow := h'.deployments k row (h.deployments k row hrow)
  generation k h₀ hhead := by
    obtain ⟨h₁, hh₁, hg₁⟩ := h.generation k h₀ hhead
    obtain ⟨h₂, hh₂, hg₂⟩ := h'.generation k h₁ hh₁
    refine ⟨h₂, hh₂, ?_⟩
    obtain rfl | hlt₁ := hg₁
    · exact hg₂
    · obtain rfl | hlt₂ := hg₂
      · exact .inr hlt₁
      · exact .inr (hlt₁.trans hlt₂)
  limits k h₀ d₀ row₀ hhead hd hrow := by
    obtain ⟨h₁, d₁, row₁, hh₁, hd₁, hrow₁, hw₁⟩ := h.limits k h₀ d₀ row₀ hhead hd hrow
    obtain ⟨h₂, d₂, row₂, hh₂, hd₂, hrow₂, hw₂⟩ := h'.limits k h₁ d₁ row₁ hh₁ hd₁ hrow₁
    exact ⟨h₂, d₂, row₂, hh₂, hd₂, hrow₂, hw₂.trans hw₁⟩
  account id a ha := by
    obtain ⟨a₁, ha₁, hfrozen₁⟩ := h.account id a ha
    obtain ⟨a₂, ha₂, hfrozen₂⟩ := h'.account id a₁ ha₁
    exact ⟨a₂, ha₂, hfrozen₂.trans hfrozen₁⟩
  capital tenant d row a hrow hnone ha := by
    cases hmiddle : db₁.deployments.find? (tenant, d) with
    | some row₁ =>
      obtain rfl : row₁ = row := some.inj ((h'.deployments _ _ hmiddle).symm.trans hrow)
      exact h.capital tenant d row₁ a hmiddle hnone ha
    | none =>
      obtain ⟨a₁, ha₁, hfrozen⟩ := h.account _ a ha
      rw [← show a₁.tenantId = a.tenantId from (congrArg Account.tenantId hfrozen :),
        ← show a₁.capital = a.capital from (congrArg Account.capital hfrozen :),
        ← show a₁.quoteAsset = a.quoteAsset from (congrArg Account.quoteAsset hfrozen :)]
      exact h'.capital tenant d row a₁ hrow hmiddle ha₁
  superseded tenant accountId d row hrow hlost := by
    obtain ⟨hlost₁, horders₁⟩ := h.superseded tenant accountId d row hrow hlost
    obtain ⟨hlost₂, horders₂⟩ :=
      h'.superseded tenant accountId d row (h.deployments _ _ hrow) hlost₁
    refine ⟨hlost₂, fun o ho htenant haccount hd => ?_⟩
    obtain ⟨o₁, ho₁, hfrozen₁⟩ := horders₂ o ho htenant haccount hd
    obtain ⟨o₀, ho₀, hfrozen₀⟩ := horders₁ o₁ ho₁
      ((congrArg Order.tenantId hfrozen₁ :).trans htenant)
      ((congrArg Order.accountId hfrozen₁ :).trans haccount)
      ((congrArg Order.deploymentId hfrozen₁ :).trans hd)
    exact ⟨o₀, ho₀, hfrozen₀.trans hfrozen₁⟩

/-! ## Runs -/

/-- The manifest that the head of an account names. -/
def DB.headManifest (db : DB) (tenant accountId : String) : Option DeploymentManifest :=
  match (db.deploymentHeads.find? (tenant, accountId)).bind DeploymentHead.deploymentId with
  | some d => (db.deployments.find? (tenant, d)).map DeploymentArtifact.payload
  | none => none

theorem headManifest_eq_some {m : DeploymentManifest} :
    db.headManifest tenant accountId = some m ↔ ∃ h d row,
      db.deploymentHeads.find? (tenant, accountId) = some h ∧ h.deploymentId = some d
        ∧ db.deployments.find? (tenant, d) = some row ∧ row.payload = m := by
  unfold DB.headManifest
  constructor
  · intro hm
    split at hm
    next d hd =>
      obtain ⟨h, hh, hd⟩ := bind_eq_some_iff.mp hd
      obtain ⟨row, hrow, hpayload⟩ := map_eq_some_iff.mp hm
      exact ⟨h, d, row, hh, hd, hrow, hpayload⟩
    next => cases hm
  · rintro ⟨h, d, row, hh, hd, hrow, rfl⟩
    rw [hh, bind_some, hd]
    dsimp only
    rw [hrow, map_some]

/-- **A transaction acts for a deployment**: it reserves an order of it, claims
one for submission, or is the last check of one in front of the send. -/
def Transaction.ActsFor (db : DB) (tenant accountId deploymentId : String) : Transaction → Prop
  | .reserve c => c.tenant = tenant ∧ c.intent.accountId = accountId
      ∧ c.intent.deploymentId = deploymentId
  | .submitClaim c _ | .submitPresend c _ _ => ∃ o, db.orders.find? c.intentId = some o
      ∧ o.tenantId = tenant ∧ o.accountId = accountId ∧ o.deploymentId = deploymentId
  | _ => False

/-- **Who lost the head acts no more.** -/
theorem not_actsFor_of_superseded (hlost : db.Superseded tenant accountId d) (hheld : tx.Held db)
    (h : tx.exec env time db = .ok (outcome, db')) : ¬ tx.ActsFor db tenant accountId d := by
  obtain ⟨head, hhead, hnames⟩ := hlost
  intro hacts
  -- each of them has the head of its order ensured
  have hrefused : ∀ {a : Account} {o : Order} {intentId : String}, Located db a o →
      o.intentId = intentId →
      ensureActiveDeployment db o.tenantId o.accountId o.deploymentId = .ok () →
      (∃ o, db.orders.find? intentId = some o ∧ o.tenantId = tenant ∧ o.accountId = accountId
        ∧ o.deploymentId = d) → False := by
    rintro a o _ located rfl hensured ⟨p, hp, rfl, rfl, rfl⟩
    obtain rfl : o = p := some.inj (located.order.symm.trans hp)
    exact hnames (ensureActiveDeployment_eq_ok.mp hensured head hhead)
  cases tx with
  | reserve c =>
    obtain ⟨rfl, rfl, rfl⟩ := hacts
    obtain ⟨_, h, _⟩ := of_bind h
    obtain ⟨hensured, _⟩ := reserveLocked_spec h
    exact hnames (ensureActiveDeployment_eq_ok.mp hensured head hhead)
  | submitClaim c market =>
    obtain ⟨_, h, _⟩ := of_bind h
    obtain ⟨a, o, located, hid, hensured, _⟩ := submitClaim_spec h
    exact hrefused located hid hensured hacts
  | submitPresend c row market =>
    obtain ⟨_, h, _⟩ := of_bind h
    obtain ⟨a, o, located, hid, _, hensured, _⟩ := submitPresend_spec hheld h
    exact hrefused located hid hensured hacts
  | _ => exact hacts

namespace System

/-- **Every open order is under its head**, after every run. -/
theorem headed_after (env : Env) (ls : List Label) : (after env ls).db.Headed := by
  have hstart : DB.empty.Headed := ⟨(fun _ h => nomatch h), (fun _ _ _ h => nomatch h)⟩
  have hrun : (after env ([] ++ ls)).db.Balanced ∧ (after env ([] ++ ls)).db.Headed :=
    inv_run_of_exec (fun db => db.Balanced ∧ db.Headed)
      (fun hc hexec ⟨hb, hh⟩ => ⟨hc.balanced hb, hh.exec hb hc hexec⟩) [] ls
      ⟨balanced_empty, hstart⟩
  exact hrun.2

/-- **What a run leaves of the heads.** -/
theorem headsSince_run (env : Env) (ls ls' : List Label) :
    HeadsSince (after env ls).db (after env (ls ++ ls')).db := by
  have hrun := inv_run_of_exec (fun db => db.Balanced ∧ HeadsSince (after env ls).db db)
    (fun hc hexec ⟨hb, hh⟩ => ⟨hc.balanced hb, hh.trans (headsSince_of_exec hb hc hexec)⟩) ls ls'
    ⟨balanced_after env ls, .refl _⟩
  exact hrun.2

/-- **A send was checked** before the deployment of its order lost the head. -/
theorem checked_before (env : Env) (ls ls' : List Label) {tenant accountId d : String}
    {row : DeploymentArtifact} (hrow : (after env ls).db.deployments.find? (tenant, d) = some row)
    (hlost : (after env ls).db.Superseded tenant accountId d) {tid : ℕ} {intent : OrderIntent}
    {o : Order} (hsent : Entry.sent tid intent ∈ (after env (ls ++ ls')).log)
    (ho : (after env (ls ++ ls')).db.orders.find? intent.intentId = some o)
    (htenant : o.tenantId = tenant) (haccount : o.accountId = accountId) (hd : o.deploymentId = d) :
    ∃ before l between c row market time, ls = before ++ l :: between ∧ row.payload.intent = intent
      ∧ commits env (after env before) l = some (.submitPresend c row market, time) := by
  obtain ⟨pre, time, post, c, held, hsplit, hintent, -, b, l, between, time', market, a, hpre,
    hcommits, -⟩ := presend_of_sent env (ls ++ ls') hsent
  subst hpre
  -- a check that came after would have been refused
  have hrefused : ∀ b', b = ls ++ b' → ls' = b' ++ (l :: between ++ .run tid time :: post) →
      False := by
    rintro b' rfl hb'
    have hlost' := ((headsSince_run env ls b').superseded tenant accountId d row hrow hlost).1
    obtain ⟨outcome, hexec⟩ := exec_of_commits hcommits
    have hheld := held_of_commits (held_after env (ls ++ b')) hcommits
    refine not_actsFor_of_superseded hlost' hheld hexec ?_
    obtain ⟨⟨fence, db₁⟩, hpresend, -⟩ := of_bind hexec
    obtain ⟨_, p, located, hid, hfrozen, -⟩ := submitPresend_spec hheld hpresend
    have hfaithful := (admitted_after env _ p (mem_of_find? located.order)).faithful
    have hpayload : p.payload = held.payload := (congrArg Order.payload hfrozen :)
    have hpid : p.intentId = intent.intentId := by
      rw [← hfaithful.intentId, hpayload, hintent]
    obtain ⟨o', ho', he⟩ := order_of_run (R := fun o o' => o'.frozen = o.frozen) (fun _ => rfl)
      (fun _ _ _ h h' => h'.trans h) (fun he => he.frozen) (ls ++ b')
      (l :: between ++ .run tid time :: post) located.order
    rw [append_assoc, ← hb', hpid] at ho'
    obtain rfl : o' = o := some.inj (ho'.symm.trans ho)
    exact ⟨p, hid ▸ located.order, (congrArg Order.tenantId he.symm :).trans htenant,
      (congrArg Order.accountId he.symm :).trans haccount,
      (congrArg Order.deploymentId he.symm :).trans hd⟩
  have happend : ls ++ ls' = b ++ (l :: between ++ .run tid time :: post) := by
    rw [hsplit]
    simp
  obtain ⟨b', hb, hls'⟩ | ⟨rest, hls, hrest⟩ := append_eq_append_iff.mp happend
  · exact (hrefused b' hb hls').elim
  · cases rest with
    | nil =>
      rw [append_nil] at hls
      exact (hrefused [] (by rw [hls, append_nil]) hrest.symm).elim
    | cons x rest =>
      obtain ⟨rfl, -⟩ := cons_eq_cons.mp hrest
      exact ⟨b, l, rest, c, held, market, time', hls, hintent, hcommits⟩

/-- A registry with a key. -/
def sampleRegistry : DeploymentRegistry := ⟨some (List.replicate 32 0), "policy"⟩

/-- An activation. -/
def activating (manifest : DeploymentManifest) (now : ℕ) : List Label :=
  [.call 0 (.activate sampleRegistry "tenant" manifest "reason"), .run 0 now]

/-- A deployment is activated before there is an account, -/
def capitalAnnounced : List Label :=
  activating (Sample.deployment "first" .paper (Sample.positive 20000)) 1

/-- the account is opened with less, and another deployment takes the head. -/
def capitalLowered : List Label :=
  Sample.opening 2 ++ activating (Sample.deployment "second" .paper Sample.capital) 3

/-- An order is at the send when a query finds it canceled, and its deployment
is deactivated. -/
def sentAfterDeactivation : List Label :=
  Sample.opening 0 ++ activating (Sample.deployment "paper" .paper Sample.capital) 1
    ++ Sample.reserving (Sample.intent "order" "paper" .buy Sample.seven Sample.ten)
      (Sample.deployment "paper" .paper Sample.capital) 5
    ++ (Sample.submitting "order" 6).dropLast
    ++ [.call 1 (.query "tenant" "order"), .run 1 7,
      .reply 1 (.snapshot (Sample.snapshot "order" .canceled .notRequired Sample.seven
        Sample.nothing 7)), .run 1 8,
      .call 1 (.deactivate sampleRegistry "tenant" "paper" "reason"), .run 1 9]

end System

end Qt
