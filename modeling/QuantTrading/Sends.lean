import QuantTrading.Reservations

/-!
# At most one send

The outbox is the order row: whoever moves it from `RESERVED` to
`SUBMITTING` owns the one send the intent will ever have, and nothing moves
it back. A task that owns a send has not used it, no two tasks own one of the
same intent, and an intent that was sent has left `RESERVED` (`Fenced`).

The evidence that an intent was never sent is written by four branches. Three
find the order still `RESERVED`; the fourth is written by the owner itself,
which gives up its send with it. So the evidence is about the future as well
as about the past.
-/

namespace Qt

open Except List Table Option
open Machine

variable {env : Env} {time : ℕ} {db db' : DB} {tx : Transaction}

/-! ## Statuses only move forward -/

variable {o o' : Order}

section

variable (h : Evolves time db tx o o')
include h

/-- An intent that is unsent or being sent was so before, or its send was claimed. -/
theorem Evolves.status_unsent (hs : o'.status = .reserved ∨ o'.status = .submitting) :
    o.status = o'.status ∨ o.status = .reserved ∧ o'.status = .submitting := by
  cases h with
  | same => exact .inl rfl
  | fill =>
    left
    show o.status = filledStatus o _
    change filledStatus o _ = _ ∨ filledStatus o _ = _ at hs
    unfold filledStatus at hs ⊢
    split_ifs at hs ⊢
    · simp at hs
    · rfl
    · simp at hs
  | move _ _ hm =>
    cases hm with
    | claim _ unsent => exact .inr ⟨unsent, rfl⟩
    | dispatchCancel | doubt | expire | cancelUnsent | shadow | abort | reject
    | confirmCancel => rcases hs with hs | hs <;> cases hs
    | answer _ _ _ _ _ hstatus =>
      rcases hstatus with rfl | ⟨_, rfl | rfl⟩
      · exact .inl rfl
      · rcases hs with hs | hs <;> cases hs
      · rcases hs with hs | hs <;> cases hs
    | rejectCancel pending =>
      exfalso
      revert hs
      show (ite _ _ _ : OrderStatus) = _ ∨ ite _ _ _ = _ → False
      split_ifs <;> simp
    | settle => exact .inl rfl
    | observe _ _ _ _ _ _ _ _ _ _ reported =>
      exfalso
      rcases reported with hr | hr | hr <;> change OrderSnapshot.status _ = _ ∨ _ at hs <;>
        simp [hr] at hs
    | finish _ _ _ _ _ _ _ _ _ reported =>
      exfalso
      rcases hs with hs | hs <;> rw [show OrderSnapshot.status _ = _ from hs] at reported <;>
        cases reported

/-- **A reservation is not reopened.** -/
theorem Evolves.status_reserved (hs : o'.status = .reserved) :
    o.status = .reserved :=
  (h.status_unsent (.inl hs)).elim (·.trans hs) (·.1)

/-- **A send is not reopened**: only the claim of an unsent intent enters
`SUBMITTING`. -/
theorem Evolves.status_submitting (hs : o'.status = .submitting) :
    o.status = .reserved ∨ o.status = .submitting :=
  (h.status_unsent (.inr hs)).elim (fun he => .inr (he.trans hs)) fun he => .inl he.1

/-- **What ended is only filled**, by a report that comes late. -/
theorem Evolves.ended (ht : o.status.terminal = true) :
    o'.status = o.status ∨ o'.status = .filled := by
  cases h with
  | same => exact .inl rfl
  | fill =>
    show filledStatus o _ = _ ∨ filledStatus o _ = _
    unfold filledStatus
    split_ifs with _ hopen
    · exact .inr rfl
    · exact .inl rfl
    · exact absurd (.inl ht) hopen
  | move _ _ hm =>
    refine .inl ?_
    cases hm with
    | settle => rfl
    | finish _ _ _ _ _ _ _ hsame => exact hsame ht
    | answer _ _ _ _ _ hstatus =>
      rcases hstatus with rfl | ⟨hs, -⟩
      · rfl
      · rw [hs] at ht
        cases ht
    | expire _ hs | cancelUnsent hs | shadow _ _ hs | claim _ hs | abort _ _ hs | reject _ hs
    | confirmCancel hs | rejectCancel hs =>
      rw [hs] at ht
      cases ht
    | dispatchCancel hs | doubt hs | observe _ _ _ _ _ _ hs => cases hs.symm.trans ht

/-- **What ended has ended.** -/
theorem Evolves.terminal (ht : o.status.terminal = true) :
    o'.status.terminal = true := by
  rcases h.ended ht with hs | hs
  · rwa [hs]
  · rw [hs]
    rfl

end

/-- What was not sent is not filled. -/
def Order.Unfilled (o : Order) : Prop :=
  o.status = .reserved ∨ o.status = .submitting → o.filledQuantity = 0

theorem Evolves.unfilled (h : Evolves time db tx o o') (hc : o.Unfilled) : o'.Unfilled := by
  intro hs
  have hbefore : o.status = .reserved ∨ o.status = .submitting :=
    hs.elim (fun hs => .inl (h.status_reserved hs)) h.status_submitting
  cases h with
  | same => exact hc hbefore
  | move _ _ hm => exact hm.filledQuantity.trans (hc hbefore)
  | fill _ _ _ hsent =>
    -- a fill leaves neither status behind it
    exfalso
    revert hs
    show filledStatus o _ = .reserved ∨ filledStatus o _ = .submitting → False
    rcases hbefore with hb | hb
    · exact absurd hb hsent
    · unfold filledStatus
      rw [hb]
      split_ifs <;> simp_all [OrderStatus.terminal]

/-! ## Evidence -/

variable {id : String}

/-- **Where evidence comes from**: an order that has not been sent, or one
whose sender gives it up. -/
theorem Commit.evidence (h : Commit env time db tx db') {tenant : String}
    (hp : provenNeverSent db' tenant id) :
    provenNeverSent db tenant id ∨ ∃ o o', db.orders.find? id = some o ∧ o.tenantId = tenant
      ∧ db'.orders.find? id = some o' ∧ o'.status.terminal = true
      ∧ o'.filledQuantity = o.filledQuantity
      ∧ (o.status = .reserved ∨ (o.status = .submitting
        ∧ ∃ c row market, tx = .submitPresend c row market ∧ c.intentId = id)) := by
  obtain ⟨e, he, htenant, hid, hk⟩ := hp
  cases h with
  | aside h =>
    obtain ⟨es, hes, hnever⟩ := h.events
    rw [hes, mem_append] at he
    rcases he with he | he
    · exact .inl ⟨e, he, htenant, hid, hk⟩
    · rw [hnever e he] at hk
      cases hk
  | fund =>
    rcases mem_append.mp he with he | he
    · exact .inl ⟨e, he, htenant, hid, hk⟩
    · rw [mem_singleton.mp he] at hk
      cases hk
  | reopen => exact .inl ⟨e, he, htenant, hid, hk⟩
  | reserve =>
    rcases mem_append.mp he with he | he
    · exact .inl ⟨e, he, htenant, hid, hk⟩
    · rw [mem_singleton.mp he] at hk
      cases hk
  | @move _ a a' o o' ks located htx hm hav hov =>
    rcases mem_append.mp he with he | he
    · exact .inl ⟨e, he, htenant, hid, hk⟩
    · refine .inr ?_
      obtain ⟨k, hks, rfl⟩ := mem_map.mp he
      have hid' : o'.intentId = o.intentId := Order.intentId_of_frozen hm.frozen
      have hmoved : (db.moved a' o' (o.eventsOf ks time)).orders.find? o.intentId = some o' :=
        moved_order located hid'
      obtain rfl : o.intentId = id := hid
      refine ⟨o, o', located.order, htenant, hmoved, ?_⟩
      cases hm with
      | expire _ unsent => exact ⟨rfl, rfl, .inl unsent⟩
      | cancelUnsent unsent => exact ⟨rfl, rfl, .inl unsent⟩
      | shadow _ _ unsent => exact ⟨rfl, rfl, .inl unsent⟩
      | abort _ _ claimed =>
        exact ⟨rfl, rfl, .inr ⟨claimed, _, _, _, rfl, some.inj htx⟩⟩
      | claim | reject | answer | dispatchCancel | confirmCancel | rejectCancel | doubt =>
        rw [mem_singleton.mp hks] at hk
        cases hk
      | settle _ hnever | observe _ _ hnever | finish _ _ hnever =>
        rw [hnever k hks] at hk
        cases hk
  | @fill _ a o f ks located _ _ _ _ _ _ _ _ _ _ hnever =>
    rcases mem_append.mp he with he | he
    · exact .inl ⟨e, he, htenant, hid, hk⟩
    · obtain ⟨k, hks, rfl⟩ := mem_map.mp he
      rw [hnever k hks] at hk
      cases hk

theorem Evolves.filledQuantity_of_proven (h : Evolves time db tx o o')
    (hp : provenNeverSent db o.tenantId o.intentId) : o'.filledQuantity = o.filledQuantity := by
  cases h with
  | same => rfl
  | move _ _ hm => exact hm.filledQuantity
  | fill _ _ _ _ hproven => exact absurd hp hproven

/-! ## Owners of a send -/

/-- The intent a log entry sends is this one. -/
def Entry.sends (id : String) : Entry → Bool
  | .sent _ intent => intent.intentId = id
  | .committed .. => false

/-- How often an intent was handed to `adapter.submit`. -/
def System.sends (s : System) (id : String) : ℕ := s.log.countP (Entry.sends id)

/-- The intent a task has claimed and not begun to send. -/
def Task.owns : Task → Option String
  | .submitPresend c _ _ | .submitSend c _ => some c.intentId
  | _ => none

variable {t : Task}

theorem System.Quiet.owns {u : Task} (h : Quiet t u) (hu : u.owns = some id) :
    t.owns = some id := by
  cases h with
  | stay => exact hu
  | crash => cases hu
  | start op => cases op <;> cases hu
  | raised e =>
    unfold Task.raised at hu
    split at hu <;> cases hu
  | replied r =>
    unfold Task.replied at hu
    split at hu
    · split at hu <;> cases hu
    · cases hu
    · split at hu <;> cases hu
    · cases hu
    · cases hu
    · cases hu
    · cases hu
    · split at hu <;> cases hu
    · cases hu
    · exact hu
  | advance h =>
    unfold Task.advance at hu
    split at hu
    · cases hu
    · cases hu
    · exact hu

/-- **A task gains a send** by the claim of an unsent intent, and by nothing
else; and it loses it with the evidence. -/
theorem Task.owns_committed (hheld : t.Held db) (hnext : t.next = some tx) {outcome : Outcome}
    (h : tx.exec env time db = .ok (outcome, db'))
    (hu : (t.committed time outcome).owns = some id) :
    (t.owns = some id ∧ db' = db)
      ∨ ∃ a o now, Located db a o ∧ o.intentId = id ∧ o.status = .reserved
        ∧ db' = db.moved a { o with status := .submitting, updatedNs := now }
          (o.eventsOf [.orderSubmitting] time) := by
  cases t with
  | submitClaim c row market =>
    cases hnext
    obtain ⟨⟨claim, db₁⟩, hclaim, h⟩ := of_bind h
    cases h
    obtain ⟨a, o, located, hid, _, _, hout⟩ := submitClaim_spec hclaim
    rcases hout with rfl | ⟨rfl, hs, hdb⟩
    · cases hu
    · exact .inr ⟨a, o, _, located, hid.trans (some.inj hu), hs, hdb⟩
  | submitPresend c row market =>
    cases hnext
    obtain ⟨⟨fence, db₁⟩, hfence, h⟩ := of_bind h
    cases h
    obtain ⟨_, _, _, _, _, _, _, hclear⟩ := submitPresend_spec hheld hfence
    cases fence with
    | clear => exact .inl ⟨hu, (hclear rfl).1⟩
    | returned => cases hu
    | aborted => cases hu
  | reserveCheck c =>
    cases outcome <;> first
    | cases hu
    | (unfold Task.committed at hu; dsimp only at hu; split at hu <;> cases hu)
  | submitRead c =>
    cases outcome <;> first
    | cases hu
    | (unfold Task.committed at hu; dsimp only at hu; split at hu <;> cases hu)
  | submitMarket c row =>
    cases outcome with
    | market raw =>
      cases raw with
      | none => cases hu
      | some m => cases m <;> cases hu
    | _ => cases hu
  | submitCheck c row market =>
    cases outcome <;> first
    | cases hu
    | (unfold Task.committed at hu; dsimp only at hu; split at hu <;> cases hu)
  | cancelClaim c =>
    cases outcome with
    | cancelClaim claim => cases claim <;> cases hu
    | _ => cases hu
  | queryRead tenant intentId => cases outcome <;> cases hu
  | reconcileRead tenant accountId venue => cases outcome <;> cases hu
  | reconcileItems tenant accountId venue fills orders complete =>
    cases fills with
    | cons => cases hu
    | nil => cases orders <;> cases hu
  | _ => cases hu

/-- The fence in front of a send runs in a task that owns the send. -/
theorem Task.eq_of_next_submitPresend {c : SubmitCall} {row : Order}
    {market : Option ExecutableMarketSnapshot} (hheld : t.Held db)
    (hnext : t.next = some (.submitPresend c row market)) : t = .submitPresend c row market := by
  unfold Task.next at hnext
  split at hnext <;> cases hnext
  · cases hheld
  · rfl

namespace System

/-- **The fence of the outbox.** -/
structure Fenced (env : Env) (s : System) : Prop where
  held : s.Held
  admitted : ∀ o ∈ s.db.orders.rows, o.Admitted env
  unfilled : ∀ o ∈ s.db.orders.rows, o.Unfilled
  /-- An owner has not used its send. -/
  owner : ∀ tid id, (s.tasks tid).owns = some id →
    s.sends id = 0 ∧ ∃ o, s.db.orders.find? id = some o ∧ o.status ≠ .reserved
  /-- A send has one owner. -/
  single : ∀ i j id, (s.tasks i).owns = some id → (s.tasks j).owns = some id → i = j
  once : ∀ id, s.sends id ≤ 1
  sent : ∀ id, s.sends id ≠ 0 → ∃ o, s.db.orders.find? id = some o ∧ o.status ≠ .reserved
  /-- Evidence is of an order that ended, and that no one can send. -/
  proven : ∀ tenant id, provenNeverSent s.db tenant id → s.sends id = 0
    ∧ (∀ tid, (s.tasks tid).owns ≠ some id)
    ∧ ∃ o, s.db.orders.find? id = some o ∧ o.tenantId = tenant ∧ o.status.terminal = true
      ∧ o.filledQuantity = 0

theorem fenced_init : init.Fenced env where
  held := held_init
  admitted := fun o ho => by cases ho
  unfilled := fun o ho => by cases ho
  owner := fun _ _ h => by cases h
  single := fun _ _ _ h => by cases h
  once := fun _ => Nat.zero_le 1
  sent := fun _ h => absurd rfl h
  proven := fun _ _ h => by
    obtain ⟨_, he, _⟩ := h
    cases he

variable {s : System} {tid : ℕ}

theorem owns_setTask {t : Task} {i : ℕ} {id : String}
    (h : ((s.setTask tid t).tasks i).owns = some id) :
    (i = tid ∧ t.owns = some id) ∨ (i ≠ tid ∧ (s.tasks i).owns = some id) := by
  have h' : (Function.update s.tasks tid t i).owns = some id := h
  by_cases hi : i = tid
  · rw [hi, Function.update_self] at h'
    exact .inl ⟨hi, h'⟩
  · rw [Function.update_of_ne hi] at h'
    exact .inr ⟨hi, h'⟩

theorem Fenced.quiet (h : s.Fenced env) {t : Task} (ht : Quiet (s.tasks tid) t) :
    (s.setTask tid t).Fenced env := by
  -- no task gains a send
  have howns : ∀ i id, ((s.setTask tid t).tasks i).owns = some id → (s.tasks i).owns = some id := by
    intro i id hi
    rcases owns_setTask hi with ⟨rfl, ht'⟩ | ⟨_, hi⟩
    · exact ht.owns ht'
    · exact hi
  exact
    { held := forall_setTask h.held (ht.held (h.held tid))
      admitted := h.admitted
      unfilled := h.unfilled
      owner := fun i id hi => h.owner i id (howns i id hi)
      single := fun i j id hi hj => h.single i j id (howns i id hi) (howns j id hj)
      once := h.once
      sent := h.sent
      proven := fun tenant id hp => by
        obtain ⟨hsends, hnone, ho⟩ := h.proven tenant id hp
        exact ⟨hsends, fun i hi => hnone i (howns i id hi), ho⟩ }

theorem Fenced.send (h : s.Fenced env) {c : SubmitCall} {row : Order}
    (ht : s.tasks tid = .submitSend c row) : Fenced env { s.setTask tid (.submitAwait c row) with
      log := s.log ++ [.sent tid row.payload.intent] } := by
  have hown : (s.tasks tid).owns = some c.intentId := by
    rw [ht]
    rfl
  obtain ⟨o, ho, hfrozen⟩ : Holds s.db c.intentId row := by
    have hheld := h.held tid
    rw [ht] at hheld
    exact hheld
  have hintent : row.payload.intent.intentId = c.intentId := by
    have hpayload : o.payload = row.payload := (congrArg Order.payload hfrozen :)
    rw [← hpayload, (h.admitted o (mem_of_find? ho)).faithful.intentId, key_of_find? ho]
  set s' : System := { s.setTask tid (.submitAwait c row) with
    log := s.log ++ [.sent tid row.payload.intent] } with hs'
  have hsends : ∀ id, s'.sends id = s.sends id + if c.intentId = id then 1 else 0 := by
    intro id
    show (s.log ++ [Entry.sent tid row.payload.intent]).countP (Entry.sends id) = _
    rw [countP_append, countP_singleton]
    simp only [Entry.sends, hintent, decide_eq_true_eq]
    rfl
  -- the task that sends is the one owner, and owns nothing any more
  have howns : ∀ i id, (s'.tasks i).owns = some id →
      (s.tasks i).owns = some id ∧ c.intentId ≠ id := by
    intro i id hi
    rcases owns_setTask hi with ⟨_, hi⟩ | ⟨hne, hi⟩
    · cases hi
    · exact ⟨hi, fun he => hne (h.single i tid id hi (he ▸ hown))⟩
  exact
    { held := forall_setTask h.held (by
        have hheld := h.held tid
        rw [ht] at hheld
        exact hheld)
      admitted := h.admitted
      unfilled := h.unfilled
      owner := fun i id hi => by
        obtain ⟨hi, hne⟩ := howns i id hi
        rw [hsends, if_neg hne]
        exact h.owner i id hi
      single := fun i j id hi hj => h.single i j id (howns i id hi).1 (howns j id hj).1
      once := fun id => by
        rw [hsends]
        split_ifs with he
        · rw [← he, (h.owner tid _ hown).1]
        · exact h.once id
      sent := fun id hid => by
        rw [hsends] at hid
        by_cases he : c.intentId = id
        · rw [← he]
          exact (h.owner tid _ hown).2
        · rw [if_neg he] at hid
          exact h.sent id hid
      proven := fun tenant id hp => by
        obtain ⟨hzero, hnone, ho⟩ := h.proven tenant id hp
        refine ⟨?_, fun i hi => hnone i (howns i id hi).1, ho⟩
        have hne : c.intentId ≠ id := by
          rintro rfl
          exact hnone tid hown
        rw [hsends, hzero, if_neg hne] }

theorem Fenced.commit (h : s.Fenced env) {outcome : Outcome} (hnext : (s.tasks tid).next = some tx)
    (hexec : tx.exec env time s.db = .ok (outcome, db')) :
    Fenced env { s.setTask tid ((s.tasks tid).committed time outcome) with
      db := db', log := s.log ++ [.committed tid tx time] } := by
  have hcommit : Commit env time s.db tx db' := commit_of_exec ((h.held tid).next hnext) hexec
  set s' : System := { s.setTask tid ((s.tasks tid).committed time outcome) with
    db := db', log := s.log ++ [.committed tid tx time] } with hs'
  have hsends : ∀ id, s'.sends id = s.sends id := by
    intro id
    show (s.log ++ [Entry.committed tid tx time]).countP (Entry.sends id) = _
    rw [countP_append, countP_singleton]
    rfl
  have hleft : ∀ id, (∃ o, s.db.orders.find? id = some o ∧ o.status ≠ .reserved) →
      ∃ o, db'.orders.find? id = some o ∧ o.status ≠ .reserved := by
    rintro id ⟨o, ho, hs⟩
    obtain ⟨o', ho', he⟩ := hcommit.evolves ho
    exact ⟨o', ho', fun hs' => hs (he.status_reserved hs')⟩
  -- an unsent intent has no owner
  have hunsent : ∀ {id o}, s.db.orders.find? id = some o → o.status = .reserved →
      s.sends id = 0 ∧ ∀ i, (s.tasks i).owns ≠ some id := by
    intro id o ho hs
    have hnot : ¬ ∃ o, s.db.orders.find? id = some o ∧ o.status ≠ .reserved := by
      rintro ⟨p, hp, hps⟩
      rw [ho] at hp
      exact hps (some.inj hp ▸ hs)
    exact ⟨not_not.mp (fun hne => hnot (h.sent id hne)), fun i hi => hnot (h.owner i id hi).2⟩
  -- a task that gains a send claims an unsent intent
  have howns : ∀ i id, (s'.tasks i).owns = some id → ((s.tasks i).owns = some id
      ∧ (i = tid → db' = s.db)) ∨ (i = tid ∧ ∃ o o', s.db.orders.find? id = some o
        ∧ o.status = .reserved ∧ db'.orders.find? id = some o' ∧ o'.status = .submitting) := by
    intro i id hi
    rcases owns_setTask hi with ⟨rfl, hi⟩ | ⟨hne, hi⟩
    · rcases Task.owns_committed (h.held i) hnext hexec hi with ⟨hi, hdb⟩ |
        ⟨a, o, now, located, hid, hs, hdb⟩
      · exact .inl ⟨hi, fun _ => hdb⟩
      · refine .inr ⟨rfl, o, { o with status := .submitting, updatedNs := now },
          hid ▸ located.order, hs, ?_, rfl⟩
        rw [hdb, ← hid]
        exact moved_order located rfl
    · exact .inl ⟨hi, fun he => absurd he hne⟩
  exact
    { held := forall_setTask (fun j => (h.held j).commit hcommit)
        ((h.held tid).committed hnext hexec)
      admitted := hcommit.admitted h.admitted
      unfilled := hcommit.forall_orders (fun c a now _ _ => rfl) (fun o o' he => he.unfilled)
        h.unfilled
      owner := fun i id hi => by
        rw [hsends]
        rcases howns i id hi with ⟨hi, _⟩ | ⟨_, o, o', ho, hs, ho', hs'⟩
        · exact ⟨(h.owner i id hi).1, hleft id (h.owner i id hi).2⟩
        · exact ⟨(hunsent ho hs).1, o', ho', by rw [hs']; simp⟩
      single := fun i j id hi hj => by
        rcases howns i id hi with ⟨hi', _⟩ | ⟨hi', o, _, ho, hs, _⟩
        · rcases howns j id hj with ⟨hj', _⟩ | ⟨_, o, _, ho, hs, _⟩
          · exact h.single i j id hi' hj'
          · exact absurd hi' ((hunsent ho hs).2 i)
        · rcases howns j id hj with ⟨hj', _⟩ | ⟨hj', _⟩
          · exact absurd hj' ((hunsent ho hs).2 j)
          · exact hi'.trans hj'.symm
      once := fun id => (hsends id).trans_le (h.once id)
      sent := fun id hid => hleft id (h.sent id (hsends id ▸ hid))
      proven := fun tenant id hp => by
        rw [hsends]
        rcases hcommit.evidence hp with hp | ⟨o, o', ho, htenant, ho', hterminal, hfilled, hwas⟩
        · -- the evidence was there
          obtain ⟨hzero, hnone, o, ho, htenant, hterminal, hfilled⟩ := h.proven tenant id hp
          obtain ⟨o', ho', he⟩ := hcommit.evolves ho
          have hid : o.intentId = id := key_of_find? ho
          refine ⟨hzero, fun i hi => ?_, o', ho', ?_, he.terminal hterminal, ?_⟩
          · rcases howns i id hi with ⟨hi, _⟩ | ⟨_, p, _, hp', hs, _⟩
            · exact hnone i hi
            · rw [ho] at hp'
              rw [some.inj hp', hs] at hterminal
              cases hterminal
          · rw [← htenant]
            exact (congrArg Order.tenantId he.frozen :)
          · rw [he.filledQuantity_of_proven (by rw [htenant, hid]; exact hp), hfilled]
        · -- it is written now, of an order that was not sent
          have hnotnew : ∀ i, (s'.tasks i).owns = some id → (s.tasks i).owns = some id
              ∧ (i = tid → db' = s.db) := by
            intro i hi
            rcases howns i id hi with hi | ⟨_, p, p', _, _, hp', hs'⟩
            · exact hi
            · rw [ho'] at hp'
              rw [some.inj hp', hs'] at hterminal
              cases hterminal
          have horder : ∃ o, db'.orders.find? id = some o ∧ o.tenantId = tenant
              ∧ o.status.terminal = true ∧ o.filledQuantity = 0 := by
            obtain ⟨p, hp', he⟩ := hcommit.evolves ho
            obtain rfl : p = o' := some.inj (hp'.symm.trans ho')
            refine ⟨p, ho', ?_, hterminal, ?_⟩
            · rw [← htenant]
              exact (congrArg Order.tenantId he.frozen :)
            · rw [hfilled]
              exact h.unfilled o (mem_of_find? ho) (hwas.imp (fun hs => hs) And.left)
          rcases hwas with hs | ⟨hs, c, row, market, rfl, hc⟩
          · exact ⟨(hunsent ho hs).1, fun i hi => (hunsent ho hs).2 i (hnotnew i hi).1, horder⟩
          · -- its owner gave it up
            have ht := Task.eq_of_next_submitPresend (h.held tid) hnext
            have hown : (s.tasks tid).owns = some id := by
              rw [ht]
              exact congrArg some hc
            refine ⟨(h.owner tid id hown).1, fun i hi => ?_, horder⟩
            obtain ⟨hi, hdb⟩ := hnotnew i hi
            have hkept := hdb (h.single i tid id hi hown)
            rw [hkept, ho] at ho'
            rw [← some.inj ho', hs] at hterminal
            cases hterminal }

theorem Fenced.step (h : s.Fenced env) (l : Label) : (System.step env s l).Fenced env := by
  have hstep := steps env s l
  generalize System.step env s l = s' at hstep
  cases hstep with
  | quiet tid ht => exact h.quiet ht
  | commit tid time hnext hexec => exact h.commit hnext hexec
  | send tid time ht => exact h.send ht

/-- **The fence holds in every reachable state.** -/
theorem fenced_after (env : Env) (ls : List Label) : (after env ls).Fenced env :=
  inv_run (Fenced env) (fun _ l h => h.step l) fenced_init ls

/-- **At most one send.** In every run an intent is handed to
`adapter.submit` at most once; and an order that has left `RESERVED` does not
come back to it, nor – having left that too – to `SUBMITTING`. -/
theorem sends_at_most_once (env : Env) (ls ls' : List Label) (id : String) :
    (after env ls).sends id ≤ 1
    ∧ ∀ o, (after env ls).db.orders.find? id = some o →
      ∃ o', (after env (ls ++ ls')).db.orders.find? id = some o'
        ∧ (o.status ≠ .reserved → o'.status ≠ .reserved)
        ∧ (o.status ≠ .reserved ∧ o.status ≠ .submitting →
          o'.status ≠ .reserved ∧ o'.status ≠ .submitting) := by
  refine ⟨(fenced_after env ls).once id, fun o ho => ?_⟩
  refine order_of_run (R := fun o o' => (o.status ≠ .reserved → o'.status ≠ .reserved)
    ∧ (o.status ≠ .reserved ∧ o.status ≠ .submitting →
      o'.status ≠ .reserved ∧ o'.status ≠ .submitting)) (fun o => ⟨fun h => h, fun h => h⟩) ?_ ?_ ls ls' ho
  · intro o p q hop hpq
    exact ⟨fun h => hpq.1 (hop.1 h), fun h => hpq.2 (hop.2 h)⟩
  · intro time db tx o o' he
    refine ⟨fun h hs => h (he.status_reserved hs), fun h => ⟨fun hs => ?_, fun hs => ?_⟩⟩
    · exact h.1 (he.status_reserved hs)
    · exact (he.status_submitting hs).elim h.1 h.2

theorem proven_of_append (env : Env) (ls ls' : List Label) {tenant id : String}
    (h : provenNeverSent (after env ls).db tenant id) :
    provenNeverSent (after env (ls ++ ls')).db tenant id := by
  obtain ⟨e, he, hevent⟩ := h
  exact ⟨e, (extends_of_run env ls ls').events.subset he, hevent⟩

/-- **Evidence that an intent was never sent is sound.** Where it is on
record the intent was not sent and will not be; its order is at its end, with
no fill and no reservation, and stays so. -/
theorem proven_never_sent (env : Env) (ls ls' : List Label) {tenant id : String}
    (h : provenNeverSent (after env ls).db tenant id) : (after env (ls ++ ls')).sends id = 0
    ∧ (∀ f ∈ (after env (ls ++ ls')).db.fills.rows, f.intentId ≠ id)
    ∧ ∃ o, (after env (ls ++ ls')).db.orders.find? id = some o ∧ o.tenantId = tenant
      ∧ o.status.terminal = true ∧ o.filledQuantity = 0 ∧ o.reservedQuote = 0
      ∧ o.reservedBase = 0 := by
  have hp := proven_of_append env ls ls' h
  have hb := balanced_after env (ls ++ ls')
  obtain ⟨hsends, _, o, ho, htenant, hterminal, hfilled⟩ :=
    (fenced_after env (ls ++ ls')).proven tenant id hp
  have hmem := mem_of_find? ho
  obtain ⟨hquote, hbase⟩ := (hb.order o hmem).2
  obtain ⟨hq, hb'⟩ := remaining_of_terminal hterminal o.filledQuantity
  refine ⟨hsends, fun f hf hid => ?_, o, ho, htenant, hterminal, hfilled, hquote.trans hq,
    hbase.trans hb'⟩
  -- a fill would fill some of the order
  have hle := le_sumOf (p := fun g : Fill => g.intentId = o.intentId) (g := (·.quantity))
    (fun g hg _ => (hb.fill g hg).1.le) hf (hid.trans (key_of_find? ho).symm)
  rw [← hb.filled o hmem, hfilled] at hle
  exact absurd (hb.fill f hf).1 (not_lt.mpr hle)

/-- An order canceled before it was submitted, and submitted in vain. -/
def canceledUnsent : List Label :=
  Sample.opening 0 ++ Sample.reserving (Sample.intent "order" "paper" .buy Sample.seven Sample.ten)
      (Sample.deployment "paper" .paper Sample.capital) 5
    ++ [.call 0 (.cancel (Sample.cancelCall "order")), .run 0 7]

theorem proven_never_sent_canceledUnsent :
    provenNeverSent (after Sample.digests canceledUnsent).db "tenant" "order"
    ∧ (after Sample.digests (canceledUnsent ++ Sample.submitting "order" 8)).sends "order" = 0 :=
  have h : provenNeverSent (after Sample.digests canceledUnsent).db "tenant" "order" := by
    decide +kernel
  ⟨h, (proven_never_sent Sample.digests canceledUnsent (Sample.submitting "order" 8) h).1⟩

end System

end Qt
