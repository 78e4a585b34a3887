import QuantTrading.Lib.Machine
import QuantTrading.Persistence

/-!
# The hourly quota of alerts

`qt.btc_alerts.store`: a delivery takes the hour of its recipient in the transaction that
marks it as being sent, and what becomes of the hour is decided by its outcome, or by a
recovery that finds it being sent.

The hour is one row with room for one owner: a claim overwrites the owner, and a failed
delivery puts back what was there before its own claim. A delivery therefore keeps its
hour after another has claimed the row, since what that one found, and puts back, is
past the end of it. `Sound.counts` says so, and the rest is read off it.

Every claim begins a delivery, and each reports at most once, at any later time; it may
be that a recovery has come before, or that it never does. A delivery is told by the
clock of its claim, and by that of its outcome where the outcome still found its hour.
-/

namespace Qt.Alerts

open Except List Option Function

/-! ## Rows -/

inductive SendStatus | pending | sending | accepted | unknown | failed | expired | obsolete
deriving DecidableEq, Repr

inductive Mode | off | shadow | notify
deriving DecidableEq, Repr

/-- What a claim reads of the policy. -/
structure Policy where
  mode : Mode
  strategyVersion : String

/-- A row of `outbox`. -/
structure Item where
  createdAt : ℚ
  expiresAt : ℚ
  nextRetryAt : ℚ
  attempts : ℕ
  status : SendStatus
  text : String
  messageId : Option ℤ
  errorCode : Option String
  isTest : Bool

/-- A row of `quota`. -/
structure Quota where
  nextAllowedAt : ℚ
  previousAllowedAt : ℚ
  lastSeenAt : ℚ
  owner : Option String

/-- **`Store`**: its outbox by event, and its quota by recipient. -/
structure Store where
  policy : Policy
  outbox : String → Option Item
  quota : String → Option Quota

/-! ## Operations -/

/-- `enqueue`: a row that exists is left as it is. -/
def Store.enqueue (eventId text : String) (expiresAt now : ℚ) (isTest : Bool) (s : Store) : Store :=
  match s.outbox eventId with
  | some _ => s
  | none =>
    { s with outbox := Function.update s.outbox eventId
              (some ⟨now, expiresAt, 0, 0, .pending, text, none, none, isTest⟩) }

variable (now : ℚ)

/-- A row that is pending and past its time expires. -/
def Item.expire (item : Item) : Item :=
  if item.status = .pending ∧ item.expiresAt ≤ now then { item with status := .expired } else item

/-- The update that `pending` begins with. -/
def Store.expire (s : Store) : Store :=
  { s with outbox := fun e => (s.outbox e).map (·.expire now) }

variable (policy : Policy)

/-- The row can be claimed. -/
def Item.Claimable (now : ℚ) (strategyVersion : Option String) (item : Item) : Prop :=
  item.status = .pending ∧ now < item.expiresAt ∧ item.nextRetryAt ≤ now ∧
    if item.isTest then policy.mode ≠ .off
    else policy.mode = .notify ∧ strategyVersion = some policy.strategyVersion

instance (policy : Policy) (now : ℚ) (strategyVersion : Option String) (item : Item) :
    Decidable (item.Claimable policy now strategyVersion) :=
  inferInstanceAs (Decidable (_ ∧ _ ∧ _ ∧ ite ..))

/-- The recipient has no hour running, and the clock has not gone back. -/
def Quota.Free (q : Quota) : Prop := q.nextAllowedAt ≤ now ∧ q.lastSeenAt ≤ now
deriving Decidable

/-- The row of a claim. -/
def Quota.claimed (previous : Option Quota) (eventId : String) (now : ℚ) : Quota where
  nextAllowedAt := now + 3600
  previousAllowedAt := (previous.map Quota.nextAllowedAt).getD 0
  lastSeenAt := now
  owner := some eventId

/-- **`claim`**: the send and the hour together, or neither. -/
def Store.claim (eventId recipientKey : String) (now : ℚ) (strategyVersion : Option String)
    (s : Store) : Bool × Store :=
  match s.outbox eventId with
  | none => (false, s)
  | some item =>
    if item.Claimable s.policy now strategyVersion ∧ ∀ q ∈ s.quota recipientKey, q.Free now then
      (true, { s with
        quota := Function.update s.quota recipientKey
          (some (Quota.claimed (s.quota recipientKey) eventId now))
        outbox := Function.update s.outbox eventId
          (some { item with status := .sending, attempts := item.attempts + 1 }) })
    else (false, s)

/-- The hour of a delivery that was accepted, or whose outcome is not known. -/
def Quota.extend (q : Quota) : Quota :=
  { q with nextAllowedAt := max q.nextAllowedAt (now + 3600), lastSeenAt := max q.lastSeenAt now }

/-- The hour of a delivery that did not take place. -/
def Quota.giveBack (q : Quota) : Quota :=
  { q with
    nextAllowedAt := q.previousAllowedAt
    owner := none
    lastSeenAt := max q.lastSeenAt now }

/-- `status in {"accepted", "unknown"}`. -/
def SendStatus.consumes : SendStatus → Bool
  | .accepted | .unknown => true
  | _ => false

variable (eventId : String)

/-- The hour after an outcome, if the event owns it. -/
def Quota.settle (now : ℚ) (status : SendStatus) (q : Quota) : Quota :=
  if q.owner = some eventId then
    if status.consumes then q.extend now else q.giveBack now
  else q

/-- What an outcome says. -/
structure Outcome where
  status : SendStatus
  messageId : Option ℤ
  errorCode : Option String
  retryAt : ℚ

/-- A row with its outcome. -/
def Item.settle (o : Outcome) (item : Item) : Item :=
  { item with
    status := o.status
    messageId := o.messageId
    errorCode := o.errorCode
    nextRetryAt := o.retryAt }

def Store.sent (eventId recipientKey : String) (now : ℚ) (o : Outcome) (s : Store) :
    Except Exc Store := do
  raiseIf (o.status = .sending) (.valueError "invalid_send_status")
  return { s with
    outbox := Function.update s.outbox eventId ((s.outbox eventId).map (·.settle o))
    quota := Function.update s.quota recipientKey
      ((s.quota recipientKey).map (·.settle eventId now o.status)) }

/-- A row at a recovery. -/
def Item.recover (item : Item) : Item :=
  if item.status = .sending then
    { item with status := .unknown, errorCode := some "interrupted_send" }
  else item.expire now

variable (s : Store)

/-- The event is being sent. -/
def Store.Sending (eventId : String) : Prop :=
  ∃ item ∈ s.outbox eventId, item.status = .sending
deriving Decidable

/-- The hour at a recovery. -/
def Quota.recover (now : ℚ) (q : Quota) : Quota :=
  if ∃ e ∈ q.owner, s.Sending e then q.extend now else q

def Store.recover (s : Store) : Store :=
  { s with
    quota := fun r => (s.quota r).map (·.recover s now)
    outbox := fun e => (s.outbox e).map (·.recover now) }

/-! ## Deliveries -/

/-- **A delivery**: what was claimed for whom, and what became of it. -/
structure Delivery where
  eventId : String
  recipientKey : String
  claimedAt : ℚ
  /-- The last clock that the hour has of it: of the claim, or of an outcome that found the
  delivery its owner. -/
  countedAt : ℚ
  /-- The outcome, if there is one yet. -/
  outcome : Option SendStatus
  /-- The sender has reported. -/
  reported : Bool

/-- The store, and the deliveries in the order of their claims. -/
structure System where
  store : Store
  deliveries : List Delivery

/-- A new file. -/
def System.init : System := ⟨⟨policy, fun _ => none, fun _ => none⟩, []⟩

variable (d : Delivery)

/-- The delivery owns the hour of its recipient. -/
def Delivery.Owns : Prop :=
  ∃ q ∈ s.quota d.recipientKey, q.owner = some d.eventId
deriving Decidable

/-- The clock that is counted of a delivery after an outcome. -/
def Delivery.counted (now : ℚ) (d : Delivery) : ℚ :=
  if d.Owns s then max d.countedAt now else d.countedAt

def Delivery.report (now : ℚ) (status : SendStatus) (d : Delivery) : Delivery :=
  { d with outcome := some status, reported := true, countedAt := d.counted s now }

/-- A delivery at a recovery. -/
def Delivery.recover (now : ℚ) (d : Delivery) : Delivery :=
  if d.outcome = none then { d with outcome := some .unknown, countedAt := d.counted s now } else d

/-- The steps. What the API enqueues, and what it sets as the policy, may come at any time;
`drop` is the outcome that the dispatcher gives an item without a claim, which it has read
as pending while it holds the worker lock. -/
inductive Label
  | enqueue (eventId text : String) (expiresAt now : ℚ) (isTest : Bool)
  | setPolicy (policy : Policy)
  | expire (now : ℚ)
  | claim (eventId recipientKey : String) (now : ℚ) (strategyVersion : Option String)
  | sent (eventId : String) (now : ℚ) (o : Outcome)
  | drop (eventId recipientKey : String) (now : ℚ) (o : Outcome)
  | recover (now : ℚ)

/-- The report of the delivery of an event, if one has not reported. -/
def System.sent (now : ℚ) (o : Outcome) (s : System) : System :=
  match s.deliveries.find? fun d => d.eventId = eventId ∧ d.reported = false with
  | none => s
  | some d =>
    match s.store.sent eventId d.recipientKey now o with
    | .error _ => s
    | .ok store =>
      ⟨store, s.deliveries.map fun d =>
        if d.eventId = eventId ∧ d.reported = false then d.report s.store now o.status else d⟩

/-- The outcome of an item that is not claimed. -/
def Store.drop (eventId recipientKey : String) (now : ℚ) (o : Outcome) (s : Store) : Store :=
  match s.outbox eventId with
  | some item =>
    if item.status = .pending then
      match s.sent eventId recipientKey now o with
      | .ok s' => s'
      | .error _ => s
    else s
  | none => s

/-- A claim, and the delivery that it begins. -/
def System.claim (eventId recipientKey : String) (now : ℚ) (strategyVersion : Option String)
    (s : System) : System :=
  match s.store.claim eventId recipientKey now strategyVersion with
  | (true, store) => ⟨store, s.deliveries ++ [⟨eventId, recipientKey, now, now, none, false⟩]⟩
  | (false, _) => s

def step (s : System) : Label → System
  | .enqueue eventId text expiresAt now isTest =>
    { s with store := s.store.enqueue eventId text expiresAt now isTest }
  | .setPolicy policy => { s with store := { s.store with policy } }
  | .expire now => { s with store := s.store.expire now }
  | .claim eventId recipientKey now strategyVersion =>
    s.claim eventId recipientKey now strategyVersion
  | .sent eventId now o => s.sent eventId now o
  | .drop eventId recipientKey now o => { s with store := s.store.drop eventId recipientKey now o }
  | .recover now => ⟨s.store.recover now, s.deliveries.map (·.recover s.store now)⟩

/-- The system after a run. -/
def after (ls : List Label) : System := Machine.run step (.init policy) ls

/-! ## What holds in every run -/

/-- The delivery has not ended in a retry, so that its event is not claimed again. -/
def Delivery.Live : Prop := ¬ (d.reported = true ∧ d.outcome = some .pending)

/-- **The delivery takes its hour**: it is under way, was accepted, or its outcome is not
known. -/
def Delivery.Counts : Prop :=
  d.outcome = none ∨ d.outcome = some .accepted ∨ d.outcome = some .unknown

variable {d}

theorem Delivery.Counts.live (h : d.Counts) : d.Live := by
  rintro ⟨_, hpending⟩
  rcases h with h | h | h <;> rw [hpending] at h <;> cases h

theorem Delivery.live_of_silent (h : d.reported = false) : d.Live := by
  rintro ⟨hreported, _⟩
  rw [h] at hreported
  cases hreported

/-- **What holds in every run.** The event of a live delivery is not pending. The owner of
an hour is a delivery that takes it, and an hour without an owner does not run. Of each
delivery that takes its hour, the row allows nothing before that hour is over; and where
another event owns the row, what that one would put back allows nothing either. -/
structure Sound (s : System) : Prop where
  known : ∀ d ∈ s.deliveries, (s.store.outbox d.eventId).isSome
  once : s.deliveries.Pairwise fun d d' => d.eventId = d'.eventId → ¬ d.Live
  pending : ∀ d ∈ s.deliveries, d.Live → ∀ item ∈ s.store.outbox d.eventId, item.status ≠ .pending
  inFlight : ∀ d ∈ s.deliveries, d.outcome = none → d.reported = false ∧ s.store.Sending d.eventId
  silent : ∀ d ∈ s.deliveries, d.reported = false → d.outcome = none ∨ d.outcome = some .unknown
  claimed_le : ∀ d ∈ s.deliveries, d.claimedAt ≤ d.countedAt
  owner : ∀ r, ∀ q ∈ s.store.quota r, ∀ e, q.owner = some e →
    ∃ d ∈ s.deliveries, d.recipientKey = r ∧ d.eventId = e ∧ d.Counts
  free : ∀ r, ∀ q ∈ s.store.quota r, q.previousAllowedAt ≤ max 0 q.lastSeenAt ∧
    (q.owner = none → q.nextAllowedAt ≤ max 0 q.lastSeenAt)
  counts : ∀ d ∈ s.deliveries, d.Counts → ∃ q ∈ s.store.quota d.recipientKey,
    d.countedAt + 3600 ≤ q.nextAllowedAt ∧
      (q.owner ≠ some d.eventId → d.countedAt + 3600 ≤ q.previousAllowedAt)
  gap : s.deliveries.Pairwise fun d d' => d.recipientKey = d'.recipientKey → d.Counts →
    d.countedAt + 3600 ≤ d'.claimedAt ∧ ¬ d.Owns s.store

section Steps

variable {s : System} {d d' : Delivery}

theorem Sound.eq_of_live (h : Sound s) (hd : d ∈ s.deliveries) (hd' : d' ∈ s.deliveries)
    (hlive : d.Live) (hlive' : d'.Live) (hevent : d.eventId = d'.eventId) : d = d' := by
  by_contra hne
  have hpair : s.deliveries.Pairwise fun d d' =>
      d.eventId = d'.eventId → ¬ (d.Live ∧ d'.Live) :=
    h.once.imp fun honce hevent hlives => honce hevent hlives.1
  have : Std.Symm fun d d' : Delivery => d.eventId = d'.eventId → ¬ (d.Live ∧ d'.Live) :=
    ⟨fun _ _ hR hevent hlives => hR hevent.symm hlives.symm⟩
  exact hpair.forall hd hd' hne hevent ⟨hlive, hlive'⟩

theorem Sound.outbox (h : Sound s) {store : Store} (hquota : store.quota = s.store.quota)
    (hknown : ∀ e, (s.store.outbox e).isSome → (store.outbox e).isSome)
    (hpending : ∀ d ∈ s.deliveries, d.Live → ∀ item ∈ store.outbox d.eventId,
      item.status ≠ .pending)
    (hsending : ∀ e, s.store.Sending e → store.Sending e) :
    Sound { s with store } where
  known d hd := hknown _ (h.known d hd)
  once := h.once
  pending := hpending
  inFlight d hd hnone := (h.inFlight d hd hnone).imp_right (hsending _)
  silent := h.silent
  claimed_le := h.claimed_le
  owner r q hq := h.owner r q (hquota ▸ hq)
  free r q hq := h.free r q (hquota ▸ hq)
  counts d hd hcounts := by
    obtain ⟨q, hq, hle⟩ := h.counts d hd hcounts
    exact ⟨q, hquota ▸ hq, hle⟩
  gap := h.gap.imp fun hR hrecipient hcounts => by
    refine (hR hrecipient hcounts).imp_right fun hnot howns => hnot ?_
    unfold Delivery.Owns at howns ⊢
    rwa [hquota] at howns

theorem Sound.enqueue (h : Sound s) (eventId text : String) (expiresAt now : ℚ) (isTest : Bool) :
    Sound { s with store := s.store.enqueue eventId text expiresAt now isTest } := by
  unfold Store.enqueue
  cases hitem : s.store.outbox eventId with
  | some item => exact h
  | none =>
    have hother : ∀ e, (s.store.outbox e).isSome → e ≠ eventId := by
      rintro e he rfl
      rw [hitem] at he
      cases he
    refine h.outbox rfl (fun e he => ?_) (fun d hd hlive item hit => ?_) fun e he => ?_
    · show (Function.update s.store.outbox eventId _ e).isSome
      rwa [update_of_ne (hother e he)]
    · replace hit : item ∈ Function.update s.store.outbox eventId _ d.eventId := hit
      rw [update_of_ne (hother _ (h.known d hd))] at hit
      exact h.pending d hd hlive item hit
    · obtain ⟨item, hit, hstatus⟩ := he
      refine ⟨item, ?_, hstatus⟩
      show item ∈ Function.update s.store.outbox eventId _ e
      rwa [update_of_ne (hother e (by rw [mem_def.mp hit]; rfl))]

theorem Item.expire_status (now : ℚ) (item : Item) :
    (item.expire now).status = .pending → item.status = .pending := by
  unfold Item.expire
  split_ifs with h
  · exact fun _ => h.1
  · exact id

theorem Item.expire_sending {now : ℚ} {item : Item} (h : item.status = .sending) :
    (item.expire now).status = .sending := by
  unfold Item.expire
  rw [if_neg fun hpending => by rw [h] at hpending; cases hpending.1]
  exact h

theorem Sound.expire (h : Sound s) (now : ℚ) : Sound { s with store := s.store.expire now } := by
  refine h.outbox rfl (fun e he => ?_) (fun d hd hlive item hit => ?_) fun e he => ?_
  · show ((s.store.outbox e).map _).isSome
    rwa [isSome_map]
  · obtain ⟨item', hit', rfl⟩ := map_eq_some_iff.mp hit
    exact fun hpending => h.pending d hd hlive item' hit' (item'.expire_status now hpending)
  · obtain ⟨item, hit, hstatus⟩ := he
    refine ⟨item.expire now, ?_, Item.expire_sending hstatus⟩
    show ((s.store.outbox e).map _) = _
    rw [mem_def.mp hit]
    rfl

end Steps

/-! ## Claims -/

section Claims

variable {s : System} {d : Delivery} {now : ℚ} {recipientKey : String} {eventId : String}
  {store : Store} {strategyVersion : Option String}

theorem claim_eq {store' : Store}
    (h : store.claim eventId recipientKey now strategyVersion = (true, store')) :
    ∃ item, store.outbox eventId = some item ∧ item.status = .pending ∧
      (∀ q ∈ store.quota recipientKey, q.Free now) ∧
      store' = { store with
        quota := Function.update store.quota recipientKey
          (some (Quota.claimed (store.quota recipientKey) eventId now))
        outbox := Function.update store.outbox eventId
          (some { item with status := .sending, attempts := item.attempts + 1 }) } := by
  unfold Store.claim at h
  cases hitem : store.outbox eventId with
  | none =>
    rw [hitem] at h
    cases (Prod.mk.inj h).1
  | some item =>
    simp only [hitem] at h
    split_ifs at h with hclaim
    · exact ⟨item, rfl, hclaim.1.1, hclaim.2, (Prod.mk.inj h).2.symm⟩
    · cases (Prod.mk.inj h).1

/-- What another delivery of the recipient is left with by a claim. -/
theorem Sound.le_of_free (h : Sound s) (hfree : ∀ q ∈ s.store.quota recipientKey, q.Free now)
    (hd : d ∈ s.deliveries) (hcounts : d.Counts) (hrecipient : d.recipientKey = recipientKey)
    (eventId : String) : d.countedAt + 3600 ≤ now ∧ d.countedAt + 3600
        ≤ (Quota.claimed (s.store.quota recipientKey) eventId now).previousAllowedAt := by
  obtain ⟨q, hq, hle, _⟩ := h.counts d hd hcounts
  rw [hrecipient] at hq
  refine ⟨hle.trans (hfree q hq).1, ?_⟩
  rw [mem_def.mp hq]
  exact hle

theorem Sound.claim (h : Sound s)
    (hclaim : s.store.claim eventId recipientKey now strategyVersion = (true, store)) :
    Sound ⟨store, s.deliveries ++ [⟨eventId, recipientKey, now, now, none, false⟩]⟩ := by
  obtain ⟨item, hitem, hpending, hfree, rfl⟩ := claim_eq hclaim
  have hother : ∀ d ∈ s.deliveries, d.Live → d.eventId ≠ eventId := by
    rintro d hd hlive rfl
    exact h.pending d hd hlive item hitem hpending
  have howns : ∀ d ∈ s.deliveries, d.Counts → d.recipientKey = recipientKey →
      some eventId ≠ some d.eventId := fun d hd hcounts _ hevent =>
    hother d hd hcounts.live (some.inj hevent).symm
  refine ⟨fun d hd => ?_, ?_, fun d hd hlive => ?_, fun d hd hnone => ?_, fun d hd hsilent => ?_,
    fun d hd => ?_, fun r q hq e he => ?_, fun r q hq => ?_, fun d hd hcounts => ?_, ?_⟩
  · show (Function.update s.store.outbox eventId _ d.eventId).isSome
    rw [update_apply]
    split_ifs with heq
    · rfl
    · rcases mem_append.mp hd with hold | hnew
      · exact h.known d hold
      · exact absurd (mem_singleton.mp hnew ▸ rfl) heq
  · refine pairwise_append.mpr ⟨h.once, pairwise_singleton _ _, fun d hd d' hd' => ?_⟩
    rw [mem_singleton.mp hd']
    exact fun hevent hlive => hother d hd hlive hevent
  · show ∀ item' ∈ Function.update s.store.outbox eventId _ d.eventId, _
    rcases mem_append.mp hd with hold | hnew
    · rw [update_of_ne (hother d hold hlive)]
      exact h.pending d hold hlive
    · obtain rfl := mem_singleton.mp hnew
      intro item' hitem'
      rw [update_self] at hitem'
      rw [← some.inj (mem_def.mp hitem')]
      exact fun hstatus => by cases hstatus
  · rcases mem_append.mp hd with hold | hnew
    · obtain ⟨hsilent, item', hitem', hstatus⟩ := h.inFlight d hold hnone
      refine ⟨hsilent, item', ?_, hstatus⟩
      show item' ∈ Function.update s.store.outbox eventId _ d.eventId
      rwa [update_of_ne (hother d hold (Delivery.live_of_silent hsilent))]
    · obtain rfl := mem_singleton.mp hnew
      exact ⟨rfl, _, update_self .., rfl⟩
  · rcases mem_append.mp hd with hold | hnew
    · exact h.silent d hold hsilent
    · exact .inl (mem_singleton.mp hnew ▸ rfl)
  · rcases mem_append.mp hd with hold | hnew
    · exact h.claimed_le d hold
    · rw [mem_singleton.mp hnew]
  · replace hq : q ∈ Function.update s.store.quota recipientKey _ r := hq
    rw [update_apply] at hq
    split_ifs at hq with hr
    · rw [← some.inj (mem_def.mp hq)] at he
      exact ⟨_, mem_append_right _ (mem_singleton_self _), hr.symm, some.inj he, .inl rfl⟩
    · obtain ⟨d, hd, howner⟩ := h.owner r q hq e he
      exact ⟨d, mem_append_left _ hd, howner⟩
  · replace hq : q ∈ Function.update s.store.quota recipientKey _ r := hq
    rw [update_apply] at hq
    split_ifs at hq with hr
    · rw [← some.inj (mem_def.mp hq)]
      refine ⟨?_, fun hnone => by cases hnone⟩
      show ((s.store.quota recipientKey).map _).getD 0 ≤ max 0 now
      cases hquota : s.store.quota recipientKey with
      | none => exact le_max_left 0 now
      | some q' => exact ((hfree q' hquota).1).trans (le_max_right 0 now)
    · exact h.free r q hq
  · rcases mem_append.mp hd with hold | hnew
    · by_cases hr : d.recipientKey = recipientKey
      · obtain ⟨hle, hprevious⟩ := h.le_of_free hfree hold hcounts hr eventId
        refine ⟨Quota.claimed (s.store.quota recipientKey) eventId now, ?_, ?_, fun _ => hprevious⟩
        · show _ ∈ Function.update s.store.quota recipientKey _ d.recipientKey
          rw [hr, update_self]
          rfl
        · show d.countedAt + 3600 ≤ now + 3600
          linarith
      · obtain ⟨q, hq, hle⟩ := h.counts d hold hcounts
        refine ⟨q, ?_, hle⟩
        show q ∈ Function.update s.store.quota recipientKey _ d.recipientKey
        rwa [update_of_ne hr]
    · obtain rfl := mem_singleton.mp hnew
      exact ⟨_, update_self .., le_rfl, fun hne => absurd rfl hne⟩
  · have hnot : ∀ d ∈ s.deliveries, d.Counts → ¬ d.Owns s.store → ¬ d.Owns { s.store with
        quota := Function.update s.store.quota recipientKey
          (some (Quota.claimed (s.store.quota recipientKey) eventId now))
        outbox := Function.update s.store.outbox eventId
          (some { item with status := .sending, attempts := item.attempts + 1 }) } := by
      rintro d hd hcounts hnot ⟨q, hq, howner⟩
      replace hq : q ∈ Function.update s.store.quota recipientKey _ d.recipientKey := hq
      rw [update_apply] at hq
      split_ifs at hq with hr
      · rw [← some.inj (mem_def.mp hq)] at howner
        exact howns d hd hcounts hr howner
      · exact hnot ⟨q, hq, howner⟩
    refine pairwise_append.mpr ⟨?_, pairwise_singleton _ _, fun d hd d' hd' => ?_⟩
    · refine h.gap.imp_of_mem fun hd _ hR hrecipient hcounts => ?_
      exact (hR hrecipient hcounts).imp_right (hnot _ hd hcounts)
    · rw [mem_singleton.mp hd']
      intro hrecipient hcounts
      refine ⟨(h.le_of_free hfree hd hcounts hrecipient eventId).1, ?_⟩
      rintro ⟨q, hq, howner⟩
      replace hq : q ∈ Function.update s.store.quota recipientKey _ d.recipientKey := hq
      replace hrecipient : d.recipientKey = recipientKey := hrecipient
      rw [hrecipient, update_self] at hq
      rw [← some.inj (mem_def.mp hq)] at howner
      exact howns d hd hcounts hrecipient howner

end Claims

/-! ## Outcomes -/

section Outcomes

variable {s : System} {d : Delivery} {q q' : Quota} {eventId : String} {now : ℚ}
  {status : SendStatus}

theorem Quota.settle_of_ne (h : q.owner ≠ some eventId) :
    q.settle eventId now status = q := if_neg h

variable {e : String}

theorem Quota.owner_settle (h : (q.settle eventId now status).owner = some e) :
    q.owner = some e := by
  unfold Quota.settle at h
  split_ifs at h
  · exact h
  · cases h
  · exact h

/-- What was put away for an hour is not touched by an outcome. -/
theorem Quota.settle_free (h : q.previousAllowedAt ≤ max 0 q.lastSeenAt ∧
      (q.owner = none → q.nextAllowedAt ≤ max 0 q.lastSeenAt)) :
    (q.settle eventId now status).previousAllowedAt ≤ max 0 (q.settle eventId now status).lastSeenAt
      ∧ ((q.settle eventId now status).owner = none → (q.settle eventId now status).nextAllowedAt
          ≤ max 0 (q.settle eventId now status).lastSeenAt) := by
  have hseen : max 0 q.lastSeenAt ≤ max 0 (max q.lastSeenAt now) :=
    max_le_max le_rfl (le_max_left _ _)
  unfold Quota.settle
  split_ifs with howner
  · exact ⟨h.1.trans hseen, fun hnone => by rw [Quota.extend, howner] at hnone; cases hnone⟩
  · exact ⟨h.1.trans hseen, fun _ => h.1.trans hseen⟩
  · exact h

/-- The outcome of one delivery leaves another its hour. -/
theorem Quota.settle_le {t : ℚ} (hne : e ≠ eventId) (hnext : t ≤ q.nextAllowedAt)
    (hprevious : q.owner ≠ some e → t ≤ q.previousAllowedAt) :
    t ≤ (q.settle eventId now status).nextAllowedAt ∧
      ((q.settle eventId now status).owner ≠ some e →
        t ≤ (q.settle eventId now status).previousAllowedAt) := by
  unfold Quota.settle
  split_ifs with howner
  · have hother : q.owner ≠ some e := fun h => hne (some.inj (h.symm.trans howner))
    exact ⟨hnext.trans (le_max_left _ _), fun _ => hprevious hother⟩
  · have hother : q.owner ≠ some e := fun h => hne (some.inj (h.symm.trans howner))
    exact ⟨hprevious hother, fun _ => hprevious hother⟩
  · exact ⟨hnext, hprevious⟩

theorem consumes_iff :
    status.consumes ↔ some status = some SendStatus.accepted ∨ some status = some .unknown := by
  cases status <;> simp [SendStatus.consumes]

/-- A delivery that has not reported, as the report of its event finds it. -/
def Delivery.IsFor (eventId : String) (d : Delivery) : Prop :=
  d.eventId = eventId ∧ d.reported = false
deriving Decidable

/-- A delivery after the report of an event. -/
def Delivery.settle (eventId : String) (store : Store) (now : ℚ) (status : SendStatus)
    (d : Delivery) : Delivery :=
  if d.IsFor eventId then d.report store now status else d

theorem Delivery.le_counted (store : Store) (now : ℚ) (d : Delivery) :
    d.countedAt ≤ d.counted store now := by
  unfold Delivery.counted
  split_ifs
  · exact le_max_left _ _
  · exact le_rfl

variable {store : Store}

theorem Delivery.counted_of_not_owns (h : ¬ d.Owns store) :
    d.counted store now = d.countedAt := if_neg h

/-- **What an outcome or a recovery leaves of a delivery**: what was claimed, and its clock where
it does not own the hour. -/
structure Settles (store : Store) (now : ℚ) (f : Delivery → Delivery) : Prop where
  eventId : ∀ d, (f d).eventId = d.eventId
  recipientKey : ∀ d, (f d).recipientKey = d.recipientKey
  claimedAt : ∀ d, (f d).claimedAt = d.claimedAt
  countedAt : ∀ d, (f d).countedAt = d.countedAt ∨ (f d).countedAt = d.counted store now
  live : ∀ d, (f d).Live → d.Live

variable {f : Delivery → Delivery}

theorem Settles.le (hf : Settles store now f) (d : Delivery) : d.countedAt ≤ (f d).countedAt := by
  rcases hf.countedAt d with heq | heq <;> rw [heq]
  exact d.le_counted store now

theorem Settles.same (hf : Settles store now f) (h : ¬ d.Owns store) :
    (f d).countedAt = d.countedAt := by
  rcases hf.countedAt d with heq | heq
  · exact heq
  · rw [heq, Delivery.counted_of_not_owns h]

theorem settles_settle (eventId : String) (store : Store) (now : ℚ) (status : SendStatus) :
    Settles store now (·.settle eventId store now status) := by
  refine ⟨fun d => ?_, fun d => ?_, fun d => ?_, fun d => ?_, fun d h => ?_⟩ <;>
    unfold Delivery.settle at * <;> split_ifs at * with hfor
  all_goals
    first | rfl | exact .inr rfl | exact .inl rfl | exact h | exact Delivery.live_of_silent hfor.2

/-- **The rule for outcomes and recoveries**: of all deliveries and hours at once. -/
theorem Sound.map (h : Sound s) (hf : Settles s.store now f) {g : Quota → Quota} {store : Store}
    (hquota : store.quota = fun r => (s.store.quota r).map g)
    (howner : ∀ q e, (g q).owner = some e → q.owner = some e)
    (hcounts : ∀ d ∈ s.deliveries, (f d).Counts → d.Counts)
    (hknown : ∀ e, (s.store.outbox e).isSome → (store.outbox e).isSome)
    (hpending : ∀ d ∈ s.deliveries, (f d).Live →
      ∀ item ∈ store.outbox d.eventId, item.status ≠ .pending)
    (hinFlight : ∀ d ∈ s.deliveries, (f d).outcome = none → (f d).reported = false ∧
      store.Sending d.eventId)
    (hsilent : ∀ d ∈ s.deliveries, (f d).reported = false → (f d).outcome = none ∨ (f d).outcome =
      some .unknown)
    (htaken : ∀ d ∈ s.deliveries, d.Counts → ∀ q ∈ s.store.quota d.recipientKey, (g q).owner =
      some d.eventId → (f d).Counts)
    (hfree : ∀ r, ∀ q ∈ s.store.quota r, (g q).previousAllowedAt ≤ max 0 (g q).lastSeenAt ∧
      ((g q).owner = none → (g q).nextAllowedAt ≤ max 0 (g q).lastSeenAt))
    (hnext : ∀ d ∈ s.deliveries, (f d).Counts →
      ∀ q ∈ s.store.quota d.recipientKey, d.countedAt + 3600 ≤ q.nextAllowedAt →
      (q.owner ≠ some d.eventId → d.countedAt + 3600 ≤ q.previousAllowedAt) →
      (f d).countedAt + 3600 ≤ (g q).nextAllowedAt ∧ ((g q).owner ≠ some d.eventId →
      (f d).countedAt + 3600 ≤ (g q).previousAllowedAt))
    : Sound ⟨store, s.deliveries.map f⟩ where
  known := forall_mem_map.mpr fun d hd => by
    rw [hf.eventId]
    exact hknown _ (h.known d hd)
  once := pairwise_map.mpr (h.once.imp fun honce hevent hlive => by
    rw [hf.eventId, hf.eventId] at hevent
    exact honce hevent (hf.live _ hlive))
  pending := forall_mem_map.mpr fun d hd hlive => by
    rw [hf.eventId]
    exact hpending d hd hlive
  inFlight := forall_mem_map.mpr fun d hd hnone => by
    rw [hf.eventId]
    exact hinFlight d hd hnone
  silent := forall_mem_map.mpr hsilent
  claimed_le := forall_mem_map.mpr fun d hd => by
    rw [hf.claimedAt]
    exact (h.claimed_le d hd).trans (hf.le d)
  owner r q' hq' e he := by
    rw [hquota] at hq'
    obtain ⟨q, hq, rfl⟩ := map_eq_some_iff.mp hq'
    obtain ⟨d, hd, rfl, rfl, hcounts⟩ := h.owner r q hq e (howner q e he)
    exact ⟨f d, mem_map_of_mem hd, hf.recipientKey d, hf.eventId d, htaken d hd hcounts q hq he⟩
  free r q' hq' := by
    rw [hquota] at hq'
    obtain ⟨q, hq, rfl⟩ := map_eq_some_iff.mp hq'
    exact hfree r q hq
  counts := forall_mem_map.mpr fun d hd hcount => by
    obtain ⟨q, hq, hle, hprevious⟩ := h.counts d hd (hcounts d hd hcount)
    rw [hf.recipientKey, hf.eventId, hquota]
    exact ⟨g q, map_eq_some_iff.mpr ⟨q, hq, rfl⟩, hnext d hd hcount q hq hle hprevious⟩
  gap := pairwise_map.mpr (h.gap.imp_of_mem fun hd _ hR hrecipient hcount => by
    rw [hf.recipientKey, hf.recipientKey] at hrecipient
    obtain ⟨hle, hnot⟩ := hR hrecipient (hcounts _ hd hcount)
    rw [hf.claimedAt, hf.same hnot]
    refine ⟨hle, ?_⟩
    rintro ⟨q', hq', he⟩
    rw [hf.recipientKey, hquota] at hq'
    rw [hf.eventId] at he
    obtain ⟨q, hq, rfl⟩ := map_eq_some_iff.mp (mem_def.mp hq')
    exact hnot ⟨q, hq, howner q _ he⟩)

/-- What takes its hour after the report took it before. -/
theorem Sound.counts_of_settle (h : Sound s) (hd : d ∈ s.deliveries)
    (hcounts : (d.settle eventId store now status).Counts) : d.Counts := by
  unfold Delivery.settle at hcounts
  split_ifs at hcounts with hfor
  · rcases h.silent d hd hfor.2 with hnone | hunknown
    · exact .inl hnone
    · exact .inr (.inr hunknown)
  · exact hcounts

/-- **A report**, of the delivery that has not reported for its event. -/
theorem Sound.report (h : Sound s) {d₀ : Delivery} (hd₀ : d₀ ∈ s.deliveries)
    (hfor : d₀.IsFor eventId) (now : ℚ) (o : Outcome) : Sound ⟨{ s.store with
        outbox := Function.update s.store.outbox eventId ((s.store.outbox eventId).map (·.settle o))
        quota := Function.update s.store.quota d₀.recipientKey
          ((s.store.quota d₀.recipientKey).map (·.settle eventId now o.status)) },
      s.deliveries.map (·.settle eventId s.store now o.status)⟩ := by
  have honly : ∀ d ∈ s.deliveries, d.eventId = eventId → d.Live → d = d₀ := fun d hd hevent hlive =>
    h.eq_of_live hd hd₀ hlive (Delivery.live_of_silent hfor.2) (hevent.trans hfor.1.symm)
  -- no other hour is owned by the event, so that all hours may be settled
  have hquota : Function.update s.store.quota d₀.recipientKey
      ((s.store.quota d₀.recipientKey).map (·.settle eventId now o.status))
      = fun r => (s.store.quota r).map (·.settle eventId now o.status) := by
    funext r
    rw [update_apply]
    split_ifs with hr
    · rw [hr]
    · cases hq : s.store.quota r with
      | none => rfl
      | some q =>
        refine congrArg some (Quota.settle_of_ne fun howner => ?_).symm
        obtain ⟨d, hd, hrecipient, hevent, hcounts⟩ := h.owner r q hq eventId howner
        exact hr ((honly d hd hevent hcounts.live) ▸ hrecipient.symm)
  rw [hquota]
  have houtbox : ∀ e, e ≠ eventId → Function.update s.store.outbox eventId
      ((s.store.outbox eventId).map (·.settle o)) e = s.store.outbox e :=
    fun e hne => update_of_ne hne _ _
  have hsettled : ∀ d : Delivery, ¬ d.IsFor eventId → d.settle eventId s.store now o.status = d :=
    fun d hnot => if_neg hnot
  refine h.map (settles_settle eventId s.store now o.status) rfl (fun _ _ => Quota.owner_settle)
    (fun d hd => h.counts_of_settle hd) (fun e he => ?_) (fun d hd hlive item hitem => ?_)
    (fun d hd hnone => ?_) (fun d hd hsilent => ?_) (fun d hd hcounts q hq he => ?_)
    (fun r q hq => Quota.settle_free (h.free r q hq)) fun d hd hcounts q hq hnext hprevious => ?_
  · show (update s.store.outbox eventId _ e).isSome
    rw [update_apply]
    split_ifs with hevent
    · rw [Option.isSome_map, ← hevent]
      exact he
    · exact he
  · replace hitem : item ∈ update s.store.outbox eventId _ d.eventId := hitem
    by_cases hevent : d.eventId = eventId
    · obtain rfl := honly d hd hevent ((settles_settle ..).live d hlive)
      rw [hevent, update_self] at hitem
      obtain ⟨item', _, rfl⟩ := map_eq_some_iff.mp (mem_def.mp hitem)
      intro hpending
      unfold Delivery.settle at hlive
      rw [if_pos hfor] at hlive
      exact hlive ⟨rfl, congrArg some hpending⟩
    · rw [houtbox _ hevent] at hitem
      exact h.pending d hd ((settles_settle ..).live d hlive) item hitem
  · by_cases hd₀ : d.IsFor eventId
    · unfold Delivery.settle at hnone
      rw [if_pos hd₀] at hnone
      cases hnone
    · rw [hsettled d hd₀] at hnone ⊢
      obtain ⟨hsilent, item, hitem, hsending⟩ := h.inFlight d hd hnone
      refine ⟨hsilent, item, ?_, hsending⟩
      show item ∈ update s.store.outbox eventId _ d.eventId
      rwa [houtbox _ fun hevent => hd₀ ⟨hevent, hsilent⟩]
  · by_cases hd₀ : d.IsFor eventId
    · unfold Delivery.settle at hsilent
      rw [if_pos hd₀] at hsilent
      cases hsilent
    · rw [hsettled d hd₀] at hsilent ⊢
      exact h.silent d hd hsilent
  · unfold Delivery.settle
    split_ifs with hd₀
    · have howner : q.owner = some eventId :=
        (Quota.owner_settle he).trans (congrArg some hd₀.1)
      unfold Quota.settle at he
      rw [if_pos howner] at he
      split_ifs at he with hconsumes
      · exact .inr (consumes_iff.mp hconsumes)
      · cases he
    · exact hcounts
  · have hbefore := h.counts_of_settle hd hcounts
    unfold Delivery.settle at hcounts ⊢
    split_ifs at hcounts ⊢ with hd₀
    · have hconsumes : o.status.consumes := consumes_iff.mpr (hcounts.resolve_left nofun)
      show d.counted s.store now + 3600 ≤ _ ∧ (_ → d.counted s.store now + 3600 ≤ _)
      by_cases howner : q.owner = some eventId
      · have howns : d.Owns s.store := ⟨q, hq, hd₀.1 ▸ howner⟩
        unfold Delivery.counted Quota.settle
        rw [if_pos howns, if_pos howner, if_pos hconsumes]
        refine ⟨?_, fun hne => absurd howner (hd₀.1 ▸ hne)⟩
        show max d.countedAt now + 3600 ≤ max q.nextAllowedAt (now + 3600)
        rw [← max_add_add_right]
        exact max_le_max hnext le_rfl
      · have hnot : ¬ d.Owns s.store := by
          rintro ⟨q', hq', howner'⟩
          obtain rfl := mem_unique hq hq'
          exact howner (hd₀.1 ▸ howner')
        rw [Delivery.counted_of_not_owns hnot, Quota.settle_of_ne howner]
        exact ⟨hnext, hprevious⟩
    · by_cases hevent : d.eventId = eventId
      · exact absurd ((honly d hd hevent hbefore.live) ▸ hfor) hd₀
      · exact Quota.settle_le hevent hnext hprevious

end Outcomes

/-! ## Runs -/

section Runs

variable {s : System} {d : Delivery} {now : ℚ} {store : Store}

/-- What `sent` does where it returns. -/
theorem sent_eq {eventId recipientKey : String} {o : Outcome} {store' : Store}
    (h : store.sent eventId recipientKey now o = .ok store') : store' = { store with
      outbox := Function.update store.outbox eventId ((store.outbox eventId).map (·.settle o))
      quota := Function.update store.quota recipientKey
        ((store.quota recipientKey).map (·.settle eventId now o.status)) } :=
  (ok.inj (of_raiseIf h).2).symm

theorem Sound.sent (h : Sound s) (eventId : String) (now : ℚ) (o : Outcome) :
    Sound (s.sent eventId now o) := by
  unfold System.sent
  cases hfind : s.deliveries.find? fun d => d.eventId = eventId ∧ d.reported = false with
  | none => exact h
  | some d =>
    have hfor : d.eventId = eventId ∧ d.reported = false := by
      simpa using find?_some hfind
    cases hsent : s.store.sent eventId d.recipientKey now o with
    | error e => simpa only [hsent] using h
    | ok store =>
      simp only [hsent]
      rw [sent_eq hsent]
      exact h.report (mem_of_find?_eq_some hfind) hfor now o

/-- **An item that is dropped** owns no hour. -/
theorem Sound.drop (h : Sound s) (eventId recipientKey : String) (now : ℚ) (o : Outcome) :
    Sound { s with store := s.store.drop eventId recipientKey now o } := by
  unfold Store.drop
  cases hitem : s.store.outbox eventId with
  | none => exact h
  | some item =>
    by_cases hpending : item.status = .pending
    · cases hsent : s.store.sent eventId recipientKey now o with
      | error e =>
        simp only [if_pos hpending]
        exact h
      | ok store =>
        simp only [if_pos hpending]
        have hnone : ∀ d ∈ s.deliveries, d.Live → d.eventId ≠ eventId := by
          rintro d hd hlive rfl
          exact h.pending d hd hlive item hitem hpending
        rw [sent_eq hsent]
        refine h.outbox ?_ (fun e he => ?_) (fun d hd hlive => ?_) fun e he => ?_
        · funext r
          show Function.update s.store.quota recipientKey _ r = _
          rw [update_apply]
          split_ifs with hr
          · rw [hr]
            cases hq : s.store.quota recipientKey with
            | none => rfl
            | some q =>
              refine congrArg some (Quota.settle_of_ne fun howner => ?_)
              obtain ⟨d, hd, _, hevent, hcounts⟩ := h.owner recipientKey q hq eventId howner
              exact hnone d hd hcounts.live hevent
          · rfl
        · show (Function.update s.store.outbox eventId _ e).isSome
          rw [update_apply]
          split_ifs with heq
          · rw [isSome_map, ← heq]
            exact he
          · exact he
        · show ∀ item ∈ Function.update s.store.outbox eventId _ d.eventId, _
          rw [update_of_ne (hnone d hd hlive)]
          exact h.pending d hd hlive
        · obtain ⟨item', hitem', hsending⟩ := he
          refine ⟨item', ?_, hsending⟩
          show item' ∈ Function.update s.store.outbox eventId _ e
          rw [update_of_ne]
          · exact hitem'
          · rintro rfl
            obtain rfl := mem_unique hitem hitem'
            rw [hpending] at hsending
            cases hsending
    · simp only [if_neg hpending]
      exact h

theorem Delivery.recover_reported (store : Store) (now : ℚ) (d : Delivery) :
    (d.recover store now).reported = d.reported := by
  unfold Delivery.recover
  split_ifs <;> rfl

theorem Delivery.counts_recover : (d.recover store now).Counts ↔ d.Counts := by
  unfold Delivery.recover
  split_ifs with hnone
  · exact ⟨fun _ => .inl hnone, fun _ => .inr (.inr rfl)⟩
  · exact Iff.rfl

theorem Delivery.live_of_recover (h : (d.recover store now).Live) : d.Live := by
  rintro ⟨hreported, hpending⟩
  refine h ⟨(Delivery.recover_reported store now d).trans hreported, ?_⟩
  unfold Delivery.recover
  rw [if_neg fun hnone => by rw [hnone] at hpending; cases hpending]
  exact hpending

variable (store)

theorem settles_recover (now : ℚ) : Settles store now (·.recover store now) := by
  refine ⟨fun d => ?_, fun d => ?_, fun d => ?_, fun d => ?_, fun _ => Delivery.live_of_recover⟩ <;>
    unfold Delivery.recover <;> split_ifs
  all_goals first | rfl | exact .inr rfl | exact .inl rfl

theorem Item.recover_status {item : Item} (h : (item.recover now).status = .pending) :
    item.status = .pending := by
  unfold Item.recover at h
  by_cases hsending : item.status = .sending
  · rw [if_pos hsending] at h
    cases h
  · rw [if_neg hsending] at h
    exact item.expire_status now h

theorem Quota.owner_recover (now : ℚ) (q : Quota) : (q.recover store now).owner = q.owner := by
  unfold Quota.recover
  split_ifs <;> rfl

theorem Quota.previousAllowedAt_recover (now : ℚ) (q : Quota) :
    (q.recover store now).previousAllowedAt = q.previousAllowedAt := by
  unfold Quota.recover
  split_ifs <;> rfl

theorem Quota.le_recover (now : ℚ) (q : Quota) :
    q.nextAllowedAt ≤ (q.recover store now).nextAllowedAt ∧
      q.lastSeenAt ≤ (q.recover store now).lastSeenAt := by
  unfold Quota.recover
  split_ifs
  · exact ⟨le_max_left _ _, le_max_left _ _⟩
  · exact ⟨le_rfl, le_rfl⟩

/-- **A recovery.** -/
theorem Sound.recover (h : Sound s) (now : ℚ) :
    Sound ⟨s.store.recover now, s.deliveries.map (·.recover s.store now)⟩ := by
  refine h.map (settles_recover s.store now) rfl (fun q e he => (q.owner_recover s.store now) ▸ he)
    (fun d _ => Delivery.counts_recover.mp) (fun e he => ?_)
    (fun d hd hlive item hitem hpending => ?_)
    (fun d hd hnone => ?_) (fun d hd hsilent => ?_)
    (fun d _ hcounts _ _ _ => Delivery.counts_recover.mpr hcounts) (fun r q hq => ?_)
    fun d hd _ q hq hnext hprevious => ?_
  · show ((s.store.outbox e).map _).isSome
    rwa [Option.isSome_map]
  · obtain ⟨item', hitem', rfl⟩ := map_eq_some_iff.mp (mem_def.mp hitem)
    exact h.pending d hd (Delivery.live_of_recover hlive) item' hitem'
      (Item.recover_status hpending)
  · unfold Delivery.recover at hnone
    by_cases hout : d.outcome = none
    · rw [if_pos hout] at hnone
      cases hnone
    · rw [if_neg hout] at hnone
      exact absurd hnone hout
  · rw [Delivery.recover_reported] at hsilent
    unfold Delivery.recover
    split_ifs
    · exact .inr rfl
    · exact h.silent d hd hsilent
  · obtain ⟨hprevious, hfree⟩ := h.free r q hq
    have hseen : max 0 q.lastSeenAt ≤ max 0 (q.recover s.store now).lastSeenAt :=
      max_le_max le_rfl (q.le_recover s.store now).2
    rw [Quota.owner_recover, Quota.previousAllowedAt_recover]
    refine ⟨hprevious.trans hseen, fun hnone => ?_⟩
    have hsame : q.recover s.store now = q := if_neg fun ⟨e, he, _⟩ => by rw [hnone] at he; cases he
    rw [hsame]
    exact hfree hnone
  · rw [Quota.owner_recover, Quota.previousAllowedAt_recover]
    unfold Delivery.recover
    split_ifs with hnone
    · show d.counted s.store now + 3600 ≤ _ ∧ (_ → d.counted s.store now + 3600 ≤ _)
      by_cases howns : d.Owns s.store
      · obtain ⟨q', hq', howner⟩ := howns
        obtain rfl := mem_unique hq hq'
        refine ⟨?_, fun hne => absurd howner hne⟩
        have hextend : q.recover s.store now = q.extend now :=
          if_pos ⟨d.eventId, howner, (h.inFlight d hd hnone).2⟩
        rw [hextend, Delivery.counted, if_pos ⟨q, hq, howner⟩]
        show max d.countedAt now + 3600 ≤ max q.nextAllowedAt (now + 3600)
        rw [← max_add_add_right]
        exact max_le_max hnext le_rfl
      · rw [Delivery.counted_of_not_owns howns]
        exact ⟨hnext.trans (q.le_recover s.store now).1, hprevious⟩
    · exact ⟨hnext.trans (q.le_recover s.store now).1, hprevious⟩

variable {store}

theorem Sound.step (h : Sound s) (l : Label) : Sound (step s l) := by
  cases l with
  | enqueue eventId text expiresAt now isTest => exact h.enqueue eventId text expiresAt now isTest
  | setPolicy policy =>
    exact h.outbox rfl (fun _ he => he) (fun d hd hlive => h.pending d hd hlive) fun _ he => he
  | expire now => exact h.expire now
  | claim eventId recipientKey now strategyVersion =>
    show Sound (s.claim eventId recipientKey now strategyVersion)
    unfold System.claim
    split
    · next store hclaim => exact h.claim hclaim
    · exact h
  | sent eventId now o => exact h.sent eventId now o
  | drop eventId recipientKey now o => exact h.drop eventId recipientKey now o
  | recover now => exact h.recover now

theorem sound_after (policy : Policy) (ls : List Label) : Sound (after policy ls) :=
  Machine.inv_run Sound (fun _ l h => h.step l)
    ⟨fun _ h => (by cases h), .nil, fun _ h => (by cases h), fun _ h => (by cases h),
      fun _ h => (by cases h), fun _ h => (by cases h), fun _ _ h => (by cases h),
      fun _ _ h => (by cases h), fun _ h => (by cases h), .nil⟩ ls

end Runs

/-- **The hourly quota**, over every interleaving of claims, outcomes and recoveries.

Of two deliveries to one recipient that take their hour, the later was claimed an hour
after the claim of the earlier, and an hour after its outcome if that found the hour still
its own. An hour runs only for a delivery that takes it, so that one that failed or is to
be sent again has given it back. And no two deliveries of an event are accepted. -/
theorem alert_quota (policy : Policy) (ls : List Label) :
    ((after policy ls).deliveries.Pairwise fun d d' =>
        d.recipientKey = d'.recipientKey → d.Counts → d'.Counts →
          d.claimedAt + 3600 ≤ d'.claimedAt ∧ d.countedAt + 3600 ≤ d'.claimedAt) ∧
      (∀ r, ∀ q ∈ (after policy ls).store.quota r, max 0 q.lastSeenAt < q.nextAllowedAt →
        ∃ d ∈ (after policy ls).deliveries,
          d.recipientKey = r ∧ q.owner = some d.eventId ∧ d.Counts) ∧
      (after policy ls).deliveries.Pairwise fun d d' =>
        d.eventId = d'.eventId → ¬ (d.outcome = some .accepted ∧ d'.outcome = some .accepted) := by
  have h := sound_after policy ls
  refine ⟨?_, fun r q hq hlt => ?_, ?_⟩
  · refine h.gap.imp_of_mem fun hd _ hR hrecipient hcounts _ => ?_
    have hle := (hR hrecipient hcounts).1
    exact ⟨(add_le_add_left (h.claimed_le _ hd) 3600).trans hle, hle⟩
  · cases howner : q.owner with
    | none => exact absurd ((h.free r q hq).2 howner) (not_le.mpr hlt)
    | some e =>
      obtain ⟨d, hd, hrecipient, rfl, hcounts⟩ := h.owner r q hq e howner
      exact ⟨d, hd, hrecipient, rfl, hcounts⟩
  · refine h.once.imp fun honce hevent haccepted => honce hevent ?_
    exact Delivery.Counts.live (.inr (.inl haccepted.1))

end Qt.Alerts
