import QuantTrading.HubLedger

/-!
# The runs of the trading ledger

A step of the system writes to one order. That no order is sent twice rests on
the calls that are yet to send theirs: the order of such a call was neither sent
nor accounted, because the venue says nothing of an order that it was not sent
(`Trading.Inv`).
-/

namespace Qt

open Except List Table Machine

/-! ## What a step writes -/

/-- Writes to one order, one after the other. -/
abbrev Writes (c : TradingService) (A : TradeLedger → TradeRecord → TradeResult → Prop)
    (B : TradeLedger → TradeCall → Prop) (key : String) : TradeLedger → TradeLedger → Prop :=
  Relation.ReflTransGen (Write c A B key)

section Steps

variable {c : TradingService} {A : TradeLedger → TradeRecord → TradeResult → Prop}
  {B : TradeLedger → TradeCall → Prop} {key : String} {l l' : TradeLedger}

theorem TradeLedger.Sound.writes (h : l.Sound c) (hw : Writes c A B key l l') : l'.Sound c := by
  induction hw with
  | refl => exact h
  | tail _ hw ih => exact ih.write hw

variable {o : TradeOrder}

theorem Writes.kept (hw : Writes c A B key l l') {k : String} (ho : l.orders.find? k = some o) :
    ∃ o', l'.orders.find? k = some o' ∧ o'.record.intent = o.record.intent := by
  induction hw with
  | refl => exact ⟨o, ho, rfl⟩
  | tail _ hw ih =>
    obtain ⟨o₁, ho₁, hintent₁⟩ := ih
    obtain ⟨o₂, ho₂, hintent₂, -⟩ := hw.kept ho₁
    exact ⟨o₂, ho₂, hintent₂.trans hintent₁⟩

variable {e : TradeEvent}

theorem Writes.log (hw : Writes c A B key l l') (he : e ∈ l'.log) :
    e ∈ l.log ∨ e = .sent key ∨ e = .accounted key := by
  induction hw with
  | refl => exact .inl he
  | tail _ hw ih =>
    obtain ⟨es, hlog, hes⟩ := hw.log
    rw [hlog] at he
    exact (mem_append.mp he).elim ih (fun he => .inr (hes e he))

theorem Writes.log_subset (hw : Writes c A B key l l') (he : e ∈ l.log) : e ∈ l'.log := by
  induction hw with
  | refl => exact he
  | tail _ hw ih =>
    obtain ⟨es, hlog, -⟩ := hw.log
    rw [hlog]
    exact mem_append_left _ ih

/-- **What `_finish` writes.** -/
theorem TradeLedger.finish_writes {record record' : TradeRecord} {result : TradeResult}
    (ho : l.orders.find? key = some o) (hkey : record.intent.idempotencyKey = key)
    (hintent : record.intent = o.record.intent) (hrecord : record.accounted = false)
    (hA : o.record.accounted = false → (∀ s ∈ result.status, ¬ s.Open) → A l record result)
    (h : l.finish record result = .ok (record', l')) : Writes c A B key l l' := by
  subst hkey
  obtain ⟨status, hchecked, hcases⟩ := TradeLedger.finish_eq_ok ho h
  obtain ⟨-, rfl⟩ | ⟨hout, hopen, rfl⟩ | ⟨hout, hclosed, haccounted⟩ := hcases
  · exact .refl
  · exact .single (.save l _ o rfl ho hout hintent hopen hrecord)
  · refine .single (.account l l' record status result o rfl ho hout hintent hchecked hclosed
      haccounted (hA hout (fun s hs => ?_)))
    rw [hchecked.status] at hs
    cases hs
    exact hclosed

variable (venue : TradeVenue)

theorem TradingService.orders_openAccount : (c.openAccount venue l).orders = l.orders := by
  unfold TradingService.openAccount
  split_ifs <;> rfl

theorem TradingService.log_openAccount : (c.openAccount venue l).log = l.log := by
  unfold TradingService.openAccount
  split_ifs <;> rfl

theorem TradingService.openAccount_writes : Writes c A B key l (c.openAccount venue l) := by
  unfold TradingService.openAccount
  split_ifs with hpaper
  · exact .single (.fund l ⟨venue, 1000, 1000⟩ (by norm_num) rfl (fun _ => rfl))
  · exact .refl

variable {q : TradeCall}

/-- **What `_risk` lets through.** -/
theorem TradingService.risk_eq_ok (h : c.risk q l = .ok l') : l' = c.openAccount q.intent.venue l
      ∧ (∀ k o, l.orders.find? k = some o → ¬ o.record.status.Open)
      ∧ (∃ a, l'.accounts.find? q.intent.venue = some a)
      ∧ (q.intent.side = .buy →
        defaultAdd (defaultSum (l.bought q.day)) q.intent.reserve ≤ c.maxDailyQuote) := by
  obtain ⟨_, _, h⟩ := of_bind h
  obtain ⟨hopen, h⟩ := of_raiseIf h
  obtain ⟨_, h⟩ := of_raiseIf h
  obtain ⟨hdaily, h⟩ := of_raiseIf h
  dsimp only at h
  cases haccount : (c.openAccount q.intent.venue l).accounts.find? q.intent.venue with
  | none =>
    rw [haccount] at h
    cases h
  | some a =>
    rw [haccount] at h
    obtain ⟨_, h⟩ := of_raiseIf h
    obtain ⟨_, h⟩ := of_raiseIf h
    obtain ⟨_, h⟩ := of_raiseIf h
    cases h
    refine ⟨rfl, fun k o ho hk => hopen ⟨o, mem_of_find? ho, hk⟩, ⟨a, haccount⟩, fun hbuy => ?_⟩
    exact not_lt.mp (fun hlt => hdaily ⟨hbuy, hlt⟩)

/-- **What the first transaction of a call writes**: nothing for a key that is
known, and otherwise an order, which on paper it fills. -/
theorem TradingService.reserve_writes {out : TradingService.Reservation} (h : l.Sound c)
    (hB : l.orders.find? q.intent.idempotencyKey = none → ∀ l₁ : TradeLedger, l₁.orders = l.orders →
      B l₁ q)
    (hA : l.orders.find? q.intent.idempotencyKey = none → c.paper = true →
      ∀ result, c.paperResult q = .ok result → (∀ s ∈ result.status, ¬ s.Open) → ∀ l₁ :
      TradeLedger, l₁.accounts = (c.openAccount q.intent.venue l).accounts → l₁.positions =
      (c.openAccount q.intent.venue l).positions → A l₁ q.intent.record result)
    (hok : c.reserve q l = .ok (out, l')) : (l' = l ∧ ∃ r, out = .recorded r)
    ∨ l.orders.find? q.intent.idempotencyKey = none ∧ Writes c A B q.intent.idempotencyKey l l'
      ∧ ((∃ r, out = .recorded r) ∨ out = .prepared q.intent.record ∧ l'.log = l.log
        ∧ ∃ o, l'.orders.find? q.intent.idempotencyKey = some o ∧ q.intent = o.record.intent) := by
  unfold TradingService.reserve at hok
  cases hnew : l.orders.find? q.intent.idempotencyKey with
  | some old =>
    rw [hnew] at hok
    obtain ⟨_, hok⟩ := of_raiseIf hok
    cases hok
    exact .inl ⟨rfl, _, rfl⟩
  | none =>
    rw [hnew] at hok
    obtain ⟨l₁, hrisk, hok⟩ := of_bind hok
    obtain ⟨rfl, hopen, hfunded, hdaily⟩ := TradingService.risk_eq_ok hrisk
    have horders : (c.openAccount q.intent.venue l).orders = l.orders := TradingService.orders_openAccount _
    have hlog : (c.openAccount q.intent.venue l).log = l.log := TradingService.log_openAccount _
    set l₁ := c.openAccount q.intent.venue l with hl₁
    have hnew₁ : l₁.orders.find? q.intent.idempotencyKey = none := horders.symm ▸ hnew
    have hput := putOrder_reserve (c := c) rfl hnew₁
    have hfind : (l₁.orders.insertOnce (c.order q)).find? q.intent.idempotencyKey
        = some (c.order q) := (hput _).trans (if_pos rfl)
    have hbought : l₁.bought q.day = l.bought q.day := by
      unfold TradeLedger.bought
      rw [horders]
    have hwrites : Writes c A B q.intent.idempotencyKey l
        { l₁ with orders := l₁.orders.insertOnce (c.order q) } := by
      refine (TradingService.openAccount_writes q.intent.venue).tail (.reserve _ q rfl hnew₁ ?_ hfunded ?_ ?_)
      · intro k o ho
        exact hopen k o (horders ▸ ho)
      · rw [← hl₁, hbought]
        exact hdaily
      · exact hB hnew _ horders
    dsimp only at hok
    cases hpaper : c.paper with
    | false =>
      rw [if_neg (by simp [hpaper])] at hok
      cases hok
      exact .inr ⟨rfl, hwrites, .inr ⟨rfl, hlog, c.order q, hfind, rfl⟩⟩
    | true =>
      rw [if_pos hpaper] at hok
      obtain ⟨result, hresult, hok⟩ := of_bind hok
      obtain ⟨⟨record, l₃⟩, hfinish, hok⟩ := of_bind hok
      cases hok
      refine .inr ⟨rfl, ?_, .inl ⟨_, rfl⟩⟩
      have hsent : Write c A B q.intent.idempotencyKey
          { l₁ with orders := l₁.orders.insertOnce (c.order q) }
          { l₁ with
            orders := l₁.orders.insertOnce (c.order q)
            log := l₁.log ++ [.sent q.intent.idempotencyKey] } := by
        refine .send _ (fun hs => ?_) ⟨_, hfind⟩ (fun k o ho hk => ?_)
        · obtain ⟨o, ho⟩ := h.sentKnown _ (hlog ▸ hs)
          rw [hnew] at ho
          cases ho
        · by_contra hne
          have ho : l₁.orders.find? k = some o := ((hput k).trans (if_neg hne)).symm.trans ho
          exact hopen k o (horders ▸ ho) hk
      refine (hwrites.tail hsent).trans
        (TradeLedger.finish_writes hfind rfl rfl rfl (fun _ hclosed => ?_) hfinish)
      exact hA hnew hpaper result hresult hclosed _ rfl rfl

end Steps

/-! ## Runs -/

/-- A call that has not sent its order, and may still. -/
def TradePhase.Unsent (p : TradePhase) : Prop := p ∈ [.prepared, .submitting, .guarded, .blocked]
deriving Decidable

namespace Trading

/-- An execution to be finished: the accounts, the record and the result. -/
structure Finishing where
  ledger : TradeLedger
  record : TradeRecord
  result : TradeResult

/-- The result is terminal, and the order is not accounted. -/
def Finishing.Closes (x : Finishing) : Prop :=
  (∀ o ∈ x.ledger.orders.find? x.record.intent.idempotencyKey, o.record.accounted = false)
    ∧ ∀ s ∈ x.result.status, ¬ s.Open
deriving Decidable

variable (c : TradingService) (w : Trading)

/-- **The execution that a step finishes**, if there is one. -/
def finishing : Label → Option Finishing
  | .reserve q =>
    if c.paper = true ∧ w.ledger.orders.find? q.intent.idempotencyKey = none then
      match c.paperResult q with
      | .ok result => some ⟨c.openAccount q.intent.venue w.ledger, q.intent.record, result⟩
      | .error _ => none
    else none
  | .confirm key =>
    match w.tasks.find? key with
    | none => none
    | some t =>
      match c.checkRiskMode w.ledger t.record.intent.side with
      | .error _ => if t.phase = .prepared then some ⟨w.ledger, t.record, .rejected⟩ else none
      | .ok () => none
  | .answer key result =>
    match w.tasks.find? key with
    | none => none
    | some t => if t.phase = .sent then some ⟨w.ledger, t.record, result⟩ else none
  | .recover key =>
    match w.tasks.find? key, w.ledger.orders.find? key with
    | some t, some o => if t.phase = .blocked then some ⟨w.ledger, o.record, .rejected⟩ else none
    | _, _ => none
  | .settle key (some result) =>
    match w.ledger.orders.find? key with
    | none => none
    | some o => if (key, some result) ∈ w.answers then some ⟨w.ledger, o.record, result⟩ else none
  | _ => none

/-- The call whose budget a step checks, if there is one. -/
def reserving : Label → Option TradeCall
  | .reserve q => if w.ledger.orders.find? q.intent.idempotencyKey = none then some q else none
  | _ => none

/-- **A step that rounds nothing** of what it adds up. -/
def Unrounded (l : Label) : Prop :=
  (∀ x ∈ finishing c w l, x.Closes → x.ledger.Exacts x.record x.result)
    ∧ ∀ q ∈ reserving w l, w.ledger.ExactDay q
deriving Decidable

/-- **A step whose fees stay within their estimate.** -/
def Within (l : Label) : Prop :=
  ∀ x ∈ finishing c w l, x.Closes → x.record.Within x.result
deriving Decidable

/-- **What every system satisfies.** -/
structure Inv (c : TradingService) (w : Trading) : Prop where
  sound : w.ledger.Sound c
  task : ∀ t ∈ w.tasks.rows, t.record.accounted = false
    ∧ ∃ o, w.ledger.orders.find? t.key = some o ∧ t.record.intent = o.record.intent
  unsent : ∀ t ∈ w.tasks.rows, t.phase.Unsent →
    .sent t.key ∉ w.ledger.log ∧ .accounted t.key ∉ w.ledger.log
  answers : ∀ key r, (key, some r) ∈ w.answers → .sent key ∈ w.ledger.log

section Inv

variable {c : TradingService} {A : TradeLedger → TradeRecord → TradeResult → Prop}
  {B : TradeLedger → TradeCall → Prop} {key : String} {w w' : Trading}

/-- **Writes to an order keep the invariant**, when the calls go on with their
records, and none that is yet to send is of an order that was logged. -/
theorem Inv.of_writes (h : Inv c w) (hw : Writes c A B key w.ledger w'.ledger)
    (htasks : ∀ t' ∈ w'.tasks.rows,
      (∃ t ∈ w.tasks.rows, t'.record.intent = t.record.intent ∧ t'.record.accounted = false
        ∧ (t'.phase.Unsent → t.phase.Unsent ∧ (t.key = key → w'.ledger.log = w.ledger.log)))
      ∨ t'.record.accounted = false
        ∧ (∃ o, w'.ledger.orders.find? t'.key = some o ∧ t'.record.intent = o.record.intent)
        ∧ .sent t'.key ∉ w'.ledger.log ∧ .accounted t'.key ∉ w'.ledger.log)
    (hanswers : ∀ k r, (k, some r) ∈ w'.answers →
      (k, some r) ∈ w.answers ∨ .sent k ∈ w.ledger.log) : Inv c w' := by
  have hkey : ∀ {t' t : TradeTask}, t'.record.intent = t.record.intent → t'.key = t.key :=
    fun he => congrArg TradeIntent.idempotencyKey he
  refine ⟨h.sound.writes hw, fun t' ht' => ?_, fun t' ht' hunsent => ?_, fun k r hk => ?_⟩
  · obtain ⟨t, ht, hintent, hout, -⟩ | ⟨hout, hrow, -⟩ := htasks t' ht'
    · obtain ⟨o, ho, htask⟩ := (h.task t ht).2
      obtain ⟨o', ho', hkept⟩ := hw.kept ho
      refine ⟨hout, o', ?_, hintent.trans (htask.trans hkept.symm)⟩
      rw [hkey hintent]
      exact ho'
    · exact ⟨hout, hrow⟩
  · obtain ⟨t, ht, hintent, -, hphase⟩ | ⟨-, -, hlog⟩ := htasks t' ht'
    · obtain ⟨hphase, hsame⟩ := hphase hunsent
      obtain ⟨hsent, haccounted⟩ := h.unsent t ht hphase
      rw [hkey hintent]
      by_cases hk : t.key = key
      · rw [hsame hk]
        exact ⟨hsent, haccounted⟩
      · refine ⟨fun he => ?_, fun he => ?_⟩
        · obtain he | he | he := hw.log he
          · exact hsent he
          · exact hk (TradeEvent.sent.inj he)
          · cases he
        · obtain he | he | he := hw.log he
          · exact haccounted he
          · cases he
          · exact hk (TradeEvent.accounted.inj he)
    · exact hlog
  · exact (hanswers k r hk).elim (fun hold => hw.log_subset (h.answers k r hold)) hw.log_subset

/-- Writes that concern no call that is yet to send, with the calls as they
are. -/
theorem Inv.of_writes_same (h : Inv c w) (hw : Writes c A B key w.ledger w'.ledger)
    (htasks : w'.tasks = w.tasks)
    (hanswers : ∀ k r, (k, some r) ∈ w'.answers → (k, some r) ∈ w.answers ∨ .sent k ∈ w.ledger.log)
    (hlog : ∀ t ∈ w.tasks.rows, t.phase.Unsent → t.key = key → w'.ledger.log = w.ledger.log) :
    Inv c w' := by
  refine h.of_writes hw (fun t ht => ?_) hanswers
  rw [htasks] at ht
  exact .inl ⟨t, ht, rfl, (h.task t ht).1, fun hp => ⟨hp, hlog t ht hp⟩⟩

/-- **A call goes on**, after writes to its order. -/
theorem Inv.goto (h : Inv c w) {l : TradeLedger} (hw : Writes c A B key w.ledger l)
    {phase : TradePhase} (hphase : phase.Unsent → l.log = w.ledger.log
      ∧ ∃ t, w.tasks.find? key = some t ∧ t.phase.Unsent) :
    Inv c ({ w with ledger := l }.goto key phase) := by
  refine h.of_writes hw (fun t' ht' => .inl ?_) (fun k r hk => .inl hk)
  obtain ⟨t, ht, he⟩ := mem_map.mp ht'
  have hout := (h.task t ht).1
  split_ifs at he with hk
  · subst he
    refine ⟨t, ht, rfl, hout, fun hp => ?_⟩
    obtain ⟨hlog, t₁, ht₁, hunsent⟩ := hphase hp
    have hfound := find?_of_mem ht
    rw [hk, ht₁] at hfound
    cases hfound
    exact ⟨hunsent, fun _ => hlog⟩
  · subst he
    exact ⟨t, ht, rfl, hout, fun hp => ⟨hp, fun he => absurd he hk⟩⟩

/-- The order of a call that is yet to send is open, and no other is. -/
theorem Inv.alone (h : Inv c w) {t : TradeTask} (ht : w.tasks.find? key = some t)
    (hp : t.phase.Unsent) : .sent key ∉ w.ledger.log
      ∧ (∃ o, w.ledger.orders.find? key = some o ∧ o.record.accounted = false)
      ∧ ∀ k o, w.ledger.orders.find? k = some o → o.record.status.Open → k = key := by
  have hmem := mem_of_find? ht
  have hkey : t.key = key := key_of_find? ht
  obtain ⟨hsent, haccounted⟩ := h.unsent t hmem hp
  obtain ⟨-, o, ho, -⟩ := h.task t hmem
  rw [hkey] at hsent haccounted ho
  have hout : o.record.accounted = false := by
    have hcount := h.sound.accounted key
    rw [count_eq_zero_of_not_mem haccounted, ho] at hcount
    by_contra hne
    simp [Bool.not_eq_false _ ▸ hne] at hcount
  refine ⟨hsent, ⟨o, ho, hout⟩, fun k o' ho' hopen => ?_⟩
  exact h.sound.oneOpen k key o' o ho' ho hopen ((h.sound.order key o ho).status.mp hout)

end Inv

variable {w}

/-- What holds of the system, and of the step of a call in one of the phases,
holds of `withTask`. -/
theorem withTask_rec {key : String} {phases : List TradePhase} {f : TradeTask → Trading}
    (P : Trading → Prop) (hsame : P w)
    (hstep : ∀ t, w.tasks.find? key = some t → t.phase ∈ phases → P (f t)) :
    P (w.withTask key phases f) := by
  unfold withTask
  cases htask : w.tasks.find? key with
  | none => exact hsame
  | some t =>
    dsimp only
    split_ifs with hphase
    · exact hstep t htask hphase
    · exact hsame

/-- **A step**: it writes to one order, and keeps the invariant. -/
def Steps (A : TradeLedger → TradeRecord → TradeResult → Prop) (B : TradeLedger → TradeCall → Prop)
    (w w' : Trading) : Prop :=
  Inv c w' ∧ ∃ key, Writes c A B key w.ledger w'.ledger

section Step

variable {c : TradingService} {A : TradeLedger → TradeRecord → TradeResult → Prop}
  {B : TradeLedger → TradeCall → Prop} {w : Trading}

theorem steps_refl (h : Inv c w) : Steps c A B w w := ⟨h, "", .refl⟩

variable {key : String} {phase : TradePhase}

section

variable (h : Inv c w)
include h

theorem steps_goto (hphase : phase.Unsent → ∃ t, w.tasks.find? key = some t ∧ t.phase.Unsent) :
    Steps c A B w (w.goto key phase) :=
  ⟨h.goto (A := A) (B := B) (l := w.ledger) .refl (fun hp => ⟨rfl, hphase hp⟩), key, .refl⟩

/-- A step of `reconcile` that does not reach the ledger. -/
theorem steps_quiet {w' : Trading} (hledger : w'.ledger = w.ledger)
    (htasks : w'.tasks = w.tasks) (hanswers : ∀ k r, (k, some r) ∈ w'.answers →
      (k, some r) ∈ w.answers ∨ .sent k ∈ w.ledger.log) : Steps c A B w w' := by
  have hw : Writes c A B "" w.ledger w'.ledger := hledger ▸ .refl
  exact ⟨h.of_writes_same hw htasks hanswers (fun _ _ _ _ => by rw [hledger]), "", hw⟩

theorem write_unknown {o : TradeOrder} (ho : w.ledger.orders.find? key = some o)
    (hout : o.record.accounted = false) :
    Write c A B key w.ledger (w.ledger.save { o.record with status := .unknown }) :=
  .save _ { o.record with status := .unknown } o (h.sound.order key o ho).key ho hout rfl
    (show TradeStatus.unknown.Open by decide) hout

theorem steps_done {l : TradeLedger} (hw : Writes c A B key w.ledger l)
    (hphase : ¬ phase.Unsent) : Steps c A B w ({ w with ledger := l }.goto key phase) :=
  ⟨h.goto hw (fun hp => absurd hp hphase), key, hw⟩

theorem steps_bindExecution (venue : TradeVenue) (funding : ℚ) :
    Steps c A B w (w.commit (w.ledger.bindExecution c venue funding)) := by
  cases hbind : w.ledger.bindExecution c venue funding with
  | error e => exact steps_refl h
  | ok l =>
    obtain ⟨hpaper, hbind⟩ := of_raiseIf hbind
    obtain ⟨hpos, hbind⟩ := of_raiseIf hbind
    obtain ⟨_, hbind⟩ := of_raiseIf hbind
    cases hbind
    have hcash : 0 ≤ min funding c.maxDailyQuote :=
      le_min (not_le.mp hpos).le c.maxDailyQuote_pos.le
    have hw : Write c A B "" w.ledger _ := .fund w.ledger
      ⟨venue, min funding c.maxDailyQuote, min funding c.maxDailyQuote⟩ hcash rfl
      (fun hp => absurd hp hpaper)
    exact ⟨h.of_writes_same (.single hw) rfl (fun _ _ hk => .inl hk) (fun _ _ _ _ => rfl), "",
      .single hw⟩

theorem steps_reserve {q : TradeCall}
    (hA : ∀ x ∈ finishing c w (.reserve q), x.Closes → ∀ l : TradeLedger,
      l.accounts = x.ledger.accounts → l.positions = x.ledger.positions → A l x.record x.result)
    (hB : ∀ q' ∈ reserving w (.reserve q), ∀ l : TradeLedger, l.orders = w.ledger.orders → B l q') :
    Steps c A B w (w.reserve c q) := by
  unfold reserve
  cases hreserve : c.reserve q w.ledger with
  | error e => exact steps_refl h
  | ok out =>
    obtain ⟨out, l⟩ := out
    have hcases := TradingService.reserve_writes (A := A) (B := B) h.sound (fun hnew l₁ hl₁ => ?_)
      (fun hnew hpaper result hresult hclosed l₁ ha hp => ?_) hreserve
    · obtain ⟨rfl, record, rfl⟩ | ⟨hnew, hw, hout⟩ := hcases
      · exact steps_refl h
      · -- no call has the key, which no order had
        have hfresh : ∀ t ∈ w.tasks.rows, t.key ≠ q.intent.idempotencyKey := by
          intro t ht hk
          obtain ⟨-, o, ho, -⟩ := h.task t ht
          rw [hk, hnew] at ho
          cases ho
        obtain ⟨record, rfl⟩ | ⟨rfl, hlog, hrow⟩ := hout
        · exact ⟨h.of_writes_same hw rfl (fun _ _ hk => .inl hk)
            (fun t ht _ hk => absurd hk (hfresh t ht)), _, hw⟩
        · refine ⟨h.of_writes hw (fun t ht => ?_) (fun _ _ hk => .inl hk), _, hw⟩
          have hnone : w.tasks.find? (TradeTask.key ⟨q.intent.record, .prepared⟩) = none := by
            refine find?_eq_none_iff.mpr (fun hmem => ?_)
            obtain ⟨t, ht, hk⟩ := mem_map.mp hmem
            exact hfresh t ht hk
          rcases (mem_rows_insertOnce hnone).mp ht with ht | rfl
          · exact .inl ⟨t, ht, rfl, (h.task t ht).1, fun hp => ⟨hp, fun hk => absurd hk (hfresh t ht)⟩⟩
          · refine .inr ⟨rfl, hrow, fun hs => ?_, fun ha => ?_⟩
            · obtain ⟨o, ho⟩ := h.sound.sentKnown _ (hlog ▸ hs)
              rw [show TradeTask.key ⟨q.intent.record, .prepared⟩ = q.intent.idempotencyKey from rfl,
                hnew] at ho
              cases ho
            · have hcount := h.sound.accounted q.intent.idempotencyKey
              rw [hnew] at hcount
              exact count_eq_zero.mp hcount (hlog ▸ ha)
    · exact hB q (by simp [reserving, hnew]) l₁ hl₁
    · refine hA ⟨c.openAccount q.intent.venue w.ledger, q.intent.record, result⟩ ?_ ⟨?_, hclosed⟩ l₁ ha hp
      · simp [finishing, hpaper, hnew, hresult]
      · intro o ho
        rw [TradingService.orders_openAccount, show q.intent.record.intent = q.intent from rfl, hnew] at ho
        cases ho

end

variable {t : TradeTask}

variable (h : Inv c w)
include h

section

variable (ht : w.tasks.find? key = some t)
include ht

theorem steps_confirm (hphase : t.phase = .prepared)
    (hA : ∀ x ∈ finishing c w (.confirm key), x.Closes → ∀ l : TradeLedger, l.accounts =
      x.ledger.accounts → l.positions = x.ledger.positions → A l x.record x.result) :
    Steps c A B w (w.confirm c t) := by
  have hmem := mem_of_find? ht
  have hkey : t.key = key := key_of_find? ht
  obtain ⟨hrecord, o, ho, hintent⟩ := h.task t hmem
  obtain ⟨-, ⟨o', ho', hout⟩, -⟩ := h.alone ht (by rw [hphase]; decide)
  have hsame : o' = o := by
    rw [hkey, ho'] at ho
    exact Option.some.inj ho
  subst hsame
  unfold confirm TradingService.confirm
  cases hmode : c.checkRiskMode w.ledger t.record.intent.side with
  | error e =>
    cases hfinish : w.ledger.finish t.record .rejected with
    | error e =>
      simp only [error_bind]
      exact steps_goto h (fun hp => absurd hp (by decide))
    | ok out =>
      simp only [ok_bind]
      refine steps_done h
        (TradeLedger.finish_writes ho rfl hintent hrecord (fun _ hclosed => ?_) hfinish) (by decide)
      refine hA ⟨w.ledger, t.record, .rejected⟩ ?_ ⟨fun o'' ho'' => ?_, hclosed⟩ _ rfl rfl
      · simp [finishing, ht, hmode, hphase]
      · have ho'' : w.ledger.orders.find? t.key = some o'' := ho''
        rw [ho] at ho''
        cases ho''
        exact hout
  | ok _ =>
    have hw : Write c A B t.key w.ledger (w.ledger.save { t.record with status := .submitting }) :=
      .save _ _ o' rfl ho hout hintent (show TradeStatus.submitting.Open by decide) hrecord
    refine ⟨h.of_writes (.single hw) (fun t' ht' => .inl ?_) (fun _ _ hk => .inl hk), _, .single hw⟩
    obtain ⟨t₁, ht₁, he⟩ := mem_map.mp ht'
    split_ifs at he with hk
    · subst he
      have hfound := find?_of_mem ht₁
      rw [hk, hkey, ht] at hfound
      cases hfound
      exact ⟨t, hmem, rfl, hrecord, fun _ => ⟨by rw [hphase]; decide, fun _ => rfl⟩⟩
    · subst he
      exact ⟨t₁, ht₁, rfl, (h.task t₁ ht₁).1, fun hp => ⟨hp, fun he => absurd he hk⟩⟩

theorem steps_send (hphase : t.phase = .guarded) :
    Steps c A B w ({ w with ledger := { w.ledger with
      log := w.ledger.log ++ [TradeEvent.sent key] } }.goto key .sent) := by
  obtain ⟨hnew, ⟨o, ho, -⟩, halone⟩ := h.alone ht (by rw [hphase]; decide)
  exact steps_done h (.single (.send w.ledger hnew ⟨o, ho⟩ halone)) (by decide)

theorem steps_answer {result : TradeResult} (hphase : t.phase = .sent)
    (hA : ∀ x ∈ finishing c w (.answer key result), x.Closes → ∀ l : TradeLedger, l.accounts =
      x.ledger.accounts → l.positions = x.ledger.positions → A l x.record x.result) :
    Steps c A B w (match w.ledger.finish t.record result with
      | .ok (_, l) => { w with ledger := l }.goto key .done
      | .error _ => w.goto key .failed) := by
  have hkey : t.key = key := key_of_find? ht
  obtain ⟨hrecord, o, ho, hintent⟩ := h.task t (mem_of_find? ht)
  rw [hkey] at ho
  cases hfinish : w.ledger.finish t.record result with
  | error e => exact steps_goto h (fun hp => absurd hp (by decide))
  | ok out =>
    refine steps_done h
      (TradeLedger.finish_writes ho hkey hintent hrecord (fun hout hclosed => ?_) hfinish) (by decide)
    refine hA ⟨w.ledger, t.record, result⟩ ?_ ⟨fun o' ho' => ?_, hclosed⟩ _ rfl rfl
    · simp [finishing, ht, hphase]
    · have ho' : w.ledger.orders.find? t.key = some o' := ho'
      rw [hkey, ho] at ho'
      cases ho'
      exact hout

theorem steps_recover
    (hA : ∀ x ∈ finishing c w (.recover key), x.Closes → ∀ l : TradeLedger, l.accounts =
      x.ledger.accounts → l.positions = x.ledger.positions → A l x.record x.result) :
    Steps c A B w ((w.commit
      (if t.phase = .blocked then w.ledger.reject key else w.ledger.lose key)).goto key .done) := by
  obtain ⟨-, o, ho, -⟩ := h.task t (mem_of_find? ht)
  have hkey : t.key = key := key_of_find? ht
  rw [hkey] at ho
  have hrow := (h.sound.order key o ho).key
  have hdone : Steps c A B w (w.goto key .done) := steps_goto h (fun hp => absurd hp (by decide))
  split_ifs with hphase
  · -- the guard stopped the send
    unfold TradeLedger.reject
    rw [ho]
    dsimp only
    split_ifs with hclosed
    · exact hdone
    · cases hfinish : w.ledger.finish o.record .rejected with
      | error e => exact hdone
      | ok out =>
        have hout : o.record.accounted = false := by
          simpa using (not_or.mp hclosed).1
        refine steps_done h
          (TradeLedger.finish_writes ho hrow rfl hout (fun _ hterminal => ?_) hfinish) (by decide)
        refine hA ⟨w.ledger, o.record, .rejected⟩ ?_ ⟨fun o' ho' => ?_, hterminal⟩ _ rfl rfl
        · simp [finishing, ht, ho, hphase]
        · have ho' : w.ledger.orders.find? o.record.intent.idempotencyKey = some o' := ho'
          rw [hrow, ho] at ho'
          cases ho'
          exact hout
  · unfold TradeLedger.lose
    rw [ho]
    dsimp only
    split_ifs with hclosed
    · exact hdone
    · have hout : o.record.accounted = false := by
        simpa using (not_or.mp hclosed).1
      exact steps_done h (.single (write_unknown h ho hout)) (by decide)

end

theorem steps_settle {answer : Option TradeResult} (hmem : (key, answer) ∈ w.answers)
    (hA : ∀ x ∈ finishing c w (.settle key answer), x.Closes → ∀ l : TradeLedger, l.accounts =
      x.ledger.accounts → l.positions = x.ledger.positions → A l x.record x.result) :
    Steps c A B w ({ w with answers := w.answers.erase (key, answer) }.commit
      (w.ledger.reconcile key answer)) := by
  have hless : ∀ k r, (k, some r) ∈ w.answers.erase (key, answer) →
      (k, some r) ∈ w.answers ∨ .sent k ∈ w.ledger.log := fun _ _ hk => .inl (mem_of_mem_erase hk)
  have hsame : Steps c A B w { w with answers := w.answers.erase (key, answer) } :=
    steps_quiet h rfl rfl hless
  cases ho : w.ledger.orders.find? key with
  | none =>
    simp only [TradeLedger.reconcile, ho, commit]
    exact hsame
  | some o =>
    have hrow := (h.sound.order key o ho).key
    unfold TradeLedger.reconcile
    rw [ho]
    dsimp only
    split_ifs with haccounted
    · exact hsame
    · have hout : o.record.accounted = false := by simpa using haccounted
      have hsave := write_unknown (A := A) (B := B) h ho hout
      have hunknown : Steps c A B w { w with
          ledger := w.ledger.save { o.record with status := .unknown }
          answers := w.answers.erase (key, answer) } :=
        ⟨h.of_writes_same (.single hsave) rfl hless (fun _ _ _ _ => rfl), key, .single hsave⟩
      cases answer with
      | none => exact hunknown
      | some result =>
        dsimp only
        cases hfinish : w.ledger.finish o.record result with
        | error e =>
          cases e with
          | valueError _ => exact hunknown
          | _ => exact hsame
        | ok out =>
          have hw : Writes c A B key w.ledger out.2 := by
            refine TradeLedger.finish_writes ho hrow rfl hout (fun _ hclosed => ?_) hfinish
            refine hA ⟨w.ledger, o.record, result⟩ ?_ ⟨fun o' ho' => ?_, hclosed⟩ _ rfl rfl
            · simp [finishing, ho, hmem]
            · have ho' : w.ledger.orders.find? o.record.intent.idempotencyKey = some o' := ho'
              rw [hrow, ho] at ho'
              cases ho'
              exact hout
          refine ⟨h.of_writes_same hw rfl hless (fun t ht hp hk => ?_), key, hw⟩
          -- the venue knows the order, so no call is yet to send it
          exact absurd (hk ▸ h.answers key result hmem) (h.unsent t ht hp).1

/-- **Every step writes to one order, and keeps the invariant**; of what it
accounts `A` is known, and `B` of what it reserves. -/
theorem steps_step (l : Label) (hA : ∀ x ∈ finishing c w l, x.Closes → ∀ l : TradeLedger,
      l.accounts = x.ledger.accounts → l.positions = x.ledger.positions → A l x.record x.result)
    (hB : ∀ q ∈ reserving w l, ∀ l : TradeLedger, l.orders = w.ledger.orders → B l q) :
    Steps c A B w (step c w l) := by
  cases l with
  | bindExecution venue funding => exact steps_bindExecution h venue funding
  | setRiskMode mode =>
    have hw : Write c A B "" w.ledger { w.ledger with riskMode := mode } := .setRiskMode _ mode
    exact ⟨h.of_writes_same (.single hw) rfl (fun _ _ hk => .inl hk) (fun _ _ _ _ => rfl), "",
      .single hw⟩
  | reserve q => exact steps_reserve h hA hB
  | confirm key =>
    exact withTask_rec _ (steps_refl h) (fun t ht hp =>
      steps_confirm h ht (by simpa using hp) hA)
  | guard key held =>
    refine withTask_rec _ (steps_refl h) (fun t ht hp => ?_)
    have hunsent : t.phase.Unsent := by
      simp only [mem_cons, not_mem_nil, or_false] at hp
      rcases hp with hp | hp <;> rw [hp] <;> decide
    split
    · exact steps_goto h (fun _ => ⟨t, ht, hunsent⟩)
    · exact steps_goto h (fun _ => ⟨t, ht, hunsent⟩)
  | send key =>
    exact withTask_rec _ (steps_refl h) (fun t ht hp => steps_send h ht (by simpa using hp))
  | answer key result =>
    exact withTask_rec _ (steps_refl h) (fun t ht hp => steps_answer h ht (by simpa using hp) hA)
  | fail key =>
    exact withTask_rec _ (steps_refl h) (fun t ht hp => steps_goto h (fun hp => absurd hp (by decide)))
  | recover key =>
    exact withTask_rec _ (steps_refl h) (fun t ht hp => steps_recover h ht hA)
  | list =>
    exact steps_quiet h rfl rfl (fun _ _ hk => .inl hk)
  | lookup key answer =>
    unfold step
    dsimp only
    split_ifs
    · refine steps_quiet h rfl rfl (fun k r hk => ?_)
      rcases mem_append.mp hk with hk | hk
      · exact .inl hk
      · -- the venue says nothing of an order that it was not sent
        obtain ⟨rfl, he⟩ := Prod.ext_iff.mp (mem_singleton.mp hk)
        unfold heard at he
        split_ifs at he with hsent
        exact .inr hsent.2
    · exact steps_refl h
  | settle key answer =>
    unfold step
    dsimp only
    split_ifs with hmem
    · exact steps_settle h hmem hA
    · exact steps_refl h
  | crash =>
    refine ⟨⟨h.sound, fun t ht => ?_, fun t ht => ?_, fun k r hk => ?_⟩, "", .refl⟩
    · cases ht
    · cases ht
    · cases hk

end Step

/-! ## Every run -/

section Run

variable {c : TradingService}

theorem inv_init : Inv c init := by
  refine ⟨⟨?_, ?_, fun _ => rfl, fun _ => Nat.zero_le _, ?_, ?_, fun _ _ => le_rfl⟩, ?_, ?_, ?_⟩
  · intro _ _ ho
    cases ho
  · intro _ _ _ _ ho
    cases ho
  · intro _ hk
    cases hk
  · intro _ _ ha
    cases ha
  · intro _ ht
    cases ht
  · intro _ ht
    cases ht
  · intro _ _ hk
    cases hk

theorem steps_any {w : Trading} (h : Inv c w) (l : Label) :
    Steps c (fun _ _ _ => True) (fun _ _ => True) w (step c w l) :=
  steps_step h l (fun _ _ _ _ _ _ => trivial) (fun _ _ _ _ => trivial)

/-- **The invariant over every run.** -/
theorem inv_after (ls : List Label) : Inv c (after c ls) :=
  inv_run (Inv c) (fun _ l h => (steps_any h l).1) inv_init ls

variable {B : TradeLedger → TradeCall → Prop} {key : String} {l l' : TradeLedger}
  {A : TradeLedger → TradeRecord → TradeResult → Prop}

theorem Writes.sent_key {k : String} (hw : Writes c A B key l l')
    (hsent : l.log.count (.sent k) < l'.log.count (.sent k)) : k = key := by
  by_contra hne
  refine hsent.ne' ?_
  induction hw with
  | refl => rfl
  | tail _ hw ih =>
    obtain ⟨es, hlog, hes⟩ := hw.log
    have hnone : es.count (.sent k) = 0 := by
      refine count_eq_zero.mpr (fun he => ?_)
      obtain he | he := hes _ he
      · exact hne (TradeEvent.sent.inj he)
      · cases he
    rw [hlog, count_append, hnone, Nat.add_zero] at hsent ⊢
    exact ih hsent

/-- **Writes that send an order** find no other open. -/
theorem Writes.alone (hw : Writes c A B key l l')
    (hsent : l.log.count (.sent key) < l'.log.count (.sent key)) :
    ∀ k o, l.orders.find? k = some o → o.record.status.Open → k = key := by
  induction hw using Relation.ReflTransGen.head_induction_on with
  | refl => exact absurd hsent (lt_irrefl _)
  | @head l₁ l₂ hw _ ih =>
    by_cases hfirst : l₁.log.count (.sent key) < l₂.log.count (.sent key)
    · cases hw with
      | send hnew hrow hopen => exact hopen
      | account _ record status result o hkey ho hout hintent hchecked hclosed haccounted hA =>
        rw [haccounted.log, count_append] at hfirst
        simp at hfirst
      | _ => exact absurd hfirst (lt_irrefl _)
    · intro k o ho hopen
      by_contra hne
      obtain ⟨o', ho', -, hsame⟩ := hw.kept ho
      rw [hsame hne] at ho'
      exact hne (ih (lt_of_le_of_lt (not_lt.mp hfirst) hsent) k o ho' hopen)

theorem Balanced.writes (hb : l.Balanced) (h : l.Sound c)
    (hw : Writes c TradeLedger.Exacts B key l l') : l'.Balanced := by
  induction hw with
  | refl => exact hb
  | tail hws hw ih => exact ih.write (h.writes hws) hw

theorem boughtOn_writes (hd : ∀ day, l.boughtOn day ≤ c.maxDailyQuote) (h : l.Sound c) (hw :
      Writes c
    (fun l record result => l.Exacts record result ∧
      record.Within result) TradeLedger.ExactDay key l l') :
    ∀ day, l'.boughtOn day ≤ c.maxDailyQuote := by
  induction hw with
  | refl => exact hd
  | tail hws hw ih => exact TradeLedger.boughtOn_write ih (h.writes hws) hw

/-- Whether a result can be accounted without rounding is a matter of the
accounts and the positions. -/
theorem Exacts.congr {record : TradeRecord} {result : TradeResult} (h : l.Exacts record result)
    (ha : l'.accounts = l.accounts) (hp : l'.positions = l.positions) :
    l'.Exacts record result := by
  unfold TradeLedger.Exacts TradeLedger.held TradeLedger.position at h ⊢
  rw [ha, hp]
  exact h

theorem ExactDay.congr {q : TradeCall} (h : l.ExactDay q) (ho : l'.orders = l.orders) :
    l'.ExactDay q := by
  unfold TradeLedger.ExactDay TradeLedger.bought at h ⊢
  rw [ho]
  exact h

variable {ls : List Label}

/-- **The balance over every run** that rounds nothing. -/
theorem balanced_after (h : Machine.Meets (step c) (Unrounded c) init ls) :
    (after c ls).ledger.Balanced := by
  refine (inv_run_of_meets (fun w => Inv c w ∧ w.ledger.Balanced) ?_ ⟨inv_init, ?_⟩ h).2
  · intro w l hw hl
    obtain ⟨hinv, key, hwrites⟩ := steps_step (A := TradeLedger.Exacts) (B := fun _ _ => True) hw.1 l
      (fun x hx hclosed _ ha hp => Exacts.congr (hl.1 x hx hclosed) ha hp)
      (fun _ _ _ _ => trivial)
    exact ⟨hinv, Balanced.writes hw.2 hw.1.sound hwrites⟩
  · exact ⟨(fun _ _ ha => nomatch ha), fun _ _ => rfl⟩

/-- **The budget of every day over every run** that rounds nothing and whose
fees stay within their estimate. -/
theorem boughtOn_after (h : Machine.Meets (step c) (Unrounded c) init ls)
    (hwithin : Machine.Meets (step c) (Within c) init ls) (day : Date) :
    (after c ls).ledger.boughtOn day ≤ c.maxDailyQuote := by
  refine (inv_run_of_meets
    (fun w => Inv c w ∧ ∀ day, w.ledger.boughtOn day ≤ c.maxDailyQuote) ?_ ⟨inv_init, ?_⟩
    (meets_and.mpr ⟨h, hwithin⟩)).2 day
  · intro w l hw hl
    obtain ⟨hinv, key, hwrites⟩ := steps_step (B := TradeLedger.ExactDay)
      (A := fun l record result => l.Exacts record result ∧ record.Within result) hw.1 l
      (fun x hx hclosed _ ha hp => ⟨Exacts.congr (hl.1.1 x hx hclosed) ha hp, hl.2 x hx hclosed⟩)
      (fun q hq _ ho => ExactDay.congr (hl.1.2 q hq) ho)
    exact ⟨hinv, boughtOn_writes hw.2 hw.1.sound hwrites⟩
  · exact fun _ => c.maxDailyQuote_pos.le

end Run

namespace Sample

/-- A service on paper. -/
def service : TradingService :=
  ⟨true, 25, 100, 100, false, TradeIntent.idempotencyKey, id, by norm_num⟩

/-- An order for tokens at a half. -/
def intent (key : String) (side : Side) (quantity : ℚ) (h : InRange quantity) : TradeIntent :=
  ⟨key, .polymarket, "1", side, quantity, 1 / 2, 1, none, h, by decide +kernel, fun _ => by norm_num⟩

/-- It is submitted when that is what the book shows. -/
def submit (key : String) (side : Side) (quantity : ℚ) (h : InRange quantity) : Label :=
  .reserve ⟨intent key side quantity h, ⟨1 / 2, 1 / 2, 100, 100⟩, none, ⟨2026, 1, 2⟩⟩

/-- Ten tokens are bought, and four of them sold. -/
def roundTrip : List Label :=
  [submit "buy" .buy 10 (by decide +kernel), submit "sell" .sell 4 (by decide +kernel)]

/-- A quantity of twenty-seven digits. -/
def long : List Label := [submit "buy" .buy (10 + 1 / 10 ^ 25) (by decide +kernel)]

end Sample

end Trading

end Qt
