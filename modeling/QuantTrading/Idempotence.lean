import QuantTrading.Ledger

/-!
# Reports in any order, any number of times

The trades of an order are reported by the venue in any order, and as often
as a page is read again. What is posted of a sequence of reports is the set of
its trades (`Ingested`): a report of a trade that is there posts nothing, and
what a new one posts does not depend on what was posted before it. So two
sequences of the same reports leave the same books behind, and where one of
them is accepted the other is (`Accepted.ingest_of_same`).

A digest stands for the content it is of only as long as no two contents share
it. That is asked where it is used, of the reports at hand.
-/

namespace Qt

open Except List Table
open Machine
open SigDigits

variable {env : Env} {time : ℕ} {db db' : DB} {tx : Transaction}

/-! ## Reports -/

/-- The economic content of a report: all but its settlement. -/
def FillReport.economic (f : FillReport) : FillReport := { f with settlementStatus := .notRequired }

/-- Reports of an order ingested one after the other, each at a time. -/
def ingest (env : Env) (tenant intentId : String) : List (FillReport × ℕ) → DB → Except Exc DB
  | [], db => .ok db
  | (f, time) :: rest, db => do
    let (_, db) ← applyFill env tenant intentId f time db
    ingest env tenant intentId rest db

/-- A recorded trade without the time it was recorded at. -/
def Fill.timeless (g : Fill) : Fill := { g with createdNs := 0 }

/-- A journal transaction without the time it was posted at. -/
def LedgerTransaction.timeless (t : LedgerTransaction) : LedgerTransaction := { t with createdNs := 0 }

/-- The row of a reported trade of an order. -/
def Order.trade (env : Env) (o : Order) (f : FillReport) : Fill := fillRow env o f 0

/-- The journal transaction of a reported trade of an order. -/
def Order.transaction (env : Env) (o : Order) (f : FillReport) : LedgerTransaction :=
  ⟨env.contentHash (.ledgerKey o.accountId JournalKind.trade.text (o.trade env f).fillId),
    o.accountId, .trade, (o.trade env f).fillId, 0⟩

/-- The entries of a reported trade of an order. -/
def Order.entries (env : Env) (o : Order) (f : FillReport) : List LedgerEntry :=
  (fillEntries o.side f).map (fun e =>
    ⟨(o.transaction env f).transactionId, o.accountId, e.1, e.2.1, e.2.2⟩)

variable {o : Order}

variable {o' : Order}

theorem posting_of_frozen (h : o'.frozen = o.frozen) (f : FillReport) :
    o'.trade env f = o.trade env f ∧ o'.transaction env f = o.transaction env f
      ∧ o'.entries env f = o.entries env f := by
  have hid : o'.intentId = o.intentId := Order.intentId_of_frozen h
  have haccount : o'.accountId = o.accountId := (congrArg Order.accountId h :)
  have hvenue : o'.venue = o.venue := (congrArg Order.venue h :)
  have hside : o'.side = o.side := (congrArg Order.side h :)
  unfold Order.entries Order.transaction Order.trade fillRow fillPayload
  rw [hid, haccount, hvenue, hside]
  exact ⟨rfl, rfl, rfl⟩

/-! ## What was posted -/

/-- **What was posted of a sequence of reports**: the trades `S`, on top of a
database with account `a₀` and order `o₀`. -/
structure Ingested (env : Env) (db₀ : DB) (a₀ : Account) (o₀ : Order) (S : List FillReport)
    (db : DB) (a : Account) (o : Order) : Prop where
  located : Located db a o
  account : a = { a₀ with
    mode := a.mode, reservedQuote := a₀.reservedQuote - o₀.reservedQuote + o.reservedQuote }
  order : o.frozen = o₀.frozen
  filled : o.filledQuantity = o₀.filledQuantity + (S.map (·.quantity)).sum
  terminal : o.status.terminal = o₀.status.terminal ∨ o.filledQuantity = o.quantity
  sent : o₀.status ≠ .reserved → o.status ≠ .reserved
  status : S = [] → o.status = o₀.status
  proven : ∀ tenant id, provenNeverSent db tenant id ↔ provenNeverSent db₀ tenant id
  otherAccounts : ∀ id, id ≠ o₀.accountId → db.accounts.find? id = db₀.accounts.find? id
  otherOrders : ∀ id, id ≠ o₀.intentId → db.orders.find? id = db₀.orders.find? id
  fills : db.fills.rows.map Fill.timeless = db₀.fills.rows.map Fill.timeless ++ S.map (o₀.trade env)
  transactions : db.ledgerTransactions.rows.map LedgerTransaction.timeless
    = db₀.ledgerTransactions.rows.map LedgerTransaction.timeless ++ S.map (o₀.transaction env)
  entries : db.ledgerEntries = db₀.ledgerEntries ++ S.flatMap (o₀.entries env)

theorem Ingested.refl {a : Account} (located : Located db a o) : Ingested env db a o [] db a o where
  located := located
  account := by rw [sub_add_cancel]
  order := rfl
  filled := (add_zero _).symm
  terminal := .inl rfl
  sent := id
  status _ := rfl
  proven _ _ := Iff.rfl
  otherAccounts _ _ := rfl
  otherOrders _ _ := rfl
  fills := (append_nil _).symm
  transactions := (append_nil _).symm
  entries := (append_nil _).symm

theorem provenNeverSent_append {es : List Event} (hes : db'.events = db.events ++ es)
    (hnever : ∀ e ∈ es, e.eventType.neverSent = false) (tenant id : String) :
    provenNeverSent db' tenant id ↔ provenNeverSent db tenant id := by
  unfold provenNeverSent
  rw [hes]
  constructor
  · rintro ⟨e, he, htenant, hid, hk⟩
    rcases mem_append.mp he with he | he
    · exact ⟨e, he, htenant, hid, hk⟩
    · rw [hnever e he] at hk
      cases hk
  · rintro ⟨e, he, hevent⟩
    exact ⟨e, mem_append_left _ he, hevent⟩

theorem neverSent_eventsOf {ks : List EventType} (h : ∀ k ∈ ks, k.neverSent = false) :
    ∀ e ∈ o.eventsOf ks time, e.eventType.neverSent = false := by
  intro e he
  obtain ⟨k, hk, rfl⟩ := mem_map.mp he
  exact h k hk

section Ingested

variable {db₀ : DB} {a₀ a : Account} {o₀ o : Order} {S : List FillReport}

theorem Ingested.accountId (h : Ingested env db₀ a₀ o₀ S db a o) : o.accountId = o₀.accountId :=
  (congrArg Order.accountId h.order :)

theorem Ingested.intentId (h : Ingested env db₀ a₀ o₀ S db a o) : o.intentId = o₀.intentId :=
  Order.intentId_of_frozen h.order

variable {a' : Account} {o' : Order}

/-- The rows that replace rows of the same identity are there. -/
theorem Located.moved {a : Account} {o : Order} (located : Located db a o)
    (hafrozen : a'.frozen = a.frozen) (hfrozen : o'.frozen = o.frozen) (es : List Event) :
    Located (db.moved a' o' es) a' o' := by
  have haid : a'.accountId = a.accountId := Account.accountId_of_frozen hafrozen
  have hid : o'.intentId = o.intentId := Order.intentId_of_frozen hfrozen
  refine ⟨haid.symm ▸ moved_account located haid, hid.symm ▸ moved_order located hid, ?_, ?_⟩
  · rw [haid, located.accountId]
    exact (congrArg Order.accountId hfrozen :).symm
  · rw [show a'.tenantId = a.tenantId from (congrArg Account.tenantId hafrozen :), located.tenantId]
    exact (congrArg Order.tenantId hfrozen :).symm

variable (h : Ingested env db₀ a₀ o₀ S db a o)
include h

/-- **One more step of an ingestion**: the trades `T` are posted, and the order
and its account move. -/
theorem Ingested.moved {db₁ : DB} {T : List FillReport}
    {ks : List EventType} (haccounts : db₁.accounts = db.accounts)
    (horders : db₁.orders = db.orders) (hevents : db₁.events = db.events)
    (hfills : db₁.fills.rows.map Fill.timeless =
      db.fills.rows.map Fill.timeless ++ T.map (o₀.trade env))
    (htransactions : db₁.ledgerTransactions.rows.map LedgerTransaction.timeless =
      db.ledgerTransactions.rows.map LedgerTransaction.timeless ++ T.map (o₀.transaction env))
    (hentries : db₁.ledgerEntries = db.ledgerEntries ++ T.flatMap (o₀.entries env))
    (ha : a' = { a with
      mode := a'.mode, reservedQuote := a.reservedQuote - o.reservedQuote + o'.reservedQuote })
    (ho : o'.frozen = o.frozen)
    (hfilled : o'.filledQuantity = o.filledQuantity + (T.map (·.quantity)).sum)
    (hterminal :
      (o'.status.terminal = o.status.terminal ∧
      (o.filledQuantity = o.quantity → o'.filledQuantity = o'.quantity)) ∨ o'.filledQuantity =
      o'.quantity)
    (hsent : o.status ≠ .reserved → o'.status ≠ .reserved) (hstatus : T = [] → o'.status = o.status)
    (hks : ∀ k ∈ ks, k.neverSent = false) :
    Ingested env db₀ a₀ o₀ (S ++ T) (db₁.moved a' o' (o.eventsOf ks time)) a' o' := by
  have located₁ : Located db₁ a o :=
    ⟨haccounts ▸ h.located.account, horders ▸ h.located.order, h.located.accountId,
      h.located.tenantId⟩
  have hafrozen : a'.frozen = a.frozen := by
    rw [ha]
    rfl
  have haid : a'.accountId = o₀.accountId :=
    (Account.accountId_of_frozen hafrozen).trans (h.located.accountId.trans h.accountId)
  have hid : o'.intentId = o₀.intentId := (Order.intentId_of_frozen ho).trans h.intentId
  have hakept : db₁.accounts.find? a'.accountId = some a :=
    (Account.accountId_of_frozen hafrozen).symm ▸ located₁.account
  have hokept : db₁.orders.find? o'.intentId = some o :=
    (Order.intentId_of_frozen ho).symm ▸ located₁.order
  refine ⟨located₁.moved hafrozen ho _, ?_, ho.trans h.order, ?_, ?_, fun hs => hsent (h.sent hs),
    ?_, ?_, ?_, ?_, ?_, ?_, ?_⟩
  · rw [ha, h.account]
    simp
  · rw [hfilled, h.filled, map_append, sum_append, add_assoc]
  · obtain ⟨hstatus, hfull⟩ | hfull := hterminal
    · exact h.terminal.imp hstatus.trans hfull
    · exact .inr hfull
  · intro hnone
    obtain ⟨hS, hT⟩ := append_eq_nil_iff.mp hnone
    exact (hstatus hT).trans (h.status hS)
  · have hes : (db₁.moved a' o' (o.eventsOf ks time)).events = db.events ++ o.eventsOf ks time := by
      rw [← hevents]
      rfl
    exact fun tenant id => (provenNeverSent_append hes (neverSent_eventsOf hks) tenant id).trans
      (h.proven tenant id)
  · intro id hne
    rw [← h.otherAccounts id hne, ← haccounts]
    exact (find?_replace hakept id).trans (if_neg (haid.symm ▸ hne))
  · intro id hne
    rw [← h.otherOrders id hne, ← horders]
    exact (find?_replace hokept id).trans (if_neg (hid.symm ▸ hne))
  · rw [map_append, ← append_assoc, ← h.fills]
    exact hfills
  · rw [map_append, ← append_assoc, ← h.transactions]
    exact htransactions
  · rw [flatMap_append, ← append_assoc, ← h.entries]
    exact hentries

theorem Ingested.settle (incoming : SettlementStatus) (time : ℕ) : ∃ a' o', Ingested env db₀ a₀ o₀ S
      (settlement db o.tenantId o incoming false time) a' o' := by
  rw [settlement_self_eq h.located]
  have hks : ∀ k ∈ (if settlementAfter o.settlementStatus incoming false ≠ o.settlementStatus then
      [EventType.settlementObserved] else []), k.neverSent = false := by
    split_ifs <;> simp [EventType.neverSent]
  generalize settlementAfter o.settlementStatus incoming false = status at hks
  have hmoved : Ingested env db₀ a₀ o₀ (S ++ [])
      (db.moved (a.settled status incoming) { o with settlementStatus := status } (o.eventsOf _ time))
      (a.settled status incoming) { o with settlementStatus := status } :=
    h.moved rfl rfl rfl (by simp) (by simp) (by simp) (by simp [Account.settled]) rfl (by simp)
      (.inl ⟨rfl, fun hf => hf⟩) (fun hs => hs) (fun _ => rfl) hks
  rw [append_nil] at hmoved
  exact ⟨_, _, hmoved⟩

/-- **A new trade is posted.** -/
theorem Ingested.post {f : FillReport} (hpos : 0 < f.quantity)
    (hnew : db.fills.find? (o.venue, o.accountId, f.venueTradeId) = none)
    (hp : Postable env db a o f time) : ∃ a' o', Ingested env db₀ a₀ o₀ (S ++ [f.economic])
      (db.filled env a o f (o.fillEvents f) time) a' o' := by
  obtain ⟨htrade, htransaction, hentries⟩ := @posting_of_frozen env _ _ h.order f.economic
  have hks : ∀ k ∈ o.fillEvents f, k.neverSent = false := by
    unfold Order.fillEvents
    split_ifs <;> simp [EventType.neverSent]
  have hfresh : db.fills.find? (fillRow env o f time).tradeKey = none := hnew
  unfold DB.filled
  generalize fillMode env db a o f time = mode
  refine ⟨_, _, h.moved rfl rfl rfl ?_ ?_ ?_ ?_ rfl ?_ ?_ ?_ (fun hnone => by cases hnone) hks⟩
  · show (db.fills.insertOnce (fillRow env o f time)).rows.map _ = _
    rw [rows_insertOnce hfresh, map_append, map_singleton, map_singleton, ← htrade]
    rfl
  · show (db.ledgerTransactions.insertOnce _).rows.map _ = _
    rw [rows_insertOnce hp.journal.find?_eq_none, map_append, map_singleton,
      map_singleton, ← htransaction]
    rfl
  · rw [flatMap_singleton, ← hentries]
    rfl
  · rfl
  · simp [FillReport.economic]
    rfl
  · by_cases hfull : o.filledQuantity + f.quantity = o.quantity
    · exact .inr hfull
    · refine .inl ⟨?_, fun hf => absurd hp.bound (by rw [hf]; simpa using hpos)⟩
      show (filledStatus o (o.filledQuantity + f.quantity)).terminal = _
      unfold filledStatus
      rw [if_neg hfull]
      split_ifs with hs
      · rfl
      · rw [not_or, Bool.not_eq_true] at hs
        exact hs.1.symm
  · intro _ hs
    exact absurd hs (by
      show filledStatus o _ ≠ .reserved
      unfold filledStatus
      split_ifs
      · simp
      · exact hp.sent
      · simp)

end Ingested

/-! ## Sequences of reports -/

/-- A report is well formed, and in the assets of an order. -/
structure Order.Accepts (o : Order) (f : FillReport) : Prop where
  check : checkFill f = .ok ()
  assets : f.baseAsset = o.payload.instrument.baseAsset
    ∧ f.quoteAsset = o.payload.instrument.quoteAsset
  gross : checkAmount (fillGross o.side f.quantity f.price) true = .ok ()

def Order.tradeKey (o : Order) (f : FillReport) : String × String × String :=
  (o.venue, o.accountId, f.venueTradeId)

def Order.digest (env : Env) (o : Order) (f : FillReport) : Sha256 :=
  env.contentHash (.fill (fillPayload o f))

/-- The trade of a report is recorded, and has its digest. -/
def DB.Knows (env : Env) (db : DB) (o : Order) (f : FillReport) : Prop :=
  ∃ g ∈ db.fills.rows.map Fill.timeless, g.tradeKey = o.tradeKey f ∧ g.sha256 = o.digest env f

/-- What decides whether a report is accepted is the same of an order of the
same identity. -/
theorem Order.reports_of_frozen (h : o'.frozen = o.frozen) (f : FillReport) :
    (o'.Accepts f ↔ o.Accepts f) ∧ o'.tradeKey f = o.tradeKey f
      ∧ o'.digest env f = o.digest env f := by
  have hid : o'.intentId = o.intentId := Order.intentId_of_frozen h
  have haccount : o'.accountId = o.accountId := (congrArg Order.accountId h :)
  have hvenue : o'.venue = o.venue := (congrArg Order.venue h :)
  have hside : o'.side = o.side := (congrArg Order.side h :)
  have hpayload : o'.payload = o.payload := (congrArg Order.payload h :)
  unfold Order.tradeKey Order.digest fillPayload
  rw [hid, haccount, hvenue, hside]
  refine ⟨⟨fun ⟨hcheck, hassets, hgross⟩ => ⟨hcheck, ?_, ?_⟩,
    fun ⟨hcheck, hassets, hgross⟩ => ⟨hcheck, ?_, ?_⟩⟩, rfl, rfl⟩
  · rwa [← hpayload]
  · rwa [← hside]
  · rwa [hpayload]
  · rwa [hside]

/-- **What an accepted sequence of reports leaves behind.** -/
structure Accepted (env : Env) (db₀ : DB) (a₀ : Account) (o₀ : Order)
    (xs : List (FillReport × ℕ)) (S : List FillReport) (db : DB) (a : Account) (o : Order) :
    Prop where
  ingested : Ingested env db₀ a₀ o₀ S db a o
  balanced : db.Balanced
  audited : db.Audited
  accepted : ∀ p ∈ xs, o₀.Accepts p.1 ∧ db.Knows env o₀ p.1
  reported : ∀ s ∈ S, ∃ p ∈ xs, s = p.1.economic
  unsent : S ≠ [] → o₀.status ≠ .reserved ∧ ¬ provenNeverSent db₀ o₀.tenantId o₀.intentId

section Accepted

variable {db₀ : DB} {a₀ a : Account} {o₀ o : Order} {S : List FillReport}
  {xs : List (FillReport × ℕ)} {f : FillReport}

theorem Accepted.refl (located : Located db a o) (hb : db.Balanced) (ha : db.Audited) :
    Accepted env db a o [] [] db a o where
  ingested := .refl located
  balanced := hb
  audited := ha
  accepted _ h := nomatch h
  reported _ h := nomatch h
  unsent h := absurd rfl h

theorem DB.Knows.mono {T : List Fill} (h : db.Knows env o f)
    (hrows : db'.fills.rows.map Fill.timeless = db.fills.rows.map Fill.timeless ++ T) :
    db'.Knows env o f := by
  obtain ⟨g, hg, hkey⟩ := h
  refine ⟨g, ?_, hkey⟩
  rw [hrows]
  exact mem_append_left _ hg

variable {g : Fill}

/-- **One more report is accepted.** -/
theorem Accepted.step (h : Accepted env db₀ a₀ o₀ xs S db a o)
    (happly : applyFill env o₀.tenantId o₀.intentId f time db = .ok (g, db')) :
    ∃ S' a' o', Accepted env db₀ a₀ o₀ (xs ++ [(f, time)]) S' db' a' o' := by
  have hcommit : Commit env time db (.applyFill o₀.tenantId o₀.intentId f) db' :=
    applyFill_commit rfl rfl happly
  obtain ⟨b, p, ⟨hcheck, hp, hb, hassets, hgross⟩, hcase⟩ := applyFill_eq_ok.mp happly
  have hfrozen := h.ingested.order
  have hid := h.ingested.intentId
  -- the transaction reads the order and the account as they stand
  obtain rfl : o = p := by
    obtain ⟨hfound, -, -⟩ := orderOf_eq_ok.mp hp
    have hlocated := h.ingested.located.order
    rw [hid] at hlocated
    exact Option.some.inj (hlocated.symm.trans hfound)
  obtain rfl : a = b := by
    obtain ⟨hfound, -⟩ := accountOf_eq_ok.mp hb
    have hlocated := h.ingested.located.account
    rw [h.ingested.located.accountId] at hlocated
    exact Option.some.inj (hlocated.symm.trans hfound)
  have htenant : o₀.tenantId = o.tenantId := (congrArg Order.tenantId hfrozen.symm :)
  obtain ⟨haccepts, hkey, hdigest⟩ := @Order.reports_of_frozen env _ _ hfrozen f
  have hacc : o₀.Accepts f := haccepts.mp ⟨hcheck, hassets, hgross⟩
  have hcommitted : ∀ {S' a' o'}, Ingested env db₀ a₀ o₀ S' db' a' o' →
      (∃ T, db'.fills.rows.map Fill.timeless = db.fills.rows.map Fill.timeless ++ T) →
      db'.Knows env o₀ f → (∀ s ∈ S', ∃ p ∈ xs ++ [(f, time)], s = p.1.economic) →
      (S' ≠ [] → o₀.status ≠ .reserved ∧ ¬ provenNeverSent db₀ o₀.tenantId o₀.intentId) →
      Accepted env db₀ a₀ o₀ (xs ++ [(f, time)]) S' db' a' o' := by
    intro S' a' o' hingested ⟨T, hrows⟩ hknown hreported hunsent
    refine ⟨hingested, hcommit.balanced h.balanced, hcommit.audited h.balanced h.audited, ?_,
      hreported, hunsent⟩
    intro p hp
    obtain hold | hnew := mem_append.mp hp
    · exact ⟨(h.accepted p hold).1, (h.accepted p hold).2.mono hrows⟩
    · rw [mem_singleton.mp hnew]
      exact ⟨hacc, hknown⟩
  have hmem : ∀ s ∈ S, ∃ p ∈ xs ++ [(f, time)], s = p.1.economic := fun s hs =>
    have ⟨p, hp, hs⟩ := h.reported s hs
    ⟨p, mem_append_left _ hp, hs⟩
  rw [htenant] at hcase
  obtain ⟨g', hfound, hsame, hr⟩ | ⟨hnew, hpost⟩ := hcase
  · -- a known trade moves the settlement only
    cases hr
    obtain ⟨a', o', hingested⟩ := h.ingested.settle f.settlementStatus time
    have hfills : (settlement db o.tenantId o f.settlementStatus false time).fills = db.fills := by
      rw [settlement_self_eq h.ingested.located]
      rfl
    refine ⟨S, a', o', hcommitted hingested ⟨[], ?_⟩ ?_ hmem h.unsent⟩
    · rw [hfills, append_nil]
    · refine ⟨g.timeless, ?_, ?_, ?_⟩
      · rw [hfills]
        exact mem_map_of_mem (mem_of_find? hfound)
      · rw [← hkey]
        exact (key_of_find? hfound : g.tradeKey = _)
      · rw [← hdigest]
        exact hsame
  · obtain ⟨hp, hr⟩ := (postFill_eq_ok h.ingested.located).mp hpost
    cases hr
    obtain ⟨a', o', hingested⟩ := h.ingested.post (checkFill_eq_ok hcheck).1.1 hnew hp
    have hfresh : db.fills.find? (fillRow env o f time).tradeKey = none := hnew
    have hrows : (db.filled env a o f (o.fillEvents f) time).fills.rows.map Fill.timeless
        = db.fills.rows.map Fill.timeless ++ [(fillRow env o f time).timeless] := by
      show (db.fills.insertOnce (fillRow env o f time)).rows.map _ = _
      rw [rows_insertOnce hfresh, map_append, map_singleton]
    refine ⟨_, a', o', hcommitted hingested ⟨_, hrows⟩ ?_ ?_ ?_⟩
    · refine ⟨(fillRow env o f time).timeless, ?_, hkey, hdigest⟩
      rw [hrows]
      exact mem_append_right _ (mem_singleton_self _)
    · intro s hs
      obtain hold | hnew := mem_append.mp hs
      · exact hmem s hold
      · exact ⟨(f, time), mem_append_right _ (mem_singleton_self _), mem_singleton.mp hnew⟩
    · intro _
      refine ⟨fun hreserved => ?_, fun hproven => ?_⟩
      · by_cases hnone : S = []
        · exact hp.sent ((h.ingested.status hnone).trans hreserved)
        · exact (h.unsent hnone).1 hreserved
      · refine hp.unproven ?_
        rw [← htenant, hid]
        exact (h.ingested.proven _ _).mpr hproven

variable {ys : List (FillReport × ℕ)}

/-- **A whole sequence is accepted** after what was accepted before. -/
theorem Accepted.run (h : Accepted env db₀ a₀ o₀ xs S db a o)
    (hrun : ingest env o₀.tenantId o₀.intentId ys db = .ok db') :
    ∃ S' a' o', Accepted env db₀ a₀ o₀ (xs ++ ys) S' db' a' o' := by
  induction ys generalizing xs S db a o with
  | nil =>
    cases hrun
    refine ⟨S, a, o, ?_⟩
    rwa [append_nil]
  | cons p ys ih =>
    obtain ⟨⟨g, db₁⟩, happly, hrest⟩ := of_bind hrun
    obtain ⟨S₁, a₁, o₁, h₁⟩ := h.step happly
    obtain ⟨S', a', o', h'⟩ := ih h₁ hrest
    refine ⟨S', a', o', ?_⟩
    rwa [append_assoc, singleton_append] at h'

/-! ## The trades of a sequence -/

/-- The reports of a trade with one digest have one content. -/
theorem FillReport.economic_eq {f f' : FillReport} (hid : f.venueTradeId = f'.venueTradeId)
    (hpayload : fillPayload o f = fillPayload o f') : f.economic = f'.economic := by
  obtain ⟨id, quantity, price, fee, feeAsset, baseAsset, quoteAsset, settlement⟩ := f
  obtain ⟨id', quantity', price', fee', feeAsset', baseAsset', quoteAsset', settlement'⟩ := f'
  unfold fillPayload at hpayload
  unfold FillReport.economic
  simp only [FillPayload.mk.injEq] at hpayload
  obtain ⟨-, hquantity, hprice, hfee, hfeeAsset, hbase, hquote, -⟩ := hpayload
  dsimp only at hid hquantity hprice hfee hfeeAsset hbase hquote
  rw [hid, hquantity, hprice, hfee, hfeeAsset, hbase, hquote]

/-- No two of the reports share a digest without sharing what it is of. -/
def Order.Collisionless (env : Env) (o : Order) (fs : List FillReport) : Prop :=
  ∀ f ∈ fs, ∀ f' ∈ fs, o.digest env f = o.digest env f' → fillPayload o f = fillPayload o f'

theorem nodup_timeless (db : DB) : ((db.fills.rows.map Fill.timeless).map Fill.tradeKey).Nodup := by
  rw [map_map]
  exact db.fills.nodup

section

variable (h : Accepted env db₀ a₀ o₀ xs S db a o)
include h

/-- A report of the sequence has the digest of the trade that is recorded. -/
theorem Accepted.digest_of_mem {p : FillReport × ℕ}
    (hp : p ∈ xs) (hg : g ∈ db.fills.rows.map Fill.timeless) (hkey : g.tradeKey = o₀.tradeKey p.1) :
    g.sha256 = o₀.digest env p.1 := by
  obtain ⟨g', hg', hkey', hdigest⟩ := (h.accepted p hp).2
  rw [inj_on_of_nodup_map (nodup_timeless db) hg hg' (hkey.trans hkey'.symm)]
  exact hdigest

/-- **The trades that a sequence posts** are those it reports and that were not
there before. -/
theorem Accepted.mem_iff (hone : o₀.Collisionless env (xs.map Prod.fst)) (s : FillReport) :
    s ∈ S ↔ (∃ p ∈ xs, s = p.1.economic) ∧ ∀ g ∈ db₀.fills.rows, g.tradeKey ≠ o₀.tradeKey s := by
  constructor
  · intro hs
    refine ⟨h.reported s hs, fun g hg hkey => ?_⟩
    have hnodup := nodup_timeless db
    rw [h.ingested.fills, map_append] at hnodup
    refine (nodup_append.mp hnodup).2.2 (o₀.tradeKey s) ?_ (o₀.tradeKey s) ?_ rfl
    · rw [map_map]
      exact mem_map.mpr ⟨g, hg, hkey⟩
    · rw [map_map]
      exact mem_map.mpr ⟨s, hs, rfl⟩
  · rintro ⟨⟨p, hp, rfl⟩, hnew⟩
    obtain ⟨g, hg, hkey, hdigest⟩ := (h.accepted p hp).2
    rw [h.ingested.fills] at hg
    obtain hold | hposted := mem_append.mp hg
    · obtain ⟨g₀, hg₀, rfl⟩ := mem_map.mp hold
      exact absurd hkey (hnew g₀ hg₀)
    · obtain ⟨s, hs, rfl⟩ := mem_map.mp hposted
      obtain ⟨q, hq, rfl⟩ := h.reported s hs
      have hid : q.1.venueTradeId = p.1.venueTradeId :=
        congrArg (fun k : String × String × String => k.2.2) hkey
      have hpayload := hone q.1 (mem_map_of_mem hq) p.1 (mem_map_of_mem hp) hdigest
      rwa [← FillReport.economic_eq hid hpayload]

theorem Accepted.reserved : o.Reserved :=
  (h.balanced.order o (mem_of_find? h.ingested.located.order)).2

theorem Accepted.quantity_pos :
    ∀ s ∈ S, 0 < s.quantity := by
  intro s hs
  obtain ⟨p, hp, rfl⟩ := h.reported s hs
  exact (checkFill_eq_ok (h.accepted p hp).1.check).1.1

theorem Accepted.trades_nodup : S.Nodup := by
  have hnodup := nodup_timeless db
  rw [h.ingested.fills, map_append] at hnodup
  exact .of_map _ (.of_map _ (nodup_append.mp hnodup).2.1)

end

variable {zs : List (FillReport × ℕ)} {S₁ : List FillReport} {db₁ : DB} {a₁ : Account} {o₁ : Order}

theorem Accepted.subset (h₁ : Accepted env db₀ a₀ o₀ xs S₁ db₁ a₁ o₁)
    (h : Accepted env db₀ a₀ o₀ zs S db a o) (hone : o₀.Collisionless env (xs.map Prod.fst))
    (hsub : zs.map Prod.fst ⊆ xs.map Prod.fst) : S ⊆ S₁ := by
  have hone' : o₀.Collisionless env (zs.map Prod.fst) :=
    fun f hf f' hf' => hone f (hsub hf) f' (hsub hf')
  intro s hs
  obtain ⟨⟨p, hp, rfl⟩, hnew⟩ := (h.mem_iff hone' s).mp hs
  obtain ⟨q, hq, hsame⟩ := mem_map.mp (hsub (mem_map_of_mem hp))
  exact (h₁.mem_iff hone _).mpr ⟨⟨q, hq, by rw [hsame]⟩, hnew⟩

/-! ## Any other order -/

theorem fillEntries_balanced (side : Side) (f : FillReport) :
    ∀ e ∈ fillEntries side f, journalTotal (fillEntries side f) e.1 = 0 := by
  intro e _
  generalize e.1 = asset
  unfold fillEntries journalTotal
  by_cases hbase : f.baseAsset = asset <;> by_cases hquote : f.quoteAsset = asset <;>
    by_cases hfee : f.feeAsset = asset <;> simp [hbase, hquote, hfee]

theorem Order.Accepts.fits (h : o.Accepts f) : ∀ e ∈ fillEntries o.side f, Fits e.2.2 := by
  obtain ⟨⟨_, hquantity⟩, -, -, hfee⟩ := checkFill_eq_ok h.check
  obtain ⟨-, -, hgross⟩ := checkAmount_eq_ok h.gross
  unfold fillEntries
  generalize fillGross o.side f.quantity f.price = gross at hgross
  cases o.side <;> simp [hquantity, hfee, hgross, hquantity.neg, hfee.neg, hgross.neg]

/-- Of what has one key each, one more has another key. -/
theorem key_ne_of_subperm {α β : Type} {k : α → β} {ls ms : List α} {x : α}
    (h : (ls ++ [x]).Subperm ms) (hnodup : (ms.map k).Nodup) : ∀ y ∈ ls, k y ≠ k x := by
  obtain ⟨ms', hperm, hsublist⟩ := h
  have hmap : ((ls ++ [x]).map k).Nodup :=
    (hperm.map k).nodup_iff.mp (hnodup.sublist (hsublist.map k))
  rw [map_append] at hmap
  exact fun y hy => (nodup_append.mp hmap).2.2 _ (mem_map_of_mem hy) _
    (mem_map_of_mem (mem_singleton_self x))

variable (h₁ : Accepted env db₀ a₀ o₀ xs S₁ db₁ a₁ o₁)
include h₁

/-- **A trade that one sequence posts can be posted in any other** that has not
posted it yet, and has posted nothing else. -/
theorem Accepted.postable (h : Accepted env db₀ a₀ o₀ zs S db a o) (hacc : o₀.Accepts f)
    (hsub : (S ++ [f.economic]).Subperm S₁) (time : ℕ) : Postable env db a o f time := by
  have hfrozen := h.ingested.order
  have hpos : 0 < f.quantity := (checkFill_eq_ok hacc.check).1.1
  have haccount : o.accountId = o₀.accountId := h.ingested.accountId
  have htrade : (fillRow env o f time).fillId = (o₀.trade env f.economic).fillId :=
    (congrArg Fill.fillId (@posting_of_frozen env _ _ hfrozen f.economic).1 :)
  have hne : S₁ ≠ [] := by
    rintro rfl
    exact absurd (hsub.length_le) (by simp)
  obtain ⟨hsent, hunproven⟩ := h₁.unsent hne
  -- the trades posted so far and this one are among those of the other sequence
  have hfills : (db.fills.rows.map Fill.timeless ++ [o₀.trade env f.economic]).Subperm
      (db₁.fills.rows.map Fill.timeless) := by
    rw [h.ingested.fills, h₁.ingested.fills, append_assoc, ← map_singleton, ← map_append]
    obtain ⟨S₂, hperm, hsublist⟩ := hsub
    exact (subperm_append_left _).mpr ⟨_, hperm.map _, hsublist.map _⟩
  have htransactions : (db.ledgerTransactions.rows.map LedgerTransaction.timeless
        ++ [o₀.transaction env f.economic]).Subperm
      (db₁.ledgerTransactions.rows.map LedgerTransaction.timeless) := by
    rw [h.ingested.transactions, h₁.ingested.transactions, append_assoc,
      ← map_singleton, ← map_append]
    obtain ⟨S₂, hperm, hsublist⟩ := hsub
    exact (subperm_append_left _).mpr ⟨_, hperm.map _, hsublist.map _⟩
  have hbound : o.filledQuantity + f.quantity ≤ o.quantity := by
    have hvalid := (h₁.balanced.order o₁ (mem_of_find? h₁.ingested.located.order)).1
    have hle : (S.map (·.quantity)).sum + f.quantity ≤ (S₁.map (·.quantity)).sum := by
      obtain ⟨S₂, hperm, hsublist⟩ := hsub
      have hsum := (hsublist.map FillReport.quantity).sum_le_sum (by
        rintro _ hx
        obtain ⟨s, hs, rfl⟩ := mem_map.mp hx
        exact (h₁.quantity_pos s hs).le)
      rwa [(hperm.map FillReport.quantity).sum_eq, map_append, sum_append,
        map_singleton, sum_singleton] at hsum
    have hquantity : o.quantity = o₁.quantity := by
      rw [show o.quantity = o₀.quantity from (congrArg Order.quantity hfrozen :)]
      exact (congrArg Order.quantity h₁.ingested.order.symm :)
    have hfull : o₁.filledQuantity ≤ o₁.quantity := hvalid.2.2.2.2.2.2
    rw [h₁.ingested.filled] at hfull
    rw [h.ingested.filled, hquantity]
    linarith
  have hrow := h.balanced.order o (mem_of_find? h.ingested.located.order)
  refine ⟨h.ingested.sent hsent, ?_, hbound, ?_, ⟨fillEntries_balanced _ _, ?_, ?_⟩,
    hrow.1.filling hrow.2 hpos.le (checkFill_eq_ok hacc.check).1.2.1 hbound time,
    h.balanced.account_filling h.ingested.located hpos.le hbound⟩
  · rw [h.ingested.proven, h.ingested.intentId,
      show o.tenantId = o₀.tenantId from (congrArg Order.tenantId hfrozen :)]
    exact hunproven
  · intro g hg
    rw [htrade]
    refine key_ne_of_subperm (k := Fill.fillId) hfills ?_ g.timeless (mem_map_of_mem hg)
    rw [map_map]
    exact h₁.audited.fillIds
  · intro t ht
    rw [haccount, htrade]
    constructor
    · refine key_ne_of_subperm (k := LedgerTransaction.transactionId) htransactions ?_ t.timeless
        (mem_map_of_mem ht)
      rw [map_map]
      exact h₁.audited.transactionIds
    · refine key_ne_of_subperm (k := LedgerTransaction.sourceKey) htransactions ?_ t.timeless
        (mem_map_of_mem ht)
      rw [map_map]
      exact db₁.ledgerTransactions.nodup
  · exact ((@Order.reports_of_frozen env _ _ hfrozen f).1.mpr hacc).fits

/-- **A report that one sequence accepted is accepted in any other** of the same
reports. -/
theorem Accepted.accepts
    (h : Accepted env db₀ a₀ o₀ zs S db a o) (hone : o₀.Collisionless env (xs.map Prod.fst))
    (hsub : zs.map Prod.fst ⊆ xs.map Prod.fst)
    (hread : env.contentHash (.envelope o₀.payload) = o₀.sha256) (hf : f ∈ xs.map Prod.fst)
    (time : ℕ) : ∃ r, applyFill env o₀.tenantId o₀.intentId f time db = .ok r := by
  obtain ⟨⟨f, t⟩, hp, rfl⟩ := mem_map.mp hf
  have hfrozen := h.ingested.order
  have located := h.ingested.located
  have htenant : o.tenantId = o₀.tenantId := (congrArg Order.tenantId hfrozen :)
  obtain ⟨hacc, hknown⟩ := h₁.accepted _ hp
  obtain ⟨haccepts, hkey, hdigest⟩ := @Order.reports_of_frozen env _ _ hfrozen f
  have hacco : o.Accepts f := haccepts.mpr hacc
  have hsubset := h₁.subset h hone hsub
  have horder : orderOf env db o₀.tenantId o₀.intentId = .ok o := by
    refine orderOf_eq_ok.mpr ⟨h.ingested.intentId ▸ located.order, htenant, ?_⟩
    rw [show o.payload = o₀.payload from (congrArg Order.payload hfrozen :),
      show o.sha256 = o₀.sha256 from (congrArg Order.sha256 hfrozen :)]
    exact hread
  have haccount : accountOf db o₀.tenantId o.accountId = .ok a :=
    accountOf_eq_ok.mpr ⟨located.accountId ▸ located.account, located.tenantId.trans htenant⟩
  have hrows : ∀ g ∈ db.fills.rows.map Fill.timeless, g ∈ db₁.fills.rows.map Fill.timeless := by
    rw [h.ingested.fills, h₁.ingested.fills]
    exact fun g hg => (mem_append.mp hg).elim (mem_append_left _)
      (fun hg => mem_append_right _ (map_subset _ hsubset hg))
  have happlicable : Applicable env db o₀.tenantId o₀.intentId f a o :=
    ⟨hacco.check, horder, haccount, hacco.assets, hacco.gross⟩
  cases hfind : db.fills.find? (o.venue, o.accountId, f.venueTradeId) with
  | some g =>
    refine ⟨_, applyFill_eq_ok.mpr ⟨a, o, happlicable, .inl ⟨g, hfind, ?_, rfl⟩⟩⟩
    have hkeyg : g.tradeKey = o₀.tradeKey f := (key_of_find? hfind).trans hkey
    exact (h₁.digest_of_mem hp (hrows _ (mem_map_of_mem (mem_of_find? hfind)))
      hkeyg).trans hdigest.symm
  | none =>
    have hnew : f.economic ∈ S₁ := by
      refine (h₁.mem_iff hone _).mpr ⟨⟨_, hp, rfl⟩, fun g hg hkeyg => ?_⟩
      have hmem : g.timeless ∈ db.fills.rows.map Fill.timeless := by
        rw [h.ingested.fills]
        exact mem_append_left _ (mem_map_of_mem hg)
      obtain ⟨g', hg', hsame⟩ := mem_map.mp hmem
      have hkey' : g'.tradeKey = (o.venue, o.accountId, f.venueTradeId) :=
        (congrArg Fill.tradeKey hsame :).trans (hkeyg.trans hkey.symm)
      have hfound := find?_of_mem hg'
      rw [hkey', hfind] at hfound
      cases hfound
    have hunposted : f.economic ∉ S := by
      intro hmem
      have hposted : o₀.trade env f.economic ∈ db.fills.rows.map Fill.timeless := by
        rw [h.ingested.fills]
        exact mem_append_right _ (mem_map_of_mem hmem)
      obtain ⟨g, hg, hsame⟩ := mem_map.mp hposted
      have hkeyg : g.tradeKey = (o.venue, o.accountId, f.venueTradeId) :=
        (congrArg Fill.tradeKey hsame :).trans hkey.symm
      have hfound := find?_of_mem hg
      rw [hkeyg, hfind] at hfound
      cases hfound
    have hsubperm : (S ++ [f.economic]).Subperm S₁ := by
      refine subperm_of_subset ?_ ?_
      · refine nodup_append.mpr ⟨h.trades_nodup, nodup_singleton _, ?_⟩
        rintro s hs _ hmem rfl
        exact hunposted (mem_singleton.mp hmem ▸ hs)
      · exact append_subset.mpr ⟨hsubset, cons_subset.mpr ⟨hnew, nil_subset _⟩⟩
    have hpost := (postFill_eq_ok located).mpr ⟨h₁.postable h hacc hsubperm time, rfl⟩
    rw [htenant] at hpost
    exact ⟨_, applyFill_eq_ok.mpr ⟨a, o, happlicable, .inr ⟨hfind, hpost⟩⟩⟩

/-- **Any other sequence of the same reports is accepted.** -/
theorem Accepted.ingest_of_same (hone : o₀.Collisionless env (xs.map Prod.fst))
    (hread : env.contentHash (.envelope o₀.payload) = o₀.sha256)
    (h : Accepted env db₀ a₀ o₀ zs S db a o) (hsub : zs.map Prod.fst ⊆ xs.map Prod.fst)
    (hys : ys.map Prod.fst ⊆ xs.map Prod.fst) :
    ∃ db', ingest env o₀.tenantId o₀.intentId ys db = .ok db' := by
  induction ys generalizing zs S db a o with
  | nil => exact ⟨db, rfl⟩
  | cons p ys ih =>
    obtain ⟨hp, hys'⟩ := cons_subset.mp hys
    obtain ⟨⟨g, db₂⟩, happly⟩ := h₁.accepts h hone hsub hread hp p.2
    obtain ⟨S₂, a₂, o₂, h₂⟩ := h.step happly
    have hsub₂ : (zs ++ [(p.1, p.2)]).map Prod.fst ⊆ xs.map Prod.fst := by
      rw [map_append]
      exact append_subset.mpr ⟨hsub, cons_subset.mpr ⟨hp, nil_subset _⟩⟩
    obtain ⟨db', hrest⟩ := ih h₂ hsub₂ hys'
    exact ⟨db', bind_eq_ok.mpr ⟨_, happly, hrest⟩⟩

end Accepted

/-! ## The same books -/

/-- What an order is, how far it is filled and what it reserves. -/
def Order.books (o : Order) : Order :=
  { o.frozen with
    filledQuantity := o.filledQuantity, reservedQuote := o.reservedQuote
    reservedBase := o.reservedBase }

/-- **Two databases have the same books**: the same balances, orders,
reservations, trades and journal transactions, in any order. -/
structure SameBooks (db db' : DB) : Prop where
  wallet : ∀ id asset, db'.balance id asset = db.balance id asset
  accounts : ∀ id, (db'.accounts.find? id).map Account.books
    = (db.accounts.find? id).map Account.books
  orders : ∀ id, (db'.orders.find? id).map Order.books = (db.orders.find? id).map Order.books
  fills : (db'.fills.rows.map Fill.timeless).Perm (db.fills.rows.map Fill.timeless)
  transactions : (db'.ledgerTransactions.rows.map LedgerTransaction.timeless).Perm
    (db.ledgerTransactions.rows.map LedgerTransaction.timeless)

theorem balance_of_perm (h : db'.ledgerEntries.Perm db.ledgerEntries) (id asset : String) :
    db'.balance id asset = db.balance id asset := by
  unfold DB.balance DB.walletEntries
  exact (((h.filter _).filter _).map _).sum_eq

section SameBooks

variable {db₀ db₁ : DB} {a₀ a a₁ : Account} {o₀ o o₁ : Order} {S S₁ : List FillReport}

/-- Two orders that come of one by the same trades reserve the same. -/
theorem Ingested.order_books (h : Ingested env db₀ a₀ o₀ S db a o) (hr : o.Reserved)
    (h₁ : Ingested env db₀ a₀ o₀ S₁ db₁ a₁ o₁) (hr₁ : o₁.Reserved) (hperm : S.Perm S₁) :
    o.books = o₁.books := by
  have hfrozen : o.frozen = o₁.frozen := h.order.trans h₁.order.symm
  have hquantity : o.quantity = o₁.quantity := (congrArg Order.quantity hfrozen :)
  have hfilled : o.filledQuantity = o₁.filledQuantity := by
    rw [h.filled, h₁.filled, (hperm.map FillReport.quantity).sum_eq]
  have hremaining : remainingQuote o o.filledQuantity = remainingQuote o₁ o₁.filledQuantity
      ∧ remainingBase o o.filledQuantity = remainingBase o₁ o₁.filledQuantity := by
    by_cases hfull : o.filledQuantity = o.quantity
    · have hfull₁ : o₁.filledQuantity = o₁.quantity := by rw [← hfilled, hfull, hquantity]
      rw [hfull, hfull₁, (remaining_of_filled o).1, (remaining_of_filled o).2,
        (remaining_of_filled o₁).1, (remaining_of_filled o₁).2]
      exact ⟨rfl, rfl⟩
    · have hfull₁ : o₁.filledQuantity ≠ o₁.quantity := by
        rw [← hfilled, ← hquantity]
        exact hfull
      have hterminal : o.status.terminal = o₁.status.terminal :=
        (h.terminal.resolve_right hfull).trans (h₁.terminal.resolve_right hfull₁).symm
      rw [← hfilled]
      exact remaining_congr hfrozen hterminal _
  unfold Order.books
  rw [hfrozen, hfilled, hr.1, hr₁.1, hr.2, hr₁.2, hremaining.1, hremaining.2]

/-- **The same trades leave the same books behind.** -/
theorem Ingested.sameBooks (h : Ingested env db₀ a₀ o₀ S db a o) (hr : o.Reserved)
    (h₁ : Ingested env db₀ a₀ o₀ S₁ db₁ a₁ o₁) (hr₁ : o₁.Reserved) (hperm : S.Perm S₁) :
    SameBooks db₁ db := by
  have hbooks := h.order_books hr h₁ hr₁ hperm
  have haccount : ∀ {db a o S}, Ingested env db₀ a₀ o₀ S db a o → a.accountId = o₀.accountId :=
    fun h => h.located.accountId.trans h.accountId
  refine ⟨balance_of_perm ?_, ?_, ?_, ?_, ?_⟩
  · rw [h.entries, h₁.entries]
    exact (hperm.flatMap_right _).append_left _
  · intro id
    by_cases hid : id = o₀.accountId
    · rw [hid, ← haccount h, h.located.account, haccount h, ← haccount h₁, h₁.located.account]
      refine congrArg some ?_
      have hquote : o.reservedQuote = o₁.reservedQuote := (congrArg Order.reservedQuote hbooks :)
      rw [h.account, h₁.account, hquote]
      rfl
    · rw [h.otherAccounts id hid, h₁.otherAccounts id hid]
  · intro id
    by_cases hid : id = o₀.intentId
    · rw [hid, ← h.intentId, h.located.order, h.intentId, ← h₁.intentId, h₁.located.order]
      exact congrArg some hbooks
    · rw [h.otherOrders id hid, h₁.otherOrders id hid]
  · rw [h.fills, h₁.fills]
    exact (hperm.map _).append_left _
  · rw [h.transactions, h₁.transactions]
    exact (hperm.map _).append_left _

end SameBooks

/-! ## One journal transaction for each trade -/

/-- **Trades and their journal transactions come in pairs.** -/
structure DB.Paired (db : DB) : Prop where
  posted : ∀ g ∈ db.fills.rows, ∃ t ∈ db.ledgerTransactions.rows,
    t.sourceKey = (g.accountId, .trade, g.fillId)
  traded : ∀ t ∈ db.ledgerTransactions.rows, t.kind = .trade →
    ∃ g ∈ db.fills.rows, t.sourceKey = (g.accountId, .trade, g.fillId)
  fillIds : (db.fills.rows.map Fill.fillId).Nodup

/-- A journal transaction of a trade is of a recorded one, after a commit. -/
theorem Commit.traded (h : Commit env time db tx db')
    (htraded : ∀ t ∈ db.ledgerTransactions.rows, t.kind = .trade →
      ∃ g ∈ db.fills.rows, t.sourceKey = (g.accountId, .trade, g.fillId)) :
    ∀ t ∈ db'.ledgerTransactions.rows, t.kind = .trade →
      ∃ g ∈ db'.fills.rows, t.sourceKey = (g.accountId, .trade, g.fillId) := by
  intro t ht hkind
  cases h with
  | aside h =>
    rw [h.fills]
    exact htraded t (h.ledgerTransactions ▸ ht) hkind
  | fund _ _ _ _ _ _ _ hjournal =>
    obtain hold | rfl := (mem_rows_insertOnce hjournal.find?_eq_none).mp ht
    · exact htraded t hold hkind
    · cases hkind
  | reopen | reserve | move => exact htraded t ht hkind
  | @fill _ a o f ks _ _ _ _ _ hnew _ _ _ _ hjournal =>
    have hfresh : db.fills.find? (fillRow env o f time).tradeKey = none := hnew
    obtain hold | rfl := (mem_rows_insertOnce hjournal.find?_eq_none).mp ht
    · obtain ⟨g, hg, hkey⟩ := htraded t hold hkind
      exact ⟨g, (mem_rows_insertOnce hfresh).mpr (.inl hg), hkey⟩
    · exact ⟨_, (mem_rows_insertOnce hfresh).mpr (.inr rfl), rfl⟩

/-- **Everything that holds of the books of a run.** -/
structure DB.Booked (db : DB) : Prop where
  balanced : db.Balanced
  audited : db.Audited
  traded : ∀ t ∈ db.ledgerTransactions.rows, t.kind = .trade →
    ∃ g ∈ db.fills.rows, t.sourceKey = (g.accountId, .trade, g.fillId)

/-- **Commits keep the books booked.** -/
theorem Commit.booked (h : Commit env time db tx db') (hb : db.Booked) : db'.Booked where
  balanced := h.balanced hb.balanced
  audited := h.audited hb.balanced hb.audited
  traded := h.traded hb.traded

theorem System.booked_after (env : Env) (ls : List Label) : (after env ls).db.Booked :=
  inv_after DB.Booked ⟨balanced_empty, audited_empty, fun _ h => nomatch h⟩ (fun h => h.booked) ls

variable {intentId : String}

theorem booked_ingest {tenant : String} {xs : List (FillReport × ℕ)}
    (h : ingest env tenant intentId xs db = .ok db') (hb : db.Booked) : db'.Booked := by
  induction xs generalizing db with
  | nil =>
    cases h
    exact hb
  | cons p xs ih =>
    obtain ⟨⟨g, db₁⟩, happly, hrest⟩ := of_bind h
    have hcommit : Commit env p.2 db (.applyFill tenant intentId p.1) db₁ :=
      applyFill_commit rfl rfl happly
    exact ih hrest (hcommit.booked hb)

theorem DB.Booked.paired (h : db.Booked) : db.Paired where
  posted g hg := by
    obtain ⟨t, ht⟩ := h.audited.journaled g hg
    exact ⟨t, mem_of_find? ht, key_of_find? ht⟩
  traded := h.traded
  fillIds := h.audited.fillIds

/-! ## Main result -/

variable {f : FillReport} {outcome : Outcome}

/-- A transaction that ingests a report does so by `apply_fill`. -/
theorem applyFill_of_exec (htx : tx.fill = some (intentId, f))
    (h : tx.exec env time db = .ok (outcome, db')) :
    ∃ tenant fill, applyFill env tenant intentId f time db = .ok (fill, db') := by
  cases tx with
  | applyFill tenant id report =>
    cases htx
    obtain ⟨⟨fill, _⟩, happly, h⟩ := of_bind h
    cases h
    exact ⟨tenant, fill, happly⟩
  | reconcileFill tenant accountId venue item =>
    obtain ⟨⟨fill, _⟩, happly, h⟩ := of_bind h
    cases h
    obtain ⟨report, hfields, hitem⟩ := Option.map_eq_some_iff.mp htx
    cases hitem
    unfold reconcileFill at happly
    rw [hfields] at happly
    obtain ⟨_, _, happly⟩ := of_bind happly
    exact ⟨tenant, fill, (of_raiseIf happly).2⟩
  | _ => cases htx

/-- **A report of a known trade changes no books**, whatever it says. -/
theorem sameBooks_of_known {g : Fill} (htx : tx.fill = some (intentId, f))
    (h : tx.exec env time db = .ok (outcome, db')) (ho : db.orders.find? intentId = some o)
    (hg : db.fills.find? (o.tradeKey f) = some g) :
    g.sha256 = o.digest env f ∧ SameBooks db db' ∧ db'.fills = db.fills
      ∧ db'.ledgerTransactions = db.ledgerTransactions ∧ db'.ledgerEntries = db.ledgerEntries := by
  obtain ⟨tenant, fill, happly⟩ := applyFill_of_exec htx h
  obtain ⟨a, p, ⟨hcheck, hp, ha, -⟩, hcase⟩ := applyFill_eq_ok.mp happly
  obtain ⟨located, hid, htenant⟩ := Located.of_read hp ha
  obtain rfl : o = p := Option.some.inj (ho.symm.trans (orderOf_eq_ok.mp hp).1)
  obtain ⟨g', hfound, hsame, hr⟩ | ⟨hnew, -⟩ := hcase
  · obtain rfl : g = g' := Option.some.inj (hg.symm.trans hfound)
    cases hr
    rw [← htenant, settlement_self_eq located]
    refine ⟨hsame, ⟨balance_of_perm (.refl _), ?_, ?_, .refl _, .refl _⟩, rfl, rfl, rfl⟩
    · intro id
      refine (congrArg (Option.map Account.books)
        (find?_replace (r := a) (by exact located.account) id)).trans ?_
      split_ifs with hkey
      · rw [hkey]
        exact (congrArg (Option.map Account.books) located.account.symm :)
      · rfl
    · intro id
      refine (congrArg (Option.map Order.books)
        (find?_replace (r := o) (by exact located.order) id)).trans ?_
      split_ifs with hkey
      · rw [hkey]
        exact (congrArg (Option.map Order.books) located.order.symm :)
      · rfl
  · rw [show o.tradeKey f = (o.venue, o.accountId, f.venueTradeId) from rfl, hnew] at hg
    cases hg

/-- **The ledger, conserved and idempotent.** After every run: each journal
transaction balances, each wallet is its funding and its recorded trades, and
trades and journal transactions come in pairs. Where a sequence of reports of
an order is accepted, so is every other one that reports the same, in any
order and with any repetitions, and it leaves the same books behind. A report
of a known trade changes no books, and is refused unless it has the digest of
the trade. -/
theorem System.ledger_idempotent (env : Env) (ls : List Label) :
    (∀ transactionId asset, (after env ls).db.journalSum transactionId asset = 0) ∧
    (∀ id asset, (after env ls).db.balance id asset = funding (after env ls).db.accounts id asset
      + (after env ls).db.fills.sumOf (fun g => g.accountId = id) ((after env ls).db.delta asset)) ∧
    (after env ls).db.Paired ∧
    (∀ (o : Order) (xs : List (FillReport × ℕ)) (db₁ : DB),
      orderOf env (after env ls).db o.tenantId o.intentId = .ok o →
      ingest env o.tenantId o.intentId xs (after env ls).db = .ok db₁ →
      o.Collisionless env (xs.map Prod.fst) →
      ∀ ys : List (FillReport × ℕ), (∀ f, f ∈ ys.map Prod.fst ↔ f ∈ xs.map Prod.fst) →
        ∃ db₂, ingest env o.tenantId o.intentId ys (after env ls).db = .ok db₂
          ∧ SameBooks db₁ db₂ ∧ db₂.Paired) ∧
    (∀ time tx intentId f outcome db' o g, Transaction.fill tx = some (intentId, f) →
      tx.exec env time (after env ls).db = .ok (outcome, db') →
      (after env ls).db.orders.find? intentId = some o →
      (after env ls).db.fills.find? (o.tradeKey f) = some g →
      g.sha256 = o.digest env f ∧ SameBooks (after env ls).db db'
        ∧ db'.fills = (after env ls).db.fills
        ∧ db'.ledgerTransactions = (after env ls).db.ledgerTransactions
        ∧ db'.ledgerEntries = (after env ls).db.ledgerEntries) := by
  have hbooked := booked_after env ls
  refine ⟨hbooked.audited.zero, hbooked.audited.wallet, hbooked.paired, ?_, ?_⟩
  · intro o xs db₁ horder hrun hone ys hsame
    obtain ⟨hfound, -, hread⟩ := orderOf_eq_ok.mp horder
    obtain ⟨a, ha, htenant⟩ := hbooked.balanced.owned o (mem_of_find? hfound)
    have haid : a.accountId = o.accountId := key_of_find? ha
    have located : Located (after env ls).db a o := ⟨haid.symm ▸ ha, hfound, haid, htenant⟩
    have hstart : Accepted env (after env ls).db a o [] [] (after env ls).db a o :=
      .refl located hbooked.balanced hbooked.audited
    obtain ⟨S₁, a₁, o₁, h₁⟩ := hstart.run hrun
    obtain ⟨db₂, hrun₂⟩ := h₁.ingest_of_same hone hread hstart (nil_subset _)
      (fun f hf => (hsame f).mp hf)
    obtain ⟨S₂, a₂, o₂, h₂⟩ := hstart.run hrun₂
    have hone₂ : o.Collisionless env (ys.map Prod.fst) :=
      fun f hf f' hf' => hone f ((hsame f).mp hf) f' ((hsame f').mp hf')
    have hperm : S₂.Perm S₁ := by
      refine (perm_ext_iff_of_nodup h₂.trades_nodup h₁.trades_nodup).mpr fun s => ⟨?_, ?_⟩
      · exact fun hs => h₁.subset h₂ hone (fun f hf => (hsame f).mp hf) hs
      · exact fun hs => h₂.subset h₁ hone₂ (fun f hf => (hsame f).mpr hf) hs
    exact ⟨db₂, hrun₂, h₂.ingested.sameBooks h₂.reserved h₁.ingested h₁.reserved hperm,
      (booked_ingest hrun₂ hbooked).paired⟩
  · intro time tx intentId f outcome db' o g htx hexec ho hg
    exact sameBooks_of_known htx hexec ho hg

end Qt
