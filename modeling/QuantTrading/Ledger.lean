import QuantTrading.Reservations

/-!
# The ledger

Money moves by journal transactions only, and each of them balances. An
account is funded once, by the transaction that opens it; every other wallet
entry belongs to a trade. So the wallet of an account is its funding and what
its recorded trades did (`DB.Audited`), whatever order they were reported in.
-/

namespace Qt

open Except List Table
open Machine
open SigDigits

variable {env : Env} {time : ℕ} {db db' : DB} {tx : Transaction}

/-! ## Journal transactions balance -/

/-- The total of an asset over the entries of a posted transaction. -/
def DB.journalSum (db : DB) (transactionId : Sha256) (asset : String) : ℚ :=
  ((db.ledgerEntries.filter (fun e => e.transactionId = transactionId ∧ e.asset = asset)).map
    (·.amount)).sum

variable {accountId : String} {entries : List (String × Bucket × ℚ)} {kind : JournalKind}
  {source : String}

/-- Entries that balance in the assets they name balance in every asset. -/
theorem Journalable.total_eq_zero (h : Journalable env db accountId kind source entries)
    (asset : String) : journalTotal entries asset = 0 := by
  by_cases hmem : ∃ e ∈ entries, e.1 = asset
  · obtain ⟨e, he, rfl⟩ := hmem
    exact h.balanced e he
  · unfold journalTotal
    rw [filter_eq_nil_iff.mpr (fun e he => by simpa using fun hasset => hmem ⟨e, he, hasset⟩)]
    rfl

/-- What is summed of rows of which some are added. -/
theorem sum_filter_append_map {α β : Type} {l : List β} {m : List α} {f : α → β} {p : β → Bool}
    {q : α → Bool} {c : Prop} [Decidable c] {g : β → ℚ} (h : ∀ a, p (f a) = (decide c && q a)) :
    (((l ++ m.map f).filter p).map g).sum
      = ((l.filter p).map g).sum + if c then ((m.filter q).map (g ∘ f)).sum else 0 := by
  rw [filter_append, map_append, sum_append, filter_map, map_map,
    show p ∘ f = fun a => decide c && q a from funext h]
  congr 1
  split_ifs with hc <;> simp [hc]

theorem journalSum_journaled (accountId : String) (kind : JournalKind) (source : String)
    (entries : List (String × Bucket × ℚ)) (now : ℕ) (transactionId : Sha256) (asset : String) :
    (db.journaled env accountId kind source entries now).journalSum transactionId asset
      = db.journalSum transactionId asset
        + if env.contentHash (.ledgerKey accountId kind.text source) = transactionId then
            journalTotal entries asset else 0 := by
  unfold DB.journalSum DB.journaled journalTotal
  exact sum_filter_append_map fun _ => Bool.decide_and _ _

/-! ## Wallets -/

/-- The total of an asset over wallet entries that are to be posted. -/
def walletTotal (entries : List (String × Bucket × ℚ)) (asset : String) : ℚ :=
  ((entries.filter (fun e => e.1 = asset ∧ e.2.1 = .wallet)).map (fun e => e.2.2)).sum

theorem balance_journaled (accountId : String) (kind : JournalKind) (source : String)
    (entries : List (String × Bucket × ℚ)) (now : ℕ) (id asset : String) :
    (db.journaled env accountId kind source entries now).balance id asset
      = db.balance id asset + if accountId = id then walletTotal entries asset else 0 := by
  unfold DB.balance DB.walletEntries DB.journaled walletTotal
  rw [filter_filter, filter_filter]
  exact sum_filter_append_map fun _ => by simp [Bool.and_left_comm]

/-- The cash of a recorded trade: the exact product, up for a buyer and down
for a seller. -/
def Fill.gross (g : Fill) (side : Side) : ℚ :=
  match side with
  | .buy => ceilTo 18 (g.quantity * g.price)
  | .sell => floorTo 18 (g.quantity * g.price)

/-- **What a recorded trade of an order does to a wallet**: a buy takes the
inventory in and the cash out, a sale the other way, and the fee goes out. -/
def Fill.delta (g : Fill) (o : Order) (asset : String) : ℚ :=
  (if o.payload.instrument.baseAsset = asset then
      match o.side with
      | .buy => g.quantity
      | .sell => -g.quantity
    else 0)
  + (if o.payload.instrument.quoteAsset = asset then
      match o.side with
      | .buy => -g.gross .buy
      | .sell => g.gross .sell
    else 0)
  + if g.feeAsset = asset then -g.fee else 0

/-- What a recorded trade does to a wallet, its order looked up. -/
def DB.delta (db : DB) (asset : String) (g : Fill) : ℚ :=
  match db.orders.find? g.intentId with
  | some o => g.delta o asset
  | none => 0

def funding (accounts : Table Account.accountId) (accountId asset : String) : ℚ :=
  match accounts.find? accountId with
  | some a => if a.quoteAsset = asset then a.capital else 0
  | none => 0

/-- The entries of a fill do to the wallet what its row says. -/
theorem walletTotal_fillEntries (env : Env) (time : ℕ) {o : Order} {f : FillReport}
    (hcheck : checkFill f = .ok ())
    (hassets : f.baseAsset = o.payload.instrument.baseAsset
      ∧ f.quoteAsset = o.payload.instrument.quoteAsset) (asset : String) :
    walletTotal (fillEntries o.side f) asset = (fillRow env o f time).delta o asset := by
  obtain ⟨⟨_, hq⟩, ⟨_, hp⟩, _⟩ := checkFill_eq_ok hcheck
  have hmul : ctxMul f.quantity f.price = f.quantity * f.price := hq.ctxMul_eq hp
  unfold walletTotal fillEntries Fill.delta Fill.gross fillRow fillGross
  rw [hassets.1, hassets.2, hmul]
  cases o.side <;>
    by_cases h₁ : o.payload.instrument.baseAsset = asset <;>
    by_cases h₂ : o.payload.instrument.quoteAsset = asset <;>
    by_cases h₃ : f.feeAsset = asset <;>
    simp [h₁, h₂, h₃, add_assoc]

/-! ## The audit -/

/-- **The ledger agrees with the accounts and the trades.** -/
structure DB.Audited (db : DB) : Prop where
  zero : ∀ transactionId asset, db.journalSum transactionId asset = 0
  wallet : ∀ id asset, db.balance id asset = funding db.accounts id asset
    + db.fills.sumOf (fun g => g.accountId = id) (db.delta asset)
  funded : ∀ id, (∃ a, db.accounts.find? id = some a)
    ↔ ∃ t ∈ db.ledgerTransactions.rows, t.accountId = id ∧ t.kind = .funding
  journaled : ∀ g ∈ db.fills.rows,
    ∃ t, db.ledgerTransactions.find? (g.accountId, .trade, g.fillId) = some t
  fillIds : (db.fills.rows.map Fill.fillId).Nodup
  transactionIds : (db.ledgerTransactions.rows.map LedgerTransaction.transactionId).Nodup

theorem Commit.journalSum (h : Commit env time db tx db')
    (hzero : ∀ transactionId asset, db.journalSum transactionId asset = 0)
    (transactionId : Sha256) (asset : String) : db'.journalSum transactionId asset = 0 := by
  -- a posted transaction adds nothing to any total
  have hposted : ∀ {db₀ db₁ : DB} {accountId kind source entries},
      Journalable env db₀ accountId kind source entries → db₁.ledgerEntries = db.ledgerEntries →
      (db₁.journaled env accountId kind source entries time).journalSum transactionId asset = 0 := by
    intro db₀ db₁ accountId kind source entries hj hsame
    rw [journalSum_journaled, hj.total_eq_zero, ite_self, add_zero]
    unfold DB.journalSum
    rw [hsame]
    exact hzero transactionId asset
  cases h with
  | aside h =>
    unfold DB.journalSum
    rw [h.ledgerEntries]
    exact hzero transactionId asset
  | fund _ _ _ _ _ _ _ hjournal => exact hposted hjournal rfl
  | reopen | reserve | move => exact hzero transactionId asset
  | fill _ _ _ _ _ _ _ _ _ _ hjournal => exact hposted hjournal rfl

/-- What a recorded trade does is not changed by a commit. -/
theorem Commit.delta (h : Commit env time db tx db') (hb : db.Balanced) (asset : String) {g : Fill}
    (hg : g ∈ db.fills.rows) : db'.delta asset g = db.delta asset g := by
  obtain ⟨_, o, ho⟩ := hb.fill g hg
  obtain ⟨o', ho', he⟩ := h.evolves ho
  have hside : o'.side = o.side := (congrArg Order.side he.frozen :)
  have hpayload : o'.payload = o.payload := (congrArg Order.payload he.frozen :)
  unfold DB.delta Fill.delta
  rw [ho, ho']
  dsimp only
  rw [hside, hpayload]

/-- What an account is funded with does not change with the account. -/
theorem funding_replace {accounts : Table Account.accountId} {a a' : Account}
    (ha : accounts.find? a.accountId = some a) (hfrozen : a'.frozen = a.frozen)
    (id asset : String) : funding (accounts.replace a') id asset = funding accounts id asset := by
  have hid : a'.accountId = a.accountId := Account.accountId_of_frozen hfrozen
  unfold funding
  rw [find?_replace (hid.symm ▸ ha)]
  by_cases hk : id = a'.accountId
  · rw [if_pos hk, hk, hid, ha]
    dsimp only
    rw [show a'.quoteAsset = a.quoteAsset from (congrArg Account.quoteAsset hfrozen :),
      show a'.capital = a.capital from (congrArg Account.capital hfrozen :)]
  · rw [if_neg hk]

/-- A source that may be posted has no transaction yet. -/
theorem Journalable.find?_eq_none (h : Journalable env db accountId kind source entries) :
    db.ledgerTransactions.find? (accountId, kind, source) = none := by
  refine find?_eq_none_iff.mpr (fun hmem => ?_)
  obtain ⟨t, ht, hkey⟩ := mem_map.mp hmem
  exact (h.unposted t ht).2 hkey

section

variable (h : Commit env time db tx db')
include h

/-- Accounts and funding transactions come together, after a commit. -/
theorem Commit.funded (hfunded : ∀ id, (∃ a, db.accounts.find? id = some a)
      ↔ ∃ t ∈ db.ledgerTransactions.rows, t.accountId = id ∧ t.kind = .funding) (id : String) :
    (∃ a, db'.accounts.find? id = some a)
      ↔ ∃ t ∈ db'.ledgerTransactions.rows, t.accountId = id ∧ t.kind = .funding := by
  have hreplace : ∀ {a a' : Account}, db.accounts.find? a.accountId = some a →
      a'.frozen = a.frozen →
      ((∃ b, (db.accounts.replace a').find? id = some b) ↔ ∃ b, db.accounts.find? id = some b) := by
    intro a a' ha hfrozen
    have haid : a'.accountId = a.accountId := Account.accountId_of_frozen hfrozen
    rw [find?_replace (haid.symm ▸ ha)]
    by_cases hk : id = a'.accountId
    · rw [if_pos hk, hk, haid, ha]
      exact ⟨fun _ => ⟨a, rfl⟩, fun _ => ⟨a', rfl⟩⟩
    · rw [if_neg hk]
  cases h with
  | aside h =>
    rw [h.ledgerTransactions]
    obtain haccounts | ⟨a, a', ha, haccounts, hbooks, _⟩ := h.accounts
    · rw [haccounts]
      exact hfunded id
    · rw [haccounts, hreplace ha (Account.frozen_of_books hbooks)]
      exact hfunded id
  | @fund tenant accountId quoteAsset capital account _ _ hunfunded _ _ _ _ hjournal =>
    have hnew : db.ledgerTransactions.find? (accountId, .funding, accountId) = none :=
      hjournal.find?_eq_none
    have hnone : db.accounts.find? accountId = none := by
      by_contra hsome
      obtain ⟨a, ha⟩ := Option.ne_none_iff_exists'.mp hsome
      obtain ⟨t, ht, hk⟩ := (hfunded accountId).mp ⟨a, ha⟩
      exact hunfunded t ht hk
    show (∃ a, (db.accounts.insertOnce (newAccount tenant accountId capital quoteAsset time)).find?
        id = some a) ↔ ∃ t ∈ (db.ledgerTransactions.insertOnce _).rows, _
    rw [find?_insertOnce]
    by_cases hid : accountId = id
    · rw [if_pos ⟨hnone, hid⟩]
      refine ⟨fun _ => ⟨_, (mem_rows_insertOnce hnew).mpr (.inr rfl), hid, rfl⟩, fun _ => ⟨_, rfl⟩⟩
    · rw [if_neg (fun h => hid h.2), hfunded id]
      constructor
      · rintro ⟨t, ht, hk⟩
        exact ⟨t, (mem_rows_insertOnce hnew).mpr (.inl ht), hk⟩
      · rintro ⟨t, ht, hk⟩
        rcases (mem_rows_insertOnce hnew).mp ht with ht | rfl
        · exact ⟨t, ht, hk⟩
        · exact absurd hk.1 hid
  | @reopen tenant accountId quoteAsset capital _ _ hexists =>
    -- the account is there already
    obtain ⟨a, ha⟩ := (hfunded accountId).mpr hexists
    show (∃ a, (db.accounts.insertOnce (newAccount tenant accountId capital quoteAsset time)).find?
        id = some a) ↔ _
    rw [insertOnce_of_find? ha]
    exact hfunded id
  | @reserve c a now _ ha =>
    have haid : a.accountId = c.intent.accountId := key_of_find? ha
    have hfrozen : (a.reserving c now).frozen = a.frozen := rfl
    exact (hreplace (haid.symm ▸ ha) hfrozen).trans (hfunded id)
  | move located _ hm => exact (hreplace located.account hm.account_frozen).trans (hfunded id)
  | @fill _ a o f ks located _ _ _ _ _ _ _ _ _ hjournal =>
    have hnew : db.ledgerTransactions.find? (o.accountId, .trade, (fillRow env o f time).fillId)
        = none := hjournal.find?_eq_none
    have hfrozen : Account.frozen { a.filling o f with mode := fillMode env db a o f time }
        = a.frozen := by rfl
    refine (hreplace located.account hfrozen).trans ((hfunded id).trans ?_)
    constructor
    · rintro ⟨t, ht, hk⟩
      exact ⟨t, (mem_rows_insertOnce hnew).mpr (.inl ht), hk⟩
    · rintro ⟨t, ht, hk⟩
      rcases (mem_rows_insertOnce hnew).mp ht with ht | rfl
      · exact ⟨t, ht, hk⟩
      · cases hk.2

/-- Every recorded trade has its journal transaction, after a commit. -/
theorem Commit.journaled (hjournaled : ∀ g ∈ db.fills.rows,
      ∃ t, db.ledgerTransactions.find? (g.accountId, .trade, g.fillId) = some t) :
    ∀ g ∈ db'.fills.rows,
      ∃ t, db'.ledgerTransactions.find? (g.accountId, .trade, g.fillId) = some t := by
  intro g hg
  cases h with
  | aside h =>
    rw [h.ledgerTransactions]
    exact hjournaled g (h.fills ▸ hg)
  | fund =>
    obtain ⟨t, ht⟩ := hjournaled g hg
    exact ⟨t, find?_insertOnce_of_find? ht⟩
  | reopen | reserve | move => exact hjournaled g hg
  | @fill _ a o f ks _ _ _ _ _ hnew _ _ _ _ hjournal =>
    have hfresh : db.fills.find? (fillRow env o f time).tradeKey = none := hnew
    rcases (mem_rows_insertOnce hfresh).mp hg with hg | rfl
    · obtain ⟨t, ht⟩ := hjournaled g hg
      exact ⟨t, find?_insertOnce_of_find? ht⟩
    · exact ⟨_, find?_insertOnce_self (r := LedgerTransaction.mk _ _ _ _ time)
        hjournal.find?_eq_none⟩

/-- The primary keys of trades and journal transactions stay apart, after a
commit. -/
theorem Commit.keys (hfills : (db.fills.rows.map Fill.fillId).Nodup)
    (htransactions : (db.ledgerTransactions.rows.map LedgerTransaction.transactionId).Nodup) :
    (db'.fills.rows.map Fill.fillId).Nodup
      ∧ (db'.ledgerTransactions.rows.map LedgerTransaction.transactionId).Nodup := by
  have hnew : ∀ {accountId kind source entries}, Journalable env db accountId kind source entries →
      ((db.ledgerTransactions.insertOnce ⟨env.contentHash (.ledgerKey accountId kind.text source),
        accountId, kind, source, time⟩).rows.map LedgerTransaction.transactionId).Nodup := by
    intro accountId kind source entries hj
    rw [rows_insertOnce hj.find?_eq_none, map_append, map_singleton]
    refine nodup_append.mpr ⟨htransactions, nodup_singleton _, fun i hi j hmem => ?_⟩
    obtain ⟨t, ht, rfl⟩ := mem_map.mp hi
    rw [mem_singleton.mp hmem]
    exact (hj.unposted t ht).1
  cases h with
  | aside h =>
    rw [h.fills, h.ledgerTransactions]
    exact ⟨hfills, htransactions⟩
  | fund _ _ _ _ _ _ _ hjournal => exact ⟨hfills, hnew hjournal⟩
  | reopen | reserve | move => exact ⟨hfills, htransactions⟩
  | @fill _ a o f ks _ _ _ _ _ hfresh hunfilled _ _ _ hjournal =>
    refine ⟨?_, hnew hjournal⟩
    have hfresh' : db.fills.find? (fillRow env o f time).tradeKey = none := hfresh
    show ((db.fills.insertOnce (fillRow env o f time)).rows.map Fill.fillId).Nodup
    rw [rows_insertOnce hfresh', map_append, map_singleton]
    refine nodup_append.mpr ⟨hfills, nodup_singleton _, fun i hi j hmem => ?_⟩
    obtain ⟨g, hg, rfl⟩ := mem_map.mp hi
    rw [mem_singleton.mp hmem]
    exact hunfilled g hg

/-- **Every wallet is its funding and its trades**, after a commit. -/
theorem Commit.wallet (hb : db.Balanced) (ha : db.Audited)
    (id asset : String) : db'.balance id asset = funding db'.accounts id asset
      + db'.fills.sumOf (fun g => g.accountId = id) (db'.delta asset) := by
  -- the trades recorded before do what they did
  have hbefore : db.fills.sumOf (fun g => g.accountId = id) (db'.delta asset)
      = db.fills.sumOf (fun g => g.accountId = id) (db.delta asset) :=
    sumOf_congr_right (fun g hg _ => h.delta hb asset hg)
  have hsame : ∀ db₁ : DB, db₁.ledgerEntries = db.ledgerEntries →
      db₁.balance id asset = db.balance id asset := by
    intro db₁ he
    unfold DB.balance DB.walletEntries
    rw [he]
  cases h with
  | aside h =>
    have hfunding : funding db'.accounts id asset = funding db.accounts id asset := by
      obtain haccounts | ⟨a, a', hfind, haccounts, hbooks, _⟩ := h.accounts
      · rw [haccounts]
      · rw [haccounts, funding_replace hfind (Account.frozen_of_books hbooks)]
    rw [h.fills, hbefore, hfunding, hsame db' h.ledgerEntries]
    exact ha.wallet id asset
  | @fund tenant accountId quoteAsset capital account _ _ hunfunded =>
    have hnone : db.accounts.find? accountId = none := by
      by_contra hsome
      obtain ⟨a, hfind⟩ := Option.ne_none_iff_exists'.mp hsome
      obtain ⟨t, ht, hk⟩ := (ha.funded accountId).mp ⟨a, hfind⟩
      exact hunfunded t ht hk
    have hfunding : funding (db.accounts.insertOnce
          (newAccount tenant accountId capital quoteAsset time)) id asset
        = funding db.accounts id asset
          + if accountId = id then walletTotal [(quoteAsset, .wallet, capital),
              (quoteAsset, .equity, -capital)] asset else 0 := by
      unfold funding
      rw [find?_insertOnce]
      by_cases hid : accountId = id
      · subst hid
        rw [if_pos ⟨hnone, rfl⟩, hnone]
        by_cases hasset : quoteAsset = asset <;> simp [walletTotal, newAccount, hasset]
      · rw [if_neg (fun h => hid h.2), if_neg hid, add_zero]
    show (DB.journaled env (db.opened _) accountId .funding accountId _ time).balance id asset
      = funding (db.accounts.insertOnce _) id asset + db.fills.sumOf _ (db.delta asset)
    rw [balance_journaled, hfunding, hsame (db.opened _) rfl, ha.wallet id asset]
    ring
  | @reopen tenant accountId quoteAsset capital _ _ hexists =>
    obtain ⟨a, hfind⟩ := (ha.funded accountId).mpr hexists
    have hopened : (db.opened (newAccount tenant accountId capital quoteAsset time)).accounts
        = db.accounts := insertOnce_of_find? hfind
    rw [hopened]
    exact ha.wallet id asset
  | @reserve c a now _ hfind =>
    have haid : a.accountId = c.intent.accountId := key_of_find? hfind
    have hfrozen : (a.reserving c now).frozen = a.frozen := rfl
    show db.balance id asset = funding (db.accounts.replace (a.reserving c now)) id asset + _
    rw [funding_replace (haid.symm ▸ hfind) hfrozen, ha.wallet id asset]
    exact congrArg _ hbefore.symm
  | move located _ hm =>
    show db.balance id asset = funding (db.accounts.replace _) id asset + _
    rw [funding_replace located.account hm.account_frozen, ha.wallet id asset]
    exact congrArg _ hbefore.symm
  | @fill _ a o f ks located htx hcheck hassets _ hnew =>
    have hfresh : db.fills.find? (fillRow env o f time).tradeKey = none := hnew
    have hfrozen : Account.frozen { a.filling o f with mode := fillMode env db a o f time }
        = a.frozen := by rfl
    have hdelta : (db.filled env a o f ks time).delta asset (fillRow env o f time)
        = walletTotal (fillEntries o.side f) asset := by
      have hfound : (db.filled env a o f ks time).orders.find? (fillRow env o f time).intentId
          = some (o.filling f time) := moved_order (located.posted f time) rfl
      unfold DB.delta
      rw [hfound, walletTotal_fillEntries env time hcheck hassets]
      rfl
    show (DB.journaled env _ o.accountId .trade _ (fillEntries o.side f) time).balance id asset
      = funding (db.accounts.replace _) id asset
        + (db.fills.insertOnce (fillRow env o f time)).sumOf _ _
    rw [balance_journaled, funding_replace located.account hfrozen, sumOf_insertOnce hfresh,
      hbefore, hdelta, hsame { db with fills := db.fills.insertOnce _ } rfl, ha.wallet id asset, add_assoc]
    rfl

/-- **Commits keep the audit.** -/
theorem Commit.audited (hb : db.Balanced) (ha : db.Audited) :
    db'.Audited where
  zero := h.journalSum ha.zero
  wallet := h.wallet hb ha
  funded := h.funded ha.funded
  journaled := h.journaled ha.journaled
  fillIds := (h.keys ha.fillIds ha.transactionIds).1
  transactionIds := (h.keys ha.fillIds ha.transactionIds).2

end

theorem audited_empty : DB.empty.Audited where
  zero _ _ := rfl
  wallet _ _ := (add_zero 0).symm
  funded id := by
    constructor
    · rintro ⟨_, h⟩
      cases h
    · rintro ⟨_, h, _⟩
      cases h
  journaled _ h := by cases h
  fillIds := nodup_nil
  transactionIds := nodup_nil

/-- **The ledger is audited after every run.** -/
theorem System.audited_after (env : Env) (ls : List Label) : (after env ls).db.Audited :=
  (inv_after (fun db => db.Balanced ∧ db.Audited) ⟨balanced_empty, audited_empty⟩
    (fun h ⟨hb, ha⟩ => ⟨h.balanced hb, h.audited hb ha⟩) ls).2

end Qt
