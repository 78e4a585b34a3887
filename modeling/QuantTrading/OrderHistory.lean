import QuantTrading.Ledger
import QuantTrading.Sends

/-!
# What a run leaves as it was

The execution path writes over the rows of orders and accounts, and only adds to its record: the
events, the trades and the journal. Between two moments of a run an order keeps its identity and
what it was filled by (`System.orders_kept`), and a wallet moves by the trades that were recorded
in between, and by nothing else (`System.books_append_only`).
-/

namespace Qt

open List Table

variable {env : Env} {time : ℕ} {db db' : DB} {tx : Transaction} {o o' p : Order}

/-! ## Orders -/

/-- **An order later on**: once it has ended, only a trade that fills it changes its status. -/
structure Order.Later (o o' : Order) : Prop where
  frozen : o'.frozen = o.frozen
  filled : o.filledQuantity ≤ o'.filledQuantity
  ended : o.status.terminal = true → o'.status = o.status ∨ o'.status = .filled

theorem Order.Later.trans (h : o.Later o') (h' : o'.Later p) : o.Later p where
  frozen := h'.frozen.trans h.frozen
  filled := h.filled.trans h'.filled
  ended ht := by
    rcases h.ended ht with hs | hs
    · rw [← hs] at ht ⊢
      exact h'.ended ht
    · exact .inr ((h'.ended (hs ▸ rfl)).elim (·.trans hs) id)

theorem Evolves.later (h : Evolves time db tx o o') : o.Later o' where
  frozen := h.frozen
  filled := by
    cases h with
    | same => exact le_rfl
    | move _ _ hm => exact hm.filledQuantity.ge
    | fill _ hcheck => exact le_add_of_nonneg_right (checkFill_eq_ok hcheck).1.1.le
  ended := h.ended

namespace System

variable (env) (ls ls' : List Label)

theorem later_of_run {id : String} (ho : (after env ls).db.orders.find? id = some o) :
    ∃ o', (after env (ls ++ ls')).db.orders.find? id = some o' ∧ o.Later o' :=
  order_of_run (R := Order.Later) (fun _ => ⟨rfl, le_rfl, fun _ => .inl rfl⟩)
    (fun _ _ _ => Order.Later.trans) Evolves.later ls ls' ho

/-- **Orders in a run**: no order is gone; it keeps its identity, its payload and what it was
filled by, and an end that only a trade which fills it changes. And no event is withdrawn. -/
theorem orders_kept : (∀ id o, (after env ls).db.orders.find? id = some o →
      ∃ o', (after env (ls ++ ls')).db.orders.find? id = some o' ∧ o.Later o')
    ∧ (after env ls).db.events <+: (after env (ls ++ ls')).db.events :=
  ⟨fun _ _ ho => later_of_run env ls ls' ho, (extends_of_run env ls ls').events⟩

/-- **The books are append-only.** Nothing that is in the journal is changed or withdrawn, and the
wallet of an account moves by the trades that are recorded after, and by nothing else. -/
theorem books_append_only :
    (after env ls).db.ledgerTransactions.rows <+: (after env (ls ++ ls')).db.ledgerTransactions.rows
    ∧ (after env ls).db.ledgerEntries <+: (after env (ls ++ ls')).db.ledgerEntries
    ∧ ∃ fills, (after env (ls ++ ls')).db.fills.rows = (after env ls).db.fills.rows ++ fills
      ∧ ∀ id a asset, (after env ls).db.accounts.find? id = some a →
        (after env (ls ++ ls')).db.balance id asset = (after env ls).db.balance id asset
          + ((fills.filter (·.accountId = id)).map
            ((after env (ls ++ ls')).db.delta asset)).sum := by
  obtain ⟨-, ⟨fills, hfills⟩, htransactions, hentries⟩ := extends_of_run env ls ls'
  refine ⟨htransactions, hentries, fills, hfills.symm, fun id a asset ha => ?_⟩
  obtain ⟨a', ha', hfrozen⟩ := account_of_run env ls ls' ha
  have hfunding : funding (after env (ls ++ ls')).db.accounts id asset
      = funding (after env ls).db.accounts id asset := by
    unfold funding
    rw [ha, ha']
    dsimp only
    rw [show a'.quoteAsset = a.quoteAsset from (congrArg Account.quoteAsset hfrozen :),
      show a'.capital = a.capital from (congrArg Account.capital hfrozen :)]
  have hdelta : ∀ g ∈ (after env ls).db.fills.rows,
      (after env (ls ++ ls')).db.delta asset g = (after env ls).db.delta asset g := by
    intro g hg
    obtain ⟨-, o, ho⟩ := (balanced_after env ls).fill g hg
    obtain ⟨o', ho', hlater⟩ := later_of_run env ls ls' ho
    unfold DB.delta Fill.delta
    rw [ho, ho']
    dsimp only
    rw [show o'.side = o.side from (congrArg Order.side hlater.frozen :),
      show o'.payload = o.payload from (congrArg Order.payload hlater.frozen :)]
  rw [(audited_after env (ls ++ ls')).wallet, (audited_after env ls).wallet, hfunding, add_assoc]
  unfold sumOf
  rw [← hfills, filter_append, map_append, sum_append]
  congr 2
  exact congrArg List.sum (map_congr_left fun g hg => hdelta g (mem_filter.mp hg).1)

end System

end Qt
