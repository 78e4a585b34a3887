import QuantTrading.BuiltinStrategies

/-!
# A strategy instance used again

What `EventRunner.run` returns with an instance that has run before, and with a new one. An instance
whose `initialize` resets all its attributes is a new one. `RateOfChange` keeps its target, so that
it may buy where a new instance does not: `strategy_reuse` says exactly when.
-/

namespace Qt.Backtest

open Except Fills Series List

namespace Engine

/-! ## Two instances -/

section Instances

variable {s : Strategy} {spec : BacktestSpec} {bundle : MarketBundle} {r r' : Run s.State}
  {e e' x : s.State} {n : ℕ}

/-- **An instance that was used**: a new one, or one that has run some bars of a bundle. -/
inductive Used (s : Strategy) (fresh : s.State) : s.State → Prop
  | fresh : Used s fresh fresh
  | ran {e : s.State} (h : Used s fresh e) {spec : BacktestSpec} {bundle : MarketBundle} {n : ℕ}
      {r : Run s.State} (hrun : runBars s spec bundle e n = .ok r) : Used s fresh r.strategy

/-- What a new instance has, `initialize` keeps and `on_bar` keeps, a used instance has. -/
theorem Used.inv {P : s.State → Prop} {fresh : s.State} (hfresh : P fresh)
    (hinit : ∀ policy x, P x → P (s.onInitialize policy x))
    (hbar : ∀ {x y context intents}, P x → s.onBar x context = .ok (y, intents) → P y)
    (h : Used s fresh e) : P e := by
  induction h with
  | fresh => exact hfresh
  | ran _ hrun ih =>
    refine runBars_inv (P := fun r => P r.strategy) (fun _ _ => hinit _ _ ih)
      (fun r item r' hr hstep => ?_) hrun
    obtain ⟨prepared, closes, snapshot, hprepare, hanswer⟩ := step_eq_ok hstep
    have hsame := (prepare_eq_ok hprepare).strategy_eq
    rcases askStrategy_eq_ok hanswer with ⟨-, rfl⟩ | ⟨-, intents, hcall, -⟩
    · exact hsame ▸ hr
    · exact hbar (hsame ▸ hr) hcall

structure SameResults {σ : Type} (r r' : Run σ) : Prop where
  orders : r'.orders = r.orders
  fills : r'.fills = r.fills
  snapshots : r'.snapshots = r.snapshots

/-- **An instance that `initialize` makes a new one** runs as a new one. -/
theorem run_eq_of_initialize (h : s.onInitialize spec.policy e = s.onInitialize spec.policy e') :
    run s spec bundle e = run s spec bundle e' := by
  unfold run runBars initialRun
  rw [h]

/-- Another instance in the place of the one of a run. -/
def Run.instead {σ : Type} (r : Run σ) (x : σ) : Run σ := { r with strategy := x }

variable {bar : Bar} {closes : Closes}

theorem prepare_instead {snapshot : PortfolioSnapshot}
    (h : prepare s spec bundle r bar = .ok (r', closes, snapshot)) :
    prepare s spec bundle (r.instead x) bar = .ok (r'.instead x, closes, snapshot) := by
  unfold prepare at h ⊢
  obtain ⟨⟨funded, counter⟩, hfunded, h⟩ := of_bind h
  obtain ⟨book, hbook, h⟩ := of_bind h
  obtain ⟨closes', hcloses, h⟩ := of_bind h
  obtain ⟨⟨snap, marked⟩, hmark, h⟩ := of_bind h
  cases h
  refine bind_eq_ok.mpr ⟨_, hfunded, bind_eq_ok.mpr ⟨_, hbook, bind_eq_ok.mpr ⟨_, hcloses,
    bind_eq_ok.mpr ⟨_, hmark, rfl⟩⟩⟩⟩

theorem place_instead {timestamp : ℤ} {intents : List OrderIntent}
    (h : intents.foldlM (place s timestamp closes) r = .ok r') :
    intents.foldlM (place s timestamp closes) (r.instead x) = .ok (r'.instead x) := by
  induction intents generalizing r with
  | nil =>
    cases h
    rfl
  | cons intent intents ih =>
    rw [foldlM_cons] at h ⊢
    obtain ⟨next, hnext, h⟩ := of_bind h
    obtain ⟨order, horder, hnext⟩ := of_bind hnext
    cases hnext
    exact bind_eq_ok.mpr ⟨_, bind_eq_ok.mpr ⟨order, horder, rfl⟩, ih h⟩

/-- **A bar with another instance**: before the warm-up nothing depends on it, and from then on what
it answers. -/
theorem step_instead (h : step s spec bundle r (bar, n) = .ok r') :
    n + 1 < s.warmupBars ∧ r'.strategy = r.strategy
      ∧ (∀ x, step s spec bundle (r.instead x) (bar, n) = .ok (r'.instead x))
    ∨ s.warmupBars ≤ n + 1 ∧ ∃ prepared closes intents,
      prepare s spec bundle r bar = .ok (prepared, closes,
        prepared.portfolio.snapshotAt bar.timestamp)
      ∧ s.onBar r.strategy (contextAt s bundle n bar
          (prepared.portfolio.snapshotAt bar.timestamp) prepared.openOrders)
        = .ok (r'.strategy, intents)
      ∧ ∀ x x', s.onBar x (contextAt s bundle n bar
          (prepared.portfolio.snapshotAt bar.timestamp) prepared.openOrders) = .ok (x', intents) →
        step s spec bundle (r.instead x) (bar, n) = .ok (r'.instead x') := by
  obtain ⟨prepared, closes, snapshot, hprepare, hanswer⟩ := step_eq_ok h
  have hprepared := prepare_eq_ok hprepare
  obtain rfl := hprepared.snapshot_eq
  unfold askStrategy at hanswer
  split at hanswer
  · rename_i hwarm
    obtain ⟨⟨state, intents⟩, hcall, hplace⟩ := of_bind hanswer
    obtain ⟨u, hvalid, hplace⟩ := of_bind hplace
    have hstate : r'.strategy = state := (placed_of_foldlM hplace).strategy
    refine .inr ⟨hwarm, prepared, closes, intents, hprepare, ?_, fun x x' hx => ?_⟩
    · rw [hstate, ← hprepared.strategy_eq]
      exact callStrategy_eq_ok hcall
    · refine bind_eq_ok.mpr ⟨_, prepare_instead hprepare, ?_⟩
      unfold askStrategy
      dsimp only
      rw [if_pos hwarm]
      have hcall' : callStrategy s x (contextAt s bundle n bar
          (prepared.portfolio.snapshotAt bar.timestamp) prepared.openOrders)
          = .ok (x', intents) := by
        unfold callStrategy
        rw [hx]
      have hplace' := place_instead (r := prepared.instead state) (x := x') hplace
      exact bind_eq_ok.mpr ⟨(x', intents), hcall', bind_eq_ok.mpr ⟨u, hvalid, hplace'⟩⟩
  · rename_i hwarm
    cases hanswer
    refine .inl ⟨not_le.mp hwarm, hprepared.strategy_eq, fun x => ?_⟩
    refine bind_eq_ok.mpr ⟨_, prepare_instead hprepare, ?_⟩
    unfold askStrategy
    dsimp only
    rw [if_neg hwarm]

/-- **Two instances, bar by bar.** A relation that each bar keeps holds between the run of one
instance and the state of the other, and the runs differ in nothing else. -/
theorem runBars_instead {R : ℕ → Run s.State → s.State → Prop}
    (hstart : ∀ portfolio, Portfolio.create (some spec.initialCash) = .ok portfolio →
      R 0 (initialRun s spec portfolio e) (s.onInitialize spec.policy e'))
    (hstep : ∀ k bar r r' x, k < n → bundle.primary[k]? = some bar → R k r x →
      step s spec bundle r (bar, k) = .ok r' →
      ∃ x', step s spec bundle (r.instead x) (bar, k) = .ok (r'.instead x') ∧ R (k + 1) r' x')
    (hn : n ≤ bundle.primary.length) (h : runBars s spec bundle e n = .ok r) :
    ∃ x, runBars s spec bundle e' n = .ok (r.instead x) ∧ R n r x := by
  induction n generalizing r with
  | zero =>
    obtain ⟨hvalid, portfolio, hportfolio, rfl⟩ := runBars_zero h
    refine ⟨_, ?_, hstart portfolio hportfolio⟩
    refine bind_eq_ok.mpr ⟨(), hvalid, ?_⟩
    rw [hportfolio]
    rfl
  | succ n ih =>
    have hbar : bundle.primary[n]? = some bundle.primary[n] := getElem?_eq_getElem hn
    rw [runBars_succ hbar] at h
    obtain ⟨between, hbetween, hlast⟩ := of_bind h
    obtain ⟨x, hx, hR⟩ := ih (fun k bar r r' x hk => hstep k bar r r' x (hk.trans n.lt_succ_self))
      (Nat.le_of_succ_le hn) hbetween
    obtain ⟨x', hx', hR'⟩ := hstep n _ between r x n.lt_succ_self hbar hR hlast
    refine ⟨x', ?_, hR'⟩
    rw [runBars_succ hbar, hx]
    exact hx'

end Instances

/-! ## Orders keep their numbers and their times -/

section Stamps

variable {S : Set (ℕ × ℤ)} {ids : List ℕ} {book book' : Book} {order : Order}

/-- The number and the time of an order. -/
def Order.stamp (order : Order) : ℕ × ℤ := (order.id, order.createdAt)

/-- The orders have these stamps, and all orders these numbers. -/
structure Filed (S : Set (ℕ × ℤ)) (ids : List ℕ) (book : Book) : Prop where
  stamped : ∀ o ∈ book.orders ++ book.openOrders, o.stamp ∈ S
  ids_eq : book.orders.map (fun o => o.id) = ids

theorem Filed.replace (h : Filed S ids book) (horder : order.stamp ∈ S) :
    Filed S ids (book.replace order) := by
  refine ⟨fun o ho => ?_, ?_⟩
  · rcases mem_append.mp ho with ho | ho
    · obtain ⟨old, hold, rfl⟩ := mem_map.mp ho
      split
      · exact horder
      · exact h.stamped old (mem_append_left _ hold)
    · exact h.stamped o (mem_append_right _ (mem_of_mem_eraseP ho))
  · rw [← h.ids_eq]
    show (book.orders.map fun o => if o.id = order.id then order else o).map (fun o => o.id) = _
    rw [map_map]
    refine map_congr_left fun o _ => ?_
    show (if o.id = order.id then order else o).id = o.id
    split
    · rename_i heq
      exact heq.symm
    · rfl

theorem Filed.close {members : List Order} (h : Filed S ids book)
    (hmembers : ∀ o ∈ members, o.stamp ∈ S) (status : Fills.OrderStatus) :
    Filed S ids (book.close members status) := by
  unfold Book.close
  induction members generalizing book with
  | nil => exact h
  | cons order members ih =>
    exact ih (h.replace (hmembers order mem_cons_self))
      fun o ho => hmembers o (mem_cons_of_mem _ ho)

variable {policy : FillPolicy} {bars : InstrumentKind → Option (List (String × Fills.Cell))}
  {timestamp : ℤ}

theorem Filed.processOrdinary (h : Filed S ids book) (horder : order.stamp ∈ S)
    (hstep : processOrdinary policy bars timestamp book order = .ok book') : Filed S ids book' := by
  unfold Engine.processOrdinary at hstep
  split at hstep
  · obtain rfl := ok.inj hstep
    exact h.replace horder
  · obtain ⟨candidate, -, hstep⟩ := of_bind hstep
    cases candidate with
    | none =>
      obtain rfl := ok.inj hstep
      exact h
    | some candidate =>
      change applyOrdinary _ _ _ = _ at hstep
      unfold applyOrdinary at hstep
      split at hstep
      · obtain rfl := ok.inj hstep
        exact Filed.replace ⟨h.stamped, h.ids_eq⟩ horder
      · obtain rfl := ok.inj hstep
        exact Filed.replace ⟨h.stamped, h.ids_eq⟩ horder
      · cases hstep

theorem Filed.processGroup {group : String × List Order} (h : Filed S ids book)
    (hmembers : ∀ o ∈ group.2, o.stamp ∈ S)
    (hstep : processGroup policy bars timestamp book group = .ok book') : Filed S ids book' := by
  unfold Engine.processGroup at hstep
  split at hstep
  · obtain rfl := ok.inj hstep
    exact h.close hmembers _
  · obtain ⟨candidates, -, hstep⟩ := of_bind hstep
    cases hall : candidates.mapM id with
    | none =>
      rw [hall] at hstep
      obtain rfl := ok.inj hstep
      exact h
    | some fills =>
      rw [hall] at hstep
      change applyGroup _ _ _ _ = _ at hstep
      unfold applyGroup at hstep
      split at hstep
      · obtain rfl := ok.inj hstep
        refine Filed.close ?_ hmembers _
        exact ⟨h.stamped, h.ids_eq⟩
      · obtain rfl := ok.inj hstep
        have hclosed := h.close hmembers .rejected
        exact ⟨hclosed.stamped, hclosed.ids_eq⟩
      · cases hstep

/-- **Processing** keeps the numbers and the times. -/
theorem Filed.processOpenOrders (h : Filed S ids book)
    (hstep : processOpenOrders policy bars timestamp book = .ok book') : Filed S ids book' := by
  have hopen : ∀ o ∈ book.openOrders, o.stamp ∈ S := fun o ho =>
    h.stamped o (mem_append_right _ ho)
  obtain ⟨between, hordinary, hgroups⟩ := of_bind hstep
  have hbetween : Filed S ids between := foldlM_inv (P := Filed S ids)
    (fun b o ho b' hb hb' => hb.processOrdinary (hopen o (mem_filter.mp ho).1) hb') h hordinary
  refine foldlM_inv (P := Filed S ids) (fun b g hg b' hb hb' => hb.processGroup ?_ hb') hbetween
    hgroups
  intro o ho
  obtain ⟨name, -, rfl⟩ := mem_map.mp hg
  exact hopen o (mem_filter.mp ho).1

variable {s : Strategy} {spec : BacktestSpec} {bundle : MarketBundle} {r r' : Run s.State} {n : ℕ}
  {bar : Bar} {closes : Closes}

theorem Filed.prepare {snapshot : PortfolioSnapshot} (h : Filed S ids r.toBook)
    (hprepare : prepare s spec bundle r bar = .ok (r', closes, snapshot)) :
    Filed S ids r'.toBook ∧ r'.orderCounter = r.orderCounter := by
  obtain ⟨⟨funded, counter⟩, -, hprepare⟩ := of_bind hprepare
  obtain ⟨book, hbook, hprepare⟩ := of_bind hprepare
  obtain ⟨closes', -, hprepare⟩ := of_bind hprepare
  obtain ⟨⟨snap, marked⟩, -, hprepare⟩ := of_bind hprepare
  cases hprepare
  have hfunded : Filed S ids { r.toBook with portfolio := funded } := ⟨h.stamped, h.ids_eq⟩
  have hbook' := hfunded.processOpenOrders hbook
  exact ⟨⟨hbook'.stamped, hbook'.ids_eq⟩, rfl⟩

theorem stamp_of_intentToOrder {supported : List InstrumentKind} {intent : OrderIntent}
    {close : Option ℚ} {counter : ℕ}
    (h : intentToOrder supported intent timestamp close counter = .ok order) :
    order.stamp = (counter, timestamp) := by
  obtain ⟨-, h⟩ := of_raiseIf h
  obtain ⟨quantity, -, h⟩ := of_bind h
  unfold Order.make at h
  split at h
  · cases h
    rfl
  · cases h

variable (h : Filed S ids r.toBook)
include h

/-- **Placing** adds orders of the bar, with the numbers that follow. -/
theorem Filed.place {intents : List OrderIntent}
    (hnew : ∀ k, r.orderCounter < k → (k, timestamp) ∈ S)
    (hplace : intents.foldlM (place s timestamp closes) r = .ok r') :
    Filed S (ids ++ List.range' (r.orderCounter + 1) intents.length) r'.toBook
      ∧ r'.orderCounter = r.orderCounter + intents.length := by
  induction intents generalizing r ids with
  | nil =>
    cases hplace
    exact ⟨by simpa using h, rfl⟩
  | cons intent intents ih =>
    rw [foldlM_cons] at hplace
    obtain ⟨next, hnext, hplace⟩ := of_bind hplace
    obtain ⟨order, horder, hnext⟩ := of_bind hnext
    cases hnext
    have hstamp := stamp_of_intentToOrder horder
    have hmem : order.stamp ∈ S := hstamp ▸ hnew _ (Nat.lt_succ_self _)
    have hnumber : order.id = r.orderCounter + 1 := congrArg Prod.fst hstamp
    have hplaced : Filed S (ids ++ [r.orderCounter + 1])
        { r.toBook with
          orders := r.orders ++ [order]
          openOrders := r.openOrders ++ [order] } := by
      refine ⟨fun o ho => ?_, ?_⟩
      · simp only [mem_append, mem_singleton] at ho
        rcases ho with (ho | rfl) | (ho | rfl)
        · exact h.stamped o (mem_append_left _ ho)
        · exact hmem
        · exact h.stamped o (mem_append_right _ ho)
        · exact hmem
      · rw [map_append, map_singleton, hnumber]
        exact congrArg (· ++ _) h.ids_eq
    obtain ⟨hfiled, hcounter⟩ := ih hplaced
      (fun k hk => hnew k ((Nat.lt_succ_self _).trans hk)) hplace
    rw [length_cons, range'_succ, append_cons]
    exact ⟨hfiled, hcounter.trans (Nat.succ_add_eq_add_succ _ _)⟩

/-- **A bar at which the strategy is called** adds an order for each intent. -/
theorem Filed.step_warm (hwarm : s.warmupBars ≤ n + 1)
    (hnew : ∀ k, r.orderCounter < k → (k, bar.timestamp) ∈ S)
    (hstep : step s spec bundle r (bar, n) = .ok r') :
    ∃ prepared closes intents, Engine.prepare s spec bundle r bar = .ok (prepared, closes,
        prepared.portfolio.snapshotAt bar.timestamp)
      ∧ s.onBar r.strategy (contextAt s bundle n bar
          (prepared.portfolio.snapshotAt bar.timestamp) prepared.openOrders)
        = .ok (r'.strategy, intents)
      ∧ Filed S (ids ++ List.range' (r.orderCounter + 1) intents.length) r'.toBook
      ∧ r'.orderCounter = r.orderCounter + intents.length := by
  obtain ⟨prepared, closes, snapshot, hprepare, hanswer⟩ := step_eq_ok hstep
  have hprepared := prepare_eq_ok hprepare
  obtain rfl := hprepared.snapshot_eq
  obtain ⟨hfiled, hcounter⟩ := h.prepare hprepare
  unfold askStrategy at hanswer
  rw [if_pos hwarm] at hanswer
  obtain ⟨⟨state, intents⟩, hcall, hplace⟩ := of_bind hanswer
  obtain ⟨-, -, hplace⟩ := of_bind hplace
  have hstate : r'.strategy = state := (placed_of_foldlM hplace).strategy
  have hplaced := Filed.place (r := prepared.instead state)
    ⟨hfiled.stamped, hfiled.ids_eq⟩ (fun k hk => hnew k (hcounter ▸ hk)) hplace
  refine ⟨prepared, closes, intents, hprepare, ?_, ?_⟩
  · rw [hstate, ← hprepared.strategy_eq]
    exact callStrategy_eq_ok hcall
  · rw [← hcounter]
    exact hplaced

/-- **A bar** adds orders of its own time, with the numbers that follow. -/
theorem Filed.step (hnew : ∀ k, r.orderCounter < k → (k, bar.timestamp) ∈ S)
    (hstep : step s spec bundle r (bar, n) = .ok r') :
    ∃ more, Filed S (ids ++ more) r'.toBook ∧ r.orderCounter ≤ r'.orderCounter := by
  by_cases hwarm : s.warmupBars ≤ n + 1
  · obtain ⟨prepared, closes, intents, -, -, hfiled, hcounter⟩ := h.step_warm hwarm hnew hstep
    exact ⟨_, hfiled, hcounter ▸ Nat.le_add_right _ _⟩
  · obtain ⟨prepared, closes, snapshot, hprepare, hanswer⟩ := step_eq_ok hstep
    obtain ⟨hprepared, hcounter⟩ := h.prepare hprepare
    unfold askStrategy at hanswer
    rw [if_neg hwarm] at hanswer
    cases hanswer
    exact ⟨[], by rwa [append_nil], hcounter.ge⟩

end Stamps

/-! ## Before the first order -/

section Untouched

variable {s : Strategy} {spec : BacktestSpec} {bundle : MarketBundle} {r r' : Run s.State} {n : ℕ}
  {bar : Bar}

/-- **Nothing was traded**: there is no order, no position, and all of the cash. -/
structure Untouched (cash : ℚ) (book : Book) : Prop where
  orders : book.orders = []
  openOrders : book.openOrders = []
  spot : book.portfolio.spot.quantity = 0
  perpetual : book.portfolio.perpetual.quantity = 0
  cash_eq : book.portfolio.cash = cash

variable {fallback : ℚ}

theorem applySettlement_flat {frame : Frame} {row : Row} {a b : Portfolio ℕ × ℕ}
    (hflat : a.1.perpetual.quantity = 0) (h : applySettlement frame fallback a row = .ok b) :
    b.1.cash = a.1.cash := by
  obtain ⟨price, -, h⟩ := of_bind h
  obtain ⟨rate, -, h⟩ := of_bind h
  obtain ⟨⟨current, marked⟩, hmark, h⟩ := of_bind h
  obtain ⟨rfl, rfl, -⟩ := mark_eq_ok (perform_eq_ok.mp hmark)
  obtain ⟨hcash, -, hperpetual⟩ := a.1.marked_unchanged [("perpetual", some price)]
  dsimp only at h
  have hzero : (((((a.1.marked [("perpetual", some price)]).seen row.timestamp).snapshotAt
      row.timestamp).positions.find? fun p => p.instrument = .perpetual).map
      Position.quantity).getD 0 = 0 :=
    (congrArg PositionState.quantity hperpetual).trans hflat
  split at h
  · obtain rfl := ok.inj h
    exact hcash
  · rename_i hne
    exact absurd hzero hne

theorem applyAvailableFunding_flat {p q : Portfolio ℕ} {timestamp : ℤ} {previous : Option ℤ}
    {k m : ℕ} (hflat : p.perpetual.quantity = 0)
    (h : applyAvailableFunding bundle p timestamp previous fallback k = .ok (q, m)) :
    q.cash = p.cash := by
  unfold applyAvailableFunding at h
  split at h
  · cases h
    rfl
  · split at h
    · refine (foldlM_inv (P := fun x : Portfolio ℕ × ℕ => x.1.perpetual.quantity = 0
        ∧ x.1.cash = p.cash) (fun b row _ b' hb hstep => ?_) ⟨hflat, rfl⟩ h).2
      exact ⟨(applySettlement_same hstep).perpetual.trans hb.1,
        (applySettlement_flat hb.1 hstep).trans hb.2⟩
    · cases h
      rfl

variable {cash : ℚ}

theorem Untouched.prepare {closes : Closes} {snapshot : PortfolioSnapshot}
    (h : Untouched cash r.toBook)
    (hprepare : prepare s spec bundle r bar = .ok (r', closes, snapshot)) :
    Untouched cash r'.toBook := by
  obtain ⟨⟨funded, counter⟩, hfunded, hprepare⟩ := of_bind hprepare
  obtain ⟨book, hbook, hprepare⟩ := of_bind hprepare
  obtain ⟨closes', -, hprepare⟩ := of_bind hprepare
  obtain ⟨⟨snap, marked⟩, hmark, hprepare⟩ := of_bind hprepare
  have hsame := applyAvailableFunding_same hfunded
  have hcash := applyAvailableFunding_flat h.perpetual hfunded
  have hnone : ({ r.toBook with portfolio := funded } : Book).openOrders = [] := h.openOrders
  obtain rfl := ok.inj ((processOpenOrders_nil hnone).symm.trans hbook)
  obtain ⟨rfl, rfl, -⟩ := mark_eq_ok (perform_eq_ok.mp hmark)
  cases hprepare
  obtain ⟨hmarked, -, -⟩ := funded.marked_unchanged closes.marks.items
  have hquantities := sameQuantities_marked funded closes.marks.items bar.timestamp
  exact ⟨h.orders, h.openOrders, (hquantities.spot.trans hsame.spot).trans h.spot,
    (hquantities.perpetual.trans hsame.perpetual).trans h.perpetual,
    (hmarked.trans hcash).trans h.cash_eq⟩

theorem Untouched.equity {book : Book} (h : Untouched cash book) :
    book.portfolio.equity = cash := by
  unfold Portfolio.equity Portfolio.perpetualUnrealized
  rw [h.spot, h.perpetual, h.cash_eq, zero_mul, mul_zero, add_zero, add_zero]

theorem Untouched.step (h : Untouched cash r.toBook)
    (hquiet : s.warmupBars ≤ n + 1 → ∀ prepared : Run s.State, Untouched cash prepared.toBook →
      0 < bar.close → ∀ x intents, s.onBar r.strategy
    (contextAt s bundle n bar (prepared.portfolio.snapshotAt bar.timestamp) prepared.openOrders) =
    .ok (x, intents) → intents = [])
    (hstep : step s spec bundle r (bar, n) = .ok r') : Untouched cash r'.toBook := by
  obtain ⟨prepared, closes, snapshot, hprepare, hanswer⟩ := step_eq_ok hstep
  have huntouched := h.prepare hprepare
  have hprepared := prepare_eq_ok hprepare
  obtain rfl := hprepared.snapshot_eq
  unfold askStrategy at hanswer
  split at hanswer
  · rename_i hwarm
    obtain ⟨⟨state, intents⟩, hcall, hplace⟩ := of_bind hanswer
    obtain ⟨-, -, hplace⟩ := of_bind hplace
    have hasked := callStrategy_eq_ok hcall
    rw [hprepared.strategy_eq] at hasked
    obtain rfl := hquiet hwarm prepared huntouched hprepared.close_pos _ _ hasked
    cases hplace
    exact ⟨huntouched.orders, huntouched.openOrders, huntouched.spot, huntouched.perpetual,
      huntouched.cash_eq⟩
  · cases hanswer
    exact huntouched

theorem untouched_initialRun {portfolio : Portfolio ℕ} {e : s.State}
    (h : Portfolio.create (some spec.initialCash) = .ok portfolio) :
    Untouched spec.initialCash (initialRun s spec portfolio e).toBook := by
  unfold Portfolio.create at h
  dsimp only at h
  split at h
  · cases h
  · cases h
    exact ⟨rfl, rfl, rfl, rfl, rfl⟩

end Untouched

/-! ## Rebalancing from nothing -/

section Rebalance

variable {tolerance : Tolerance} {reasons : Reasons} {multiplier cash : ℚ}
  {context : StrategyContext} {bar : Bar}

/-- A context in which nothing was traded. -/
structure FromCash (context : StrategyContext) (bar : Bar) (cash : ℚ) : Prop where
  last : context.bars.getLast? = some bar
  close_pos : 0 < bar.close
  quantity : context.quantity .spot = 0
  equity : context.portfolio.equity = cash
  cash_eq : context.portfolio.cash = cash
  pos : 0 < cash

theorem ctx_zero : ctx 0 = 0 := SigDigits.roundSig_zero 28

theorem ctx_pos {x : ℚ} (h : 0 < x) : 0 < ctx x := rounding_ctx.round_pos h

theorem executionMultiplier_pos (policy : FillPolicy) : 0 < executionMultiplier policy := by
  have hslippage : 0 ≤ ctx (policy.slippageBps / 10000) :=
    ctx_nonneg (div_nonneg policy.slippage_mem.1 (by norm_num))
  have hfee : 0 ≤ ctx (policy.feeBps / 10000) :=
    ctx_nonneg (div_nonneg policy.fee_nonneg (by norm_num))
  exact ctx_pos (mul_pos (ctx_pos (add_pos_of_pos_of_nonneg one_pos hslippage))
    (ctx_pos (add_pos_of_pos_of_nonneg one_pos hfee)))

variable (h : FromCash context bar cash)
include h

/-- What a rebalancing comes to, when nothing was traded. -/
theorem rebalance_fromCash {desired : ℚ}
    (hdesired : 0 ≤ desired ∧ desired ≤ 1) : rebalance tolerance reasons desired multiplier context
      = if ctx (ctx (cash * desired) / cash) ≤ tolerance then .ok []
        else if min (ctx (cash * desired)) (ctx (cash / multiplier)) ≤ 0 then .ok []
        else do
          let intent ← OrderIntent.validated
            { side := .buy, orderType := .market
              quoteAmount := some (min (ctx (cash * desired)) (ctx (cash / multiplier)))
              reason := if ctx (cash * desired) > 0 then reasons.increase else reasons.decrease }
          return [intent] := by
  have hnonneg : 0 ≤ ctx (cash * desired) := ctx_nonneg (mul_nonneg h.pos.le hdesired.1)
  unfold rebalance
  dsimp only
  rw [h.equity, h.cash_eq, h.last, h.quantity, if_neg (not_le.mpr h.pos)]
  dsimp only
  rw [if_neg (not_le.mpr h.close_pos), max_eq_right hdesired.1, min_eq_right hdesired.2, zero_mul,
    ctx_zero, sub_zero, ctx_ctx, abs_of_nonneg hnonneg]
  refine if_ctx_congr Iff.rfl (fun _ => rfl) fun hmore => ?_
  have hpos : 0 < ctx (cash * desired) := by
    refine lt_of_le_of_ne hnonneg fun hzero => hmore ?_
    rw [← hzero, zero_div, ctx_zero]
    exact tolerance.2.1
  rw [if_pos hpos]

theorem rebalance_none :
    rebalance tolerance reasons 0 multiplier context = .ok [] := by
  rw [rebalance_fromCash h ⟨le_rfl, zero_le_one⟩, mul_zero, ctx_zero, zero_div, ctx_zero,
    if_pos tolerance.2.1]

theorem rebalance_tolerated (htolerance : ctx (ctx cash / cash) ≤ tolerance) :
    rebalance tolerance reasons 1 multiplier context = .ok [] := by
  rw [rebalance_fromCash h ⟨zero_le_one, le_rfl⟩, mul_one, if_pos htolerance]

/-- **All is wanted**, and is bought. -/
theorem rebalance_all (hmultiplier : 0 < multiplier)
    (htolerance : ¬ ctx (ctx cash / cash) ≤ tolerance) {intents : List OrderIntent}
    (hanswer : rebalance tolerance reasons 1 multiplier context = .ok intents) :
    intents.length = 1 := by
  rw [rebalance_fromCash h ⟨zero_le_one, le_rfl⟩, mul_one, if_neg htolerance,
    if_neg (not_le.mpr (lt_min (ctx_pos h.pos) (ctx_pos (div_pos h.pos hmultiplier))))] at hanswer
  obtain ⟨intent, -, hanswer⟩ := of_bind hanswer
  obtain rfl := ok.inj hanswer
  rfl

end Rebalance

/-! ## The target that is kept -/

section RateOfChange

variable {params : RateOfChangeParams} {tolerance : Tolerance} {reasons : Reasons}
  {spec : BacktestSpec} {bundle : MarketBundle} {n : ℕ}

/-- `RateOfChange`, in a run. -/
abbrev rocStrategy (params : RateOfChangeParams) (tolerance : Tolerance) (reasons : Reasons) :
    Strategy :=
  targetWeightStrategy (rateOfChange params) tolerance reasons id

/-- The target after a call. -/
def rocNext (params : RateOfChangeParams) (target : ℚ) (bars : List Bar) : ℚ :=
  ((rateOfChange params).targetWeight target bars).2

/-- The rate of change at the bar of the first call. -/
def firstRoc (params : RateOfChangeParams) (bundle : MarketBundle) : Option ℚ :=
  (roc (closes (bundle.primary.take (params.lookback + 1))) params.lookback).last

theorem rocNext_mem {target : ℚ} (h : target = 0 ∨ target = 1) (bars : List Bar) :
    rocNext params target bars = 0 ∨ rocNext params target bars = 1 := by
  unfold rocNext rateOfChange
  dsimp only
  cases (roc (closes bars) params.lookback).last with
  | none => exact h
  | some current =>
    dsimp only
    split_ifs
    · exact .inr rfl
    · exact .inl rfl
    · exact h

/-- **Two targets become one** where the rate of change is at the entry or beyond, or at the exit or
below it. -/
theorem rocNext_eq_iff (bars : List Bar) : rocNext params 0 bars = rocNext params 1 bars
      ↔ ∃ current ∈ (roc (closes bars) params.lookback).last,
        current ≤ params.exit ∨ params.entry ≤ current := by
  unfold rocNext rateOfChange
  dsimp only
  cases (roc (closes bars) params.lookback).last with
  | none => simp
  | some current =>
    have hlt := params.exit_lt
    by_cases hentry : params.entry ≤ current
    · have hexit : ¬ current ≤ params.exit := fun h => absurd (hentry.trans h) (not_le.mpr hlt)
      simp [hentry, hexit]
    · by_cases hexit : current ≤ params.exit <;> simp [hentry, hexit]

theorem rocNext_of_between {bars : List Bar}
    (h : ¬ ∃ current ∈ (roc (closes bars) params.lookback).last,
      current ≤ params.exit ∨ params.entry ≤ current) :
    rocNext params 0 bars = 0 ∧ rocNext params 1 bars = 1 := by
  unfold rocNext rateOfChange
  dsimp only
  cases hlast : (roc (closes bars) params.lookback).last with
  | none => exact ⟨rfl, rfl⟩
  | some current =>
    have hbetween : ¬ (current ≤ params.exit ∨ params.entry ≤ current) := fun h' =>
      h ⟨current, hlast, h'⟩
    rw [not_or] at hbetween
    simp [hbetween.1, hbetween.2]

variable {context : StrategyContext} {intents : List OrderIntent} {x : Adapted ℚ}

/-- What `RateOfChange` answers. -/
theorem rocOnBar_eq_ok {st : Adapted ℚ} :
    targetWeightOnBar (rateOfChange params) tolerance reasons st context = .ok (x, intents)
      ↔ rebalance tolerance reasons (rocNext params st.own context.bars) st.executionMultiplier
          context = .ok intents
        ∧ x = { st with own := rocNext params st.own context.bars } := by
  refine bind_eq_ok.trans ⟨?_, ?_⟩
  · rintro ⟨out, hout, h⟩
    obtain ⟨rfl, rfl⟩ := Prod.mk.inj (ok.inj h)
    exact ⟨hout, rfl⟩
  · rintro ⟨hout, rfl⟩
    exact ⟨intents, hout, rfl⟩

/-- The target is one of the two. -/
def OnOff (st : Adapted ℚ) : Prop := st.own = 0 ∨ st.own = 1

variable {e : Adapted ℚ}

theorem onOff_of_used
    (h : Used (rocStrategy params tolerance reasons) (newTargetWeight (rateOfChange params)) e) :
    OnOff e := by
  refine h.inv (P := OnOff) (.inl rfl) (fun _ _ hon => hon) fun hon hanswer => ?_
  rw [(rocOnBar_eq_ok.mp hanswer).2]
  exact rocNext_mem hon _

variable {bar : Bar} {s : Strategy}

/-- Where nothing was traded, the decision is made from cash. -/
theorem fromCash_of_untouched {prepared : Run s.State} {cash : ℚ}
    (h : Untouched cash prepared.toBook) (hbar : bundle.primary[n]? = some bar)
    (hclose : 0 < bar.close) (hcash : 0 < cash) :
    FromCash (contextAt s bundle n bar (prepared.portfolio.snapshotAt bar.timestamp)
      prepared.openOrders) bar cash :=
  ⟨contextAt_last hbar, hclose, h.spot, h.equity, h.cash_eq, hcash⟩

theorem initialCash_pos {e : s.State} {r : Run s.State} (h : runBars s spec bundle e n = .ok r) :
    0 < spec.initialCash := by
  obtain ⟨first, hfirst⟩ := runBars_of_le (Nat.zero_le n) h
  obtain ⟨-, portfolio, hportfolio, -⟩ := runBars_zero hfirst
  unfold Portfolio.create at hportfolio
  dsimp only at hportfolio
  split at hportfolio
  · cases hportfolio
  · rename_i hcash
    exact not_le.mp hcash

/-- At the bar of the first call, the history is what the rate of change is of. -/
theorem first_bars {snapshot : PortfolioSnapshot} {openOrders : List Order} :
    (contextAt (rocStrategy params tolerance reasons) bundle params.lookback bar snapshot
      openOrders).bars = bundle.primary.take (params.lookback + 1) := by
  show EventRunner.strategyHistory bundle.primary params.lookback (params.lookback + 1) true = _
  exact if_pos (Or.inl rfl)

/-- **When it does not matter** that the target was kept: it is zero, or the strategy is not called,
or the first rate of change makes it what it would be, or the tolerance covers all of the cash. -/
def RocForgets (params : RateOfChangeParams) (tolerance : Tolerance) (e : Adapted ℚ)
    (spec : BacktestSpec) (bundle : MarketBundle) : Prop :=
  e.own = 0 ∨ bundle.primary.length ≤ params.lookback
    ∨ (∃ current ∈ firstRoc params bundle, current ≤ params.exit ∨ params.entry ≤ current)
    ∨ ctx (ctx spec.initialCash / spec.initialCash) ≤ tolerance

/-- Two instances of which one bought, or might have. -/
structure Apart (x y : Adapted ℚ) : Prop where
  own_zero : x.own = 0
  own_one : y.own = 1
  multiplier_eq : y.executionMultiplier = x.executionMultiplier

theorem Apart.answer {y x' : Adapted ℚ} (h : Apart x y)
    (hnext : rocNext params 0 context.bars = rocNext params 1 context.bars)
    (hanswer : targetWeightOnBar (rateOfChange params) tolerance reasons x context =
      .ok (x', intents))
    : targetWeightOnBar (rateOfChange params) tolerance reasons y context = .ok (x', intents) := by
  obtain ⟨hrebalance, rfl⟩ := rocOnBar_eq_ok.mp hanswer
  rw [h.own_zero] at hrebalance ⊢
  refine rocOnBar_eq_ok.mpr ⟨?_, ?_⟩
  · rw [h.own_one, ← hnext, h.multiplier_eq]
    exact hrebalance
  · rw [h.own_one, ← hnext]
    show (⟨_, _⟩ : Adapted ℚ) = ⟨_, _⟩
    rw [h.multiplier_eq]

/-- What `initialize` makes of a target that was kept. -/
theorem apart_onInitialize_of (hone : e.own = 1) :
    Apart ((rocStrategy params tolerance reasons).onInitialize spec.policy
        (newTargetWeight (rateOfChange params)))
      ((rocStrategy params tolerance reasons).onInitialize spec.policy e) :=
  ⟨rfl, hone, rfl⟩

/-- Before the first call the runs differ in the instance alone. -/
theorem roc_before {r : Run (Adapted ℚ)} (hone : e.own = 1) (hn : n ≤ bundle.primary.length)
    (hshort : n ≤ params.lookback)
    (h : runBars (rocStrategy params tolerance reasons) spec bundle
      (newTargetWeight (rateOfChange params)) n = .ok r) :
    ∃ x, runBars (rocStrategy params tolerance reasons) spec bundle e n = .ok (r.instead x)
      ∧ Apart r.strategy x ∧ Untouched spec.initialCash r.toBook
      ∧ r.strategy.executionMultiplier = executionMultiplier spec.policy := by
  refine runBars_instead
    (R := fun _ (r : Run (rocStrategy params tolerance reasons).State) x => Apart r.strategy x
      ∧ Untouched spec.initialCash r.toBook
      ∧ r.strategy.executionMultiplier = executionMultiplier spec.policy)
    (fun portfolio hportfolio => ⟨apart_onInitialize_of hone, untouched_initialRun hportfolio, rfl⟩)
    (fun k bar r r' x hk hbar hR hstep => ?_) hn h
  obtain ⟨hapart, huntouched, hmultiplier⟩ := hR
  have hcold : ¬ params.lookback + 1 ≤ k + 1 := not_le.mpr (Nat.succ_lt_succ (hk.trans_le hshort))
  rcases step_instead hstep with ⟨-, hsame, hother⟩ | ⟨hwarm, -⟩
  · refine ⟨x, hother x, ?_, huntouched.step (fun hwarm => absurd hwarm hcold) hstep, ?_⟩
    · rw [hsame]
      exact hapart
    · rw [hsame]
      exact hmultiplier
  · exact absurd hwarm hcold

section Forgets

variable {e : Adapted ℚ} {r : Run (Adapted ℚ)}

theorem roc_reuse_zero (hzero : e.own = 0) :
    run (rocStrategy params tolerance reasons) spec bundle e
      = run (rocStrategy params tolerance reasons) spec bundle
        (newTargetWeight (rateOfChange params)) := by
  refine run_eq_of_initialize ?_
  show (⟨e.own, _⟩ : Adapted ℚ) = ⟨0, _⟩
  rw [hzero]

variable (h : run (rocStrategy params tolerance reasons) spec bundle
  (newTargetWeight (rateOfChange params)) = .ok r)
include h

theorem roc_reuse_short (hshort : bundle.primary.length ≤ params.lookback) :
    ∃ x, run (rocStrategy params tolerance reasons) spec bundle e = .ok (r.instead x) := by
  suffices ∃ x, run (rocStrategy params tolerance reasons) spec bundle e = .ok (r.instead x)
      ∧ True from this.imp fun _ h => h.1
  refine runBars_instead (R := fun _ _ _ => True) (fun _ _ => trivial)
    (fun k bar r r' x hk _ _ hstep => ?_) le_rfl h
  rcases step_instead hstep with ⟨-, -, hother⟩ | ⟨hwarm, -⟩
  · exact ⟨x, hother x, trivial⟩
  · exact absurd (hk.trans_le hshort) (not_lt.mpr (Nat.le_of_succ_le_succ hwarm))

/-- The first rate of change decides: from then on the targets are the same. -/
theorem roc_reuse_decided (hone : e.own = 1)
    (hfirst : ∃ current ∈ firstRoc params bundle, current ≤ params.exit ∨ params.entry ≤ current) :
    ∃ x, run (rocStrategy params tolerance reasons) spec bundle e = .ok (r.instead x) := by
  suffices ∃ x, run (rocStrategy params tolerance reasons) spec bundle e = .ok (r.instead x)
      ∧ (x = r.strategy ∨ bundle.primary.length ≤ params.lookback ∧ Apart r.strategy x) from
    this.imp fun _ h => h.1
  refine runBars_instead (R := fun k (r : Run (rocStrategy params tolerance reasons).State) x =>
      x = r.strategy ∨ k ≤ params.lookback ∧ Apart r.strategy x)
    (fun _ _ => .inr ⟨Nat.zero_le _, apart_onInitialize_of hone⟩)
    (fun k bar r r' x _ _ hR hstep => ?_) le_rfl h
  rcases step_instead hstep with ⟨hcold, hsame, hother⟩ | ⟨hwarm, prepared, closes, intents, -,
    hanswer, hother⟩
  · refine ⟨x, hother x, ?_⟩
    rw [hsame]
    exact hR.imp_right fun hR => ⟨Nat.le_of_lt_succ hcold, hR.2⟩
  · refine ⟨r'.strategy, hother _ _ ?_, .inl rfl⟩
    rcases hR with rfl | ⟨hk, hapart⟩
    · exact hanswer
    · obtain rfl := hk.antisymm (Nat.le_of_succ_le_succ hwarm)
      refine hapart.answer ((rocNext_eq_iff _).mpr ?_) hanswer
      rw [first_bars]
      exact hfirst

/-- The tolerance covers all of the cash: nothing is ever bought. -/
theorem roc_reuse_tolerated (hon : OnOff e)
    (htolerated : ctx (ctx spec.initialCash / spec.initialCash) ≤ tolerance) :
    ∃ x, run (rocStrategy params tolerance reasons) spec bundle e = .ok (r.instead x) := by
  have hcash := initialCash_pos h
  have hquiet : ∀ {st : Adapted ℚ} {context bar}, OnOff st →
      FromCash context bar spec.initialCash → rebalance tolerance reasons
        (rocNext params st.own context.bars) st.executionMultiplier context = .ok [] := by
    intro st context bar hon hfrom
    rcases rocNext_mem hon context.bars with hnext | hnext
    · rw [hnext]
      exact rebalance_none hfrom
    · rw [hnext]
      exact rebalance_tolerated hfrom htolerated
  suffices ∃ x, run (rocStrategy params tolerance reasons) spec bundle e = .ok (r.instead x)
      ∧ Untouched spec.initialCash r.toBook ∧ OnOff r.strategy ∧ OnOff x from
    this.imp fun _ h => h.1
  refine runBars_instead (R := fun _ (r : Run (rocStrategy params tolerance reasons).State) x =>
      Untouched spec.initialCash r.toBook ∧ OnOff r.strategy ∧ OnOff x)
    (fun _ hportfolio => ⟨untouched_initialRun hportfolio, .inl rfl, hon⟩)
    (fun k bar r r' x _ hbar hR hstep => ?_) le_rfl h
  obtain ⟨huntouched, honr, honx⟩ := hR
  have hafter : Untouched spec.initialCash r'.toBook := by
    refine huntouched.step (fun _ prepared hprepared hclose x intents hanswer => ?_) hstep
    have hfrom := fromCash_of_untouched (s := rocStrategy params tolerance reasons) hprepared hbar
      hclose hcash
    exact ok.inj ((rocOnBar_eq_ok.mp hanswer).1.symm.trans (hquiet honr hfrom))
  rcases step_instead hstep with ⟨-, hsame, hother⟩ | ⟨-, prepared, closes, intents, hprepare,
    hanswer, hother⟩
  · exact ⟨x, hother x, hafter, hsame ▸ honr, honx⟩
  · have hfrom := fromCash_of_untouched (s := rocStrategy params tolerance reasons)
      (huntouched.prepare hprepare) hbar (prepare_eq_ok hprepare).close_pos hcash
    obtain ⟨hrebalance, hstate⟩ := rocOnBar_eq_ok.mp hanswer
    obtain rfl := ok.inj (hrebalance.symm.trans (hquiet honr hfrom))
    refine ⟨_, hother x _ (rocOnBar_eq_ok.mpr ⟨hquiet honx hfrom, rfl⟩), hafter, ?_, ?_⟩
    · rw [hstate]
      exact rocNext_mem honr _
    · exact rocNext_mem honx _

/-- **It does not matter**: the runs differ in the instance alone. -/
theorem roc_reuse (hon : OnOff e) (hforgets : RocForgets params tolerance e spec bundle) :
    ∃ x, run (rocStrategy params tolerance reasons) spec bundle e = .ok (r.instead x) := by
  rcases hforgets with hzero | hshort | hfirst | htolerated
  · exact ⟨r.strategy, (roc_reuse_zero hzero).trans h⟩
  · exact roc_reuse_short h hshort
  · rcases hon with hzero | hone
    · exact ⟨r.strategy, (roc_reuse_zero hzero).trans h⟩
    · exact roc_reuse_decided h hone hfirst
  · exact roc_reuse_tolerated h hon htolerated

end Forgets

/-! ## The target that matters -/

theorem timestamp_ne {j k : ℕ} {a b : Bar} (h : validateRunContract bundle = .ok ()) (hjk : j < k)
    (ha : bundle.primary[j]? = some a) (hb : bundle.primary[k]? = some b) :
    b.timestamp ≠ a.timestamp := by
  obtain ⟨-, h⟩ := of_raiseIf h
  obtain ⟨hascending, -⟩ := of_raiseIf h
  have hpairwise := pairwise_iff_getElem.mp (pairwise_map.mp (not_not.mp hascending))
  obtain ⟨hj, rfl⟩ := List.getElem?_eq_some_iff.mp ha
  obtain ⟨hk, rfl⟩ := List.getElem?_eq_some_iff.mp hb
  exact (hpairwise j k hj hk hjk).ne'

section Remembers

variable {s : Strategy} {e : s.State} {r r' : Run s.State} {bar : Bar} {m : ℕ}

/-- Later bars keep the stamps of the orders, and number their own behind them. -/
theorem Filed.later {S : Set (ℕ × ℤ)} {ids : List ℕ} {c : ℕ}
    (hm : runBars s spec bundle e m = .ok r) (hfiled : Filed S ids r.toBook)
    (hcounter : c ≤ r.orderCounter)
    (hnew : ∀ j later k, m ≤ j → bundle.primary[j]? = some later → c < k → (k, later.timestamp) ∈ S)
    (hle : m ≤ n) (h : runBars s spec bundle e n = .ok r') :
    ∃ more, Filed S (ids ++ more) r'.toBook := by
  suffices ∃ more, Filed S (ids ++ more) r'.toBook ∧ c ≤ r'.orderCounter from
    this.imp fun _ h => h.1
  refine runBars_from (P := fun r' => ∃ more, Filed S (ids ++ more) r'.toBook
    ∧ c ≤ r'.orderCounter) (fun r₁ h₁ => ?_) (fun j later r₁ r₂ hj hlater hr₁ hstep => ?_) hle h
  · obtain rfl := ok.inj (hm.symm.trans h₁)
    exact ⟨[], by rwa [append_nil], hcounter⟩
  · obtain ⟨more, hfiled₁, hc⟩ := hr₁
    obtain ⟨more', hfiled₂, hc'⟩ := hfiled₁.step
      (fun k hk => hnew j later k hj hlater (hc.trans_lt hk)) hstep
    exact ⟨more ++ more', by rwa [← append_assoc], hc.trans hc'⟩

end Remembers

section Remembers

variable {r r' : Run (Adapted ℚ)} {bar : Bar}

/-- A new instance waits at the bar of its first call, between the exit and the entry. -/
theorem roc_waits (huntouched : Untouched spec.initialCash r.toBook) (hzero : r.strategy.own = 0)
    (hcash : 0 < spec.initialCash) (hbar : bundle.primary[params.lookback]? = some bar)
    (hbetween : ¬ ∃ current ∈ firstRoc params bundle,
      current ≤ params.exit ∨ params.entry ≤ current)
    (hstep : step (rocStrategy params tolerance reasons) spec bundle r (bar, params.lookback)
      = .ok r') : Untouched spec.initialCash r'.toBook := by
  refine huntouched.step (fun _ prepared hprepared hclose x intents hanswer => ?_) hstep
  have hfrom := fromCash_of_untouched (s := rocStrategy params tolerance reasons) hprepared hbar
    hclose hcash
  have hrebalance := (rocOnBar_eq_ok.mp hanswer).1
  rw [hzero, first_bars, (rocNext_of_between hbetween).1] at hrebalance
  exact ok.inj (hrebalance.symm.trans (rebalance_none hfrom))

/-- **One that kept its target buys.** -/
theorem roc_buys (huntouched : Untouched spec.initialCash r.toBook) (hone : r.strategy.own = 1)
    (hmultiplier : 0 < r.strategy.executionMultiplier) (hcash : 0 < spec.initialCash)
    (hbar : bundle.primary[params.lookback]? = some bar)
    (hbetween : ¬ ∃ current ∈ firstRoc params bundle,
      current ≤ params.exit ∨ params.entry ≤ current)
    (htolerance : ¬ ctx (ctx spec.initialCash / spec.initialCash) ≤ tolerance)
    (hstep : step (rocStrategy params tolerance reasons) spec bundle r (bar, params.lookback)
      = .ok r') :
    Filed {x | x.1 = r.orderCounter + 1 → x.2 = bar.timestamp} [r.orderCounter + 1] r'.toBook
      ∧ r.orderCounter + 1 ≤ r'.orderCounter := by
  have hnone : Filed {x : ℕ × ℤ | x.1 = r.orderCounter + 1 → x.2 = bar.timestamp} [] r.toBook := by
    refine ⟨fun o ho => ?_, ?_⟩
    · rw [huntouched.orders, huntouched.openOrders] at ho
      cases ho
    · rw [huntouched.orders]
      rfl
  obtain ⟨prepared, closes, intents, hprepare, hanswer, hfiled, hcounter⟩ :=
    hnone.step_warm (s := rocStrategy params tolerance reasons) le_rfl (fun _ _ _ => rfl) hstep
  have hfrom := fromCash_of_untouched (s := rocStrategy params tolerance reasons)
    (huntouched.prepare hprepare) hbar (prepare_eq_ok hprepare).close_pos hcash
  have hrebalance := (rocOnBar_eq_ok.mp hanswer).1
  rw [hone, first_bars, (rocNext_of_between hbetween).2] at hrebalance
  have hlength := rebalance_all hfrom hmultiplier htolerance hrebalance
  rw [hlength] at hfiled hcounter
  exact ⟨hfiled, hcounter.ge⟩

/-- **It matters**: the runs do not have the same orders. -/
theorem roc_remembers {e : Adapted ℚ} (hon : OnOff e)
    (hforgets : ¬ RocForgets params tolerance e spec bundle)
    (h : run (rocStrategy params tolerance reasons) spec bundle
      (newTargetWeight (rateOfChange params)) = .ok r)
    (h' : run (rocStrategy params tolerance reasons) spec bundle e = .ok r') :
    r'.orders ≠ r.orders := by
  unfold RocForgets at hforgets
  rw [not_or, not_or, not_or] at hforgets
  obtain ⟨hzero, hlong, hbetween, htolerance⟩ := hforgets
  have hone := hon.resolve_left hzero
  have hlength : params.lookback + 1 ≤ bundle.primary.length := not_le.mp hlong
  have hcash := initialCash_pos h
  have hbar := getElem?_eq_getElem hlength
  obtain ⟨r₁, h₁⟩ := runBars_of_le hlength h
  obtain ⟨u₁, hu₁⟩ := runBars_of_le hlength h'
  obtain ⟨r₀, h₀, hstep⟩ := of_bind ((runBars_succ hbar).symm.trans h₁)
  obtain ⟨u₀, hu₀, hstep'⟩ := of_bind ((runBars_succ hbar).symm.trans hu₁)
  obtain ⟨x, hx, hapart, huntouched, hmultiplier⟩ :=
    roc_before hone (Nat.le_of_succ_le hlength) le_rfl h₀
  obtain rfl := ok.inj (hx.symm.trans hu₀)
  obtain ⟨hvalid, -⟩ := runBars_zero (runBars_of_le (Nat.zero_le _) h).choose_spec
  -- the new instance has no order of this bar, and will have none
  have hwaits := roc_waits huntouched hapart.own_zero hcash hbar hbetween hstep
  have hwaited : Filed {x | x.2 ≠ bundle.primary[params.lookback].timestamp} [] r₁.toBook := by
    refine ⟨fun o ho => ?_, ?_⟩
    · rw [hwaits.orders, hwaits.openOrders] at ho
      cases ho
    · rw [hwaits.orders]
      rfl
  obtain ⟨_, hfresh⟩ := hwaited.later h₁ (Nat.zero_le _)
    (fun j later k hj hlater _ => timestamp_ne hvalid hj hbar hlater) hlength h
  -- the used one has an order of this bar, and keeps it
  have hpos : 0 < x.executionMultiplier := by
    rw [hapart.multiplier_eq, hmultiplier]
    exact executionMultiplier_pos _
  obtain ⟨hbought, hcounter⟩ := roc_buys (r := r₀.instead x) huntouched hapart.own_one hpos hcash
    hbar hbetween htolerance hstep'
  obtain ⟨more, hkept⟩ := hbought.later hu₁ hcounter
    (fun j later k _ _ hk heq => absurd heq hk.ne') hlength h'
  intro heq
  have hmem : r₀.orderCounter + 1 ∈ r'.orders.map fun o => o.id := by
    rw [hkept.ids_eq]
    exact mem_cons_self
  obtain ⟨o, ho, hid⟩ := mem_map.mp hmem
  have hnow := hkept.stamped o (mem_append_left _ ho) hid
  exact hfresh.stamped o (mem_append_left _ (heq ▸ ho)) hnow

end Remembers

end RateOfChange

/-! ## Every strategy -/

/-- **When a used instance runs as a new one**: always, except for `RateOfChange`. -/
def Builtin.Forgets (lib : Library) (spec : BacktestSpec) (bundle : MarketBundle) :
    (b : Builtin) → (b.strategy lib).State → Prop
  | .configured (.rateOfChange params) tolerance, e => RocForgets params tolerance e spec bundle
  | _, _ => True

/-- An instance other than a `RateOfChange` is a new one, when it is used again. -/
theorem run_eq_of_forgets (lib : Library) {b : Builtin} (e : (b.strategy lib).State)
    (spec : BacktestSpec) (bundle : MarketBundle)
    (hb : ∀ params tolerance, b ≠ .configured (.rateOfChange params) tolerance) :
    run (b.strategy lib) spec bundle e = run (b.strategy lib) spec bundle (b.fresh lib) := by
  refine run_eq_of_initialize ?_
  cases b with
  | configured c tolerance =>
    cases c with
    | rateOfChange params => exact absurd rfl (hb params tolerance)
    | _ => rfl
  | _ => rfl

theorem Run.sameResults_instead {σ : Type} (r : Run σ) (x : σ) : SameResults r (r.instead x) :=
  ⟨rfl, rfl, rfl⟩

/-- **A strategy used again** gives the orders, the fills and the snapshots of a new instance if and
only if it forgets. -/
theorem strategy_reuse (lib : Library) (b : Builtin) {e : (b.strategy lib).State}
    (hused : Used (b.strategy lib) (b.fresh lib) e) {spec : BacktestSpec} {bundle : MarketBundle}
    {r : Run (b.strategy lib).State}
    (hfresh : run (b.strategy lib) spec bundle (b.fresh lib) = .ok r) :
    (∃ r', run (b.strategy lib) spec bundle e = .ok r' ∧ SameResults r r')
      ↔ b.Forgets lib spec bundle e := by
  by_cases hb : ∀ params tolerance, b ≠ .configured (.rateOfChange params) tolerance
  · refine iff_of_true ⟨r, (run_eq_of_forgets lib e spec bundle hb).trans hfresh, rfl, rfl, rfl⟩ ?_
    unfold Builtin.Forgets
    split
    · rename_i params tolerance _
      exact absurd rfl (hb params tolerance)
    · trivial
  · simp only [not_forall, not_not] at hb
    obtain ⟨params, tolerance, rfl⟩ := hb
    have hon : OnOff e := onOff_of_used hused
    refine ⟨fun ⟨r', hr', hsame⟩ => ?_, fun hforgets => ?_⟩
    · by_contra hforgets
      exact roc_remembers hon hforgets hfresh hr' hsame.orders
    · obtain ⟨x, hx⟩ := roc_reuse hfresh hon hforgets
      exact ⟨_, hx, r.sameResults_instead x⟩

/-! ## A sample of two runs -/

theorem sampleRoc_lookback : 2 ≤ 2 ∧ 2 ≤ 2000 := by norm_num

theorem sampleRoc_entry : (0 : ℚ) ≤ 5 / 100 ∧ (5 / 100 : ℚ) ≤ 10 := by norm_num

theorem sampleRoc_exit : (-1 : ℚ) ≤ 0 ∧ (0 : ℚ) ≤ 10 := by norm_num

theorem sampleRoc_lt : (0 : ℚ) < 5 / 100 := by norm_num

/-- The rate of change of two bars, with an entry at 5 % and an exit at zero. -/
def sampleRoc : RateOfChangeParams :=
  ⟨⟨2, sampleRoc_lookback⟩, 5 / 100, 0, sampleRoc_entry, sampleRoc_exit, sampleRoc_lt⟩

theorem sampleTolerance_mem : (0 : ℚ) ≤ 5 / 1000 ∧ (5 / 1000 : ℚ) ≤ 1 := by norm_num

/-- The default tolerance. -/
def sampleTolerance : Tolerance := ⟨5 / 1000, sampleTolerance_mem⟩

/-- Functions that the rate of change does not use. -/
def sampleLibrary : Library := ⟨fun x _ => x, id, fun _ => ""⟩

/-- Three bars, of which the last is at a price. -/
def threeBars (last : ℚ) : MarketBundle :=
  { primary := [flatBar 0 100, flatBar hour 100, flatBar (2 * hour) last], auxiliary := [] }

/-- The strategy. -/
def sampleReuse : Builtin := .configured (.rateOfChange sampleRoc) sampleTolerance

/-- A run of a new instance. -/
def sampleRun (last : ℚ) : Except RunError (Run (Adapted ℚ)) :=
  run (rocStrategy sampleRoc sampleTolerance (reasonsOf (.rateOfChange sampleRoc))) sampleSpec
    (threeBars last) (newTargetWeight (rateOfChange sampleRoc))

theorem sampleRun_rise : (sampleRun 110).toOption.map (fun r => r.strategy.own) = some 1 := by
  decide +kernel

theorem sampleRun_flat : (sampleRun 102).toOption.isSome = true := by decide +kernel

/-- Two per cent are between the exit and the entry, and all of the cash is beyond the tolerance. -/
theorem sampleRoc_between :
    ¬ ((∃ current ∈ firstRoc sampleRoc (threeBars 102), current ≤ 0 ∨ 5 / 100 ≤ current)
      ∨ ctx (ctx 10000 / 10000) ≤ 5 / 1000) := by
  decide +kernel

theorem sampleUsed : ∃ e : Adapted ℚ, e.own = 1
    ∧ Used (sampleReuse.strategy sampleLibrary) (sampleReuse.fresh sampleLibrary) e := by
  obtain ⟨r, hr, hone⟩ := Option.map_eq_some_iff.mp sampleRun_rise
  have hrun : runBars (sampleReuse.strategy sampleLibrary) sampleSpec (threeBars 110)
      (sampleReuse.fresh sampleLibrary) 3 = .ok r := toOption_eq_some.mp hr
  exact ⟨r.strategy, hone, .ran .fresh hrun⟩

/-- **A used instance that buys, and a new one that does not.** -/
theorem strategy_reuse_differs : ¬ ∀ (lib : Library) (b : Builtin) (e : (b.strategy lib).State),
    Used (b.strategy lib) (b.fresh lib) e → ∀ (spec : BacktestSpec) (bundle : MarketBundle)
      (r : Run (b.strategy lib).State), run (b.strategy lib) spec bundle (b.fresh lib) = .ok r →
      ∃ r', run (b.strategy lib) spec bundle e = .ok r' ∧ SameResults r r' := by
  intro h
  obtain ⟨e, hone, hused⟩ := sampleUsed
  obtain ⟨r, hr⟩ := Option.isSome_iff_exists.mp sampleRun_flat
  have hfresh := toOption_eq_some.mp hr
  obtain ⟨r', hr', hsame⟩ := h sampleLibrary sampleReuse e hused sampleSpec (threeBars 102) r hfresh
  refine roc_remembers (.inr hone) ?_ hfresh hr' hsame.orders
  rintro (hzero | hshort | hdecides)
  · exact one_ne_zero (hone.symm.trans hzero)
  · exact absurd hshort (by decide)
  · exact sampleRoc_between hdecides

theorem strategy_reuse_flat : ∃ (e : Adapted ℚ) (r : Run (Adapted ℚ)), e.own = 1
    ∧ sampleRun 102 = .ok r
    ∧ ((∃ r', run (sampleReuse.strategy sampleLibrary) sampleSpec (threeBars 102) e = .ok r'
        ∧ SameResults r r')
      ↔ sampleReuse.Forgets sampleLibrary sampleSpec (threeBars 102) e) := by
  obtain ⟨e, hone, hused⟩ := sampleUsed
  obtain ⟨r, hr⟩ := Option.isSome_iff_exists.mp sampleRun_flat
  have hfresh := toOption_eq_some.mp hr
  exact ⟨e, r, hone, hfresh, strategy_reuse sampleLibrary sampleReuse hused hfresh⟩

end Engine

end Qt.Backtest
