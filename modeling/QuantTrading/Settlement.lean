import QuantTrading.CancelUncertainty

/-!
# The settlement gate

Each trade of an order settles on its own, and the order has one column for
all of them. The account is not reactivated or declared reconciled while that
column is open. What is asked of the gate is about the trades: it is to stay
shut as long as one of them is reported open and was never reported confirmed
(`System.unsettledTrade`).

One column is not enough for that. The confirmation of one trade closes the
column over another trade that is pending, and a trade that is pending does
not open the column of an order that is confirmed (`gate_opened`). On runs on
which no report does this, and no snapshot confirms an order over a pending
trade, the gate holds (`settlement_gate`).
-/

namespace Qt

open Except List Option
open Machine

variable {env : Env} {time : ℕ} {db db' : DB} {tx : Transaction}

/-! ## The column of an order -/

variable {f : FillReport} {o o' : Order}

theorem Evolves.settlementStatus_of_fill (h : Evolves time db tx o o')
    (htx : tx.fill = some (o.intentId, f)) :
    o'.settlementStatus = settlementAfter o.settlementStatus f.settlementStatus false := by
  cases h with
  | same unfilled => exact absurd htx (unfilled f)
  | fill htx' =>
    cases some.inj (htx.symm.trans htx')
    rfl
  | move _ _ hm =>
    cases hm with
    | settle _ _ htx' hstatus =>
      cases some.inj (htx.symm.trans htx')
      exact hstatus
    | observe _ _ _ htx' | finish _ _ _ htx' =>
      rw [fill_of_snapshot htx'] at htx
      cases htx
    | _ => cases htx

/-- A snapshot is taken: it is current, and no open order under a cancel. -/
def Order.takes (o : Order) (s : OrderSnapshot) : Prop :=
  s.identity.intentId = o.intentId ∧ ¬ o.outdates s
    ∧ ¬ (o.status = .cancelPending ∧ s.status.terminal = false)
deriving Decidable

theorem Evolves.settlementStatus_of_unfilled (h : Evolves time db tx o o')
    (htx : ∀ f, tx.fill ≠ some (o.intentId, f)) :
    o'.settlementStatus = o.settlementStatus ∨ ∃ s, tx.snapshot = some s ∧ o.takes s
      ∧ o'.settlementStatus = settlementAfter o.settlementStatus s.settlementStatus true := by
  cases h with
  | same => exact .inl rfl
  | fill htx' => exact absurd htx' (htx _)
  | move _ hid hm =>
    cases hm with
    | settle _ _ htx' => exact absurd htx' (htx _)
    | @observe _ s _ _ _ _ _ _ htx' fresh _ _ _ uncanceled _ _ hsettlement =>
      refine .inr ⟨s, htx', ⟨?_, fresh, fun h => uncanceled h.1⟩, hsettlement⟩
      exact some.inj ((Transaction.intentId_of_snapshot htx').symm.trans hid)
    | @finish _ s _ _ _ _ _ _ htx' fresh _ _ _ _ reported hsettlement =>
      refine .inr ⟨s, htx', ⟨?_, fresh, fun h => ?_⟩, hsettlement⟩
      · exact some.inj ((Transaction.intentId_of_snapshot htx').symm.trans hid)
      · rw [reported] at h
        cases h.2
    | _ => exact .inl rfl

theorem Commit.order_of_fill (h : Commit env time db tx db') {id : String}
    (htx : tx.fill = some (id, f)) : ∃ o, db.orders.find? id = some o := by
  cases h with
  | aside h =>
    rw [h.unfilled] at htx
    cases htx
  | fund => cases htx
  | reopen => cases htx
  | reserve => cases htx
  | @move _ _ _ o _ _ located hid =>
    obtain rfl : o.intentId = id :=
      some.inj (hid.symm.trans (Transaction.intentId_of_fill htx))
    exact ⟨o, located.order⟩
  | @fill _ _ o _ _ located htx' =>
    obtain rfl : o.intentId = id := congrArg Prod.fst (some.inj (htx'.symm.trans htx))
    exact ⟨o, located.order⟩

variable {current incoming : SettlementStatus}

/-- An open report opens the column, unless it is pending and the column
confirmed. -/
theorem settlementAfter_of_open (hopen : incoming.resolved = false)
    (h : ¬ (current = .confirmed ∧ incoming = .pending)) :
    (settlementAfter current incoming false).resolved = false := by
  revert hopen h
  cases current <;> cases incoming <;> decide

/-- An open column is closed by a confirmation only, and a broken one by no
report of a trade. -/
theorem settlementAfter_of_current {authoritative : Bool} (hopen : current.resolved = false)
    (h : ¬ (incoming = .confirmed ∧ (authoritative = true ∨ current.broken = false))) :
    (settlementAfter current incoming authoritative).resolved = false := by
  revert hopen h
  cases current <;> cases incoming <;> cases authoritative <;> decide

/-! ## The reports of a trade -/

/-- The settlement a log entry reports of a trade of an intent. -/
def Entry.report (id venueTradeId : String) : Entry → Option SettlementStatus
  | .committed _ tx _ => tx.fill.bind (fun p =>
    if p.1 = id ∧ p.2.venueTradeId = venueTradeId then some p.2.settlementStatus else none)
  | .sent .. => none

/-- The trade of an intent a log entry reports. -/
def Entry.trade (id : String) : Entry → Option String
  | .committed _ tx _ => tx.fill.bind (fun p => if p.1 = id then some p.2.venueTradeId else none)
  | .sent .. => none

namespace System

variable (s : System)

/-- The reports of a trade that were ingested, in order. -/
def reports (id venueTradeId : String) : List SettlementStatus :=
  s.log.filterMap (Entry.report id venueTradeId)

/-- The trades of an intent that were ingested. -/
def trades (id : String) : List String := s.log.filterMap (Entry.trade id)

/-- **A trade is unsettled**: the latest report of it is open, and none ever
confirmed it. -/
def unsettledTrade (id venueTradeId : String) : Prop :=
  (∃ r ∈ (s.reports id venueTradeId).getLast?, r.resolved = false)
    ∧ .confirmed ∉ s.reports id venueTradeId
deriving Decidable

variable {s} {id venueTradeId : String}

theorem mem_trades (h : s.unsettledTrade id venueTradeId) : venueTradeId ∈ s.trades id := by
  obtain ⟨⟨r, hr, _⟩, _⟩ := h
  obtain ⟨e, he, hreport⟩ := mem_filterMap.mp (mem_of_getLast? hr)
  refine mem_filterMap.mpr ⟨e, he, ?_⟩
  cases e with
  | sent => cases hreport
  | committed tid tx time =>
    obtain ⟨p, hp, hreport⟩ := bind_eq_some_iff.mp hreport
    refine bind_eq_some_iff.mpr ⟨p, hp, ?_⟩
    split_ifs at hreport with hk
    rw [if_pos hk.1, hk.2]

variable (s)

/-- **A report hides a trade**: it confirms its order over another trade that
is unsettled, or leaves an order confirmed that it reports a pending trade of. -/
def HidesByReport (o : Order) (f : FillReport) : Prop :=
  (f.settlementStatus = .confirmed ∧ o.settlementStatus.broken = false
    ∧ ∃ t ∈ s.trades o.intentId, t ≠ f.venueTradeId ∧ s.unsettledTrade o.intentId t)
  ∨ (f.settlementStatus = .pending ∧ o.settlementStatus = .confirmed
    ∧ .confirmed ∉ s.reports o.intentId f.venueTradeId)
deriving Decidable

/-- **A snapshot hides a trade**: it confirms its order over one that is
unsettled. -/
def HidesBySnapshot (o : Order) (snapshot : OrderSnapshot) : Prop :=
  o.takes snapshot ∧ snapshot.settlementStatus = .confirmed
    ∧ ∃ t ∈ s.trades o.intentId, s.unsettledTrade o.intentId t
deriving Decidable

/-- The step hides no unsettled trade. -/
def Shows (env : Env) (s : System) (l : Label) : Prop :=
  ∀ p ∈ commits env s l, (∀ q ∈ p.1.fill, ∀ o ∈ s.db.orders.find? q.1, ¬ s.HidesByReport o q.2)
    ∧ ∀ q ∈ p.1.snapshot, ∀ o ∈ s.db.orders.find? q.identity.intentId, ¬ s.HidesBySnapshot o q
deriving Decidable

/-- An unsettled trade shows in the column of its order. -/
def Shown : Prop :=
  ∀ id venueTradeId, s.unsettledTrade id venueTradeId →
    ∃ o, s.db.orders.find? id = some o ∧ o.settlementStatus.resolved = false

theorem reports_commit (t : Task) (tid time : ℕ) (tx : Transaction) (db : DB)
    (id venueTradeId : String) :
    reports { s.setTask tid t with db := db, log := s.log ++ [.committed tid tx time] } id
        venueTradeId
      = s.reports id venueTradeId
        ++ ((Entry.committed tid tx time).report id venueTradeId).toList := by
  show (s.log ++ [Entry.committed tid tx time]).filterMap (Entry.report id venueTradeId) = _
  rw [filterMap_append]
  congr 1

variable {t : Task} {tid : ℕ} {s}

/-- A trade that is unsettled after a commit was unsettled before it, or is
reported open by it. -/
theorem unsettledTrade_commit {db : DB}
    (h : unsettledTrade { s.setTask tid t with db := db, log := s.log ++ [.committed tid tx time] } id
      venueTradeId) :
    (s.unsettledTrade id venueTradeId
        ∧ ∀ p ∈ tx.fill, ¬ (p.1 = id ∧ p.2.venueTradeId = venueTradeId))
      ∨ ∃ f, tx.fill = some (id, f) ∧ f.venueTradeId = venueTradeId
        ∧ f.settlementStatus.resolved = false ∧ .confirmed ∉ s.reports id venueTradeId := by
  unfold unsettledTrade at h
  rw [reports_commit] at h
  cases hr : (Entry.committed tid tx time).report id venueTradeId with
  | none =>
    rw [hr, toList_none, append_nil] at h
    refine .inl ⟨h, fun p hp hk => ?_⟩
    rw [show (Entry.committed tid tx time).report id venueTradeId = some p.2.settlementStatus from
      bind_eq_some_iff.mpr ⟨p, hp, if_pos hk⟩] at hr
    cases hr
  | some status =>
    rw [hr, toList_some, getLast?_concat, mem_append] at h
    obtain ⟨⟨id', f⟩, hf, hreport⟩ := bind_eq_some_iff.mp hr
    split_ifs at hreport with hk
    obtain ⟨rfl, rfl⟩ := hk
    obtain ⟨⟨r, hlast, hopen⟩, hnever⟩ := h
    cases hlast
    cases hreport
    exact .inr ⟨f, hf, rfl, hopen, fun hmem => hnever (.inl hmem)⟩

/-- **A commit that hides no unsettled trade shows them all.** -/
theorem Shown.commit (hs : s.Shown) (hcommit : Commit env time s.db tx db')
    (hreport : ∀ q ∈ tx.fill, ∀ o ∈ s.db.orders.find? q.1, ¬ s.HidesByReport o q.2)
    (hsnapshot :
      ∀ q ∈ tx.snapshot, ∀ o ∈ s.db.orders.find? q.identity.intentId, ¬ s.HidesBySnapshot o q)
    : Shown { s.setTask tid t with db := db', log := s.log ++ [.committed tid tx time] } := by
  intro id venueTradeId hunsettled
  rcases unsettledTrade_commit hunsettled with ⟨hbefore, hother⟩ | ⟨f, hf, rfl, hopen, hnever⟩
  · -- the trade was unsettled, and its order shows it
    obtain ⟨o, ho, hcolumn⟩ := hs id venueTradeId hbefore
    have hid : o.intentId = id := Table.key_of_find? ho
    subst hid
    obtain ⟨o', ho', he⟩ := hcommit.evolves ho
    refine ⟨o', ho', ?_⟩
    by_cases hfill : ∃ f, tx.fill = some (o.intentId, f)
    · obtain ⟨f, hf⟩ := hfill
      rw [he.settlementStatus_of_fill hf]
      refine settlementAfter_of_current hcolumn (fun hc => hreport _ hf o ho (.inl ?_))
      refine ⟨hc.1, hc.2.resolve_left (by simp), venueTradeId, mem_trades hbefore, fun he => ?_,
        hbefore⟩
      exact hother _ hf ⟨rfl, he.symm⟩
    · rcases he.settlementStatus_of_unfilled (fun f hf => hfill ⟨f, hf⟩) with heq |
        ⟨snapshot, hsnap, htakes, heq⟩
      · rw [heq]
        exact hcolumn
      · rw [heq]
        refine settlementAfter_of_current hcolumn (fun hc => hsnapshot _ hsnap o ?_ ?_)
        · rw [htakes.1]
          exact ho
        · exact ⟨htakes, hc.1, venueTradeId, mem_trades hbefore, hbefore⟩
  · -- the commit reports it open
    obtain ⟨o, ho⟩ := hcommit.order_of_fill hf
    have hid : o.intentId = id := Table.key_of_find? ho
    subst hid
    obtain ⟨o', ho', he⟩ := hcommit.evolves ho
    refine ⟨o', ho', ?_⟩
    rw [he.settlementStatus_of_fill hf]
    exact settlementAfter_of_open hopen (fun hc => hreport _ hf o ho (.inr ⟨hc.2, hc.1, hnever⟩))

/-- The unsettled trades show after every run that hides none. -/
theorem shown_after {ls : List Label} (h : Meets (step env) (Shows env) init ls) :
    (after env ls).Shown := by
  have hinit : init.Shown := by
    rintro id venueTradeId ⟨⟨r, hr, _⟩, _⟩
    cases hr
  refine (inv_run_of_meets (fun s : System => s.Held ∧ s.Shown) ?_ ⟨held_init, hinit⟩ h).2
  rintro s l ⟨hheld, hshown⟩ hC
  refine ⟨hheld.step l, ?_⟩
  have hstep := steps env s l
  generalize hs' : step env s l = s' at hstep
  cases hstep with
  | quiet => exact hshown
  | @send tid time c row ht =>
    intro id venueTradeId hunsettled
    -- a send is no report
    have hreports : reports { s.setTask tid (.submitAwait c row) with
        log := s.log ++ [.sent tid row.payload.intent] } id venueTradeId
          = s.reports id venueTradeId := by
      show (s.log ++ [Entry.sent tid row.payload.intent]).filterMap
        (Entry.report id venueTradeId) = _
      rw [filterMap_append]
      exact append_nil _
    unfold unsettledTrade at hunsettled
    rw [hreports] at hunsettled
    exact hshown id venueTradeId hunsettled
  | commit tid time hnext hexec =>
    have hcommits : commits env s (.run tid time) = some (_, time) := commits_of_exec hnext hexec
    obtain ⟨hreport, hsnapshot⟩ := hC _ hcommits
    exact hshown.commit (commit_of_exec ((hheld tid).next hnext) hexec) hreport hsnapshot

/-- **The settlement gate.** In a run that hides no unsettled trade, an
unsettled trade keeps its account from being reconciled and reactivated. -/
theorem settlement_gate (env : Env) (ls : List Label) (id venueTradeId : String)
    (hshows : Meets (step env) (Shows env) init ls)
    (hunsettled : (after env ls).unsettledTrade id venueTradeId) :
    ∃ o ∈ (after env ls).db.orders.find? id,
      (∀ tenant nowNs time r, (Transaction.markReconciled tenant o.accountId nowNs).exec env time
        (after env ls).db ≠ .ok r)
      ∧ ∀ tenant reason deploymentId time r, (Transaction.setMode tenant o.accountId .active reason
        deploymentId).exec env time (after env ls).db ≠ .ok r := by
  obtain ⟨o, ho, hopen⟩ := shown_after hshows id venueTradeId hunsettled
  have hunresolved : hasUnsettled (after env ls).db o.accountId :=
    ⟨o, Table.mem_of_find? ho, rfl, hopen⟩
  refine ⟨o, ho, fun tenant nowNs time r hr => ?_, fun tenant reason deploymentId time r hr => ?_⟩
  · obtain ⟨_, hr, _⟩ := of_bind hr
    exact (not_hasUncertain_of_markReconciled hr).2 hunresolved
  · obtain ⟨_, hr, _⟩ := of_bind hr
    obtain ⟨_, _, hsettled, _⟩ := setMode_eq_ok hr
    exact (hsettled rfl).2 hunresolved

/-- An order, and a trade of it that is pending. -/
def pendingTrade : List Label :=
  Sample.opening 0 ++ Sample.reserving (Sample.intent "order" "paper" .buy Sample.seven Sample.ten)
      (Sample.deployment "paper" .paper Sample.capital) 5
    ++ Sample.submitted "order" 6
    ++ Sample.filling "order" (Sample.fill "first" 3 10 (3 / 100) .pending) 7

/-- Another trade of it, confirmed at once. -/
def confirmedTrade : List Label :=
  Sample.filling "order" (Sample.fill "second" 4 10 (4 / 100) .confirmed) 8

theorem settlement_gate_pendingTrade :
    ∃ o ∈ (after Sample.digests pendingTrade).db.orders.find? "order",
      (∀ tenant nowNs time r, (Transaction.markReconciled tenant o.accountId nowNs).exec
        Sample.digests time (after Sample.digests pendingTrade).db ≠ .ok r)
      ∧ ∀ tenant reason deploymentId time r, (Transaction.setMode tenant o.accountId .active reason
        deploymentId).exec Sample.digests time (after Sample.digests pendingTrade).db ≠ .ok r :=
  settlement_gate Sample.digests pendingTrade "order" "first" (by decide +kernel)
    (by decide +kernel)

/-- **The gate opens over a pending trade**, once another trade of the order
is confirmed. -/
theorem gate_opened :
    (after Sample.digests (pendingTrade ++ confirmedTrade)).unsettledTrade "order" "first"
    ∧ ((Transaction.markReconciled "tenant" "account" none).exec Sample.digests 9
      (after Sample.digests (pendingTrade ++ confirmedTrade)).db).isOk = true
    ∧ ((Transaction.setMode "tenant" "account" .active "review" none).exec Sample.digests 9
      (after Sample.digests (pendingTrade ++ confirmedTrade)).db).isOk = true := by
  decide +kernel

end System

end Qt
