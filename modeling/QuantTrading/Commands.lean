import QuantTrading.Leases

/-!
# The platform command queue

`qt.platform.commands`: commands that any number of parties enqueue under an
idempotency key of their own, and that workers claim, complete and fail. A claim
is a token and a time at which it expires; an expired claim is handed out again,
or ends the command when its attempts are used up.

An enqueue looks for its command and inserts it in two statements, so another
one can come in between. `claim_next` is a loop, and each round of it is a
transaction of its own, which picks a row that nobody else has locked. The ids
and tokens that `uuid4` draws are in the labels, and nothing is assumed of them.
-/

namespace Qt

open Except List Table Machine Option

/-! ## Rows -/

inductive CommandStatus | pending | processing | retryWait | succeeded | failed | cancelled
deriving DecidableEq, Repr

inductive CommandType | start | stop | restart | reconcile | noop
deriving DecidableEq, Repr

/-- A command that will not run any more. -/
def CommandStatus.final : CommandStatus → Bool
  | .succeeded | .failed => true
  | _ => false

/-- What the repository raises. -/
inductive CommandError
  | valueError (message : String)
  | staleCommandClaim (commandId : String)
  | integrityError
deriving DecidableEq, Repr

/-- A row of `platform_commands`, with JSON payloads `P` and results `R`. -/
structure PlatformCommand (P R : Type) where
  id : String
  ownerId : String
  commandType : CommandType
  target : String
  payload : P
  idempotencyKey : String
  status : CommandStatus
  attempts : ℤ
  maxAttempts : ℤ
  availableAt : ℤ
  claimOwner : Option String
  claimToken : Option String
  claimExpiresAt : Option ℤ
  result : Option R
  error : Option String
  version : ℕ
  createdAt : ℤ
  updatedAt : ℤ
  completedAt : Option ℤ

variable {P R : Type}

/-- The rows, by their primary key. -/
abbrev PlatformCommands (P R : Type) := Table (PlatformCommand.id (P := P) (R := R))

def findIdempotent (commands : PlatformCommands P R) (ownerId idempotencyKey : String) :
    Option (PlatformCommand P R) :=
  commands.rows.find? fun r => r.ownerId = ownerId ∧ r.idempotencyKey = idempotencyKey

namespace PlatformCommand

variable (r : PlatformCommand P R)

def clearClaim : PlatformCommand P R :=
  { r with claimOwner := none, claimToken := none, claimExpiresAt := none }

/-- The row of a command whose last claim expired. -/
def exhausted (lockedAt : ℤ) : PlatformCommand P R :=
  { r.clearClaim with
    status := .failed
    result := none
    error := some "command claim expired after maximum attempts"
    completedAt := some lockedAt
    version := r.version + 1
    updatedAt := lockedAt }

/-- The row of a command under a new claim. -/
def claimed (workerId token : String) (leaseSeconds lockedAt : ℤ) : PlatformCommand P R :=
  { r with
    status := .processing
    attempts := r.attempts + 1
    claimOwner := some workerId
    claimToken := some token
    claimExpiresAt := some (lockedAt + seconds leaseSeconds)
    result := none
    error := none
    completedAt := none
    version := r.version + 1
    updatedAt := lockedAt }

/-- The row of a command that succeeded. -/
def completed (result : R) (now : ℤ) : PlatformCommand P R :=
  { r.clearClaim with
    status := .succeeded
    result := some result
    error := none
    completedAt := some now
    version := r.version + 1
    updatedAt := now }

/-- The row of a command that failed, and that waits for another attempt if one
is asked for and left. -/
def failedWith (error : String) (retryDelaySeconds : Option ℤ) (now : ℤ) : PlatformCommand P R :=
  match retryDelaySeconds with
  | some delay =>
    if r.attempts < r.maxAttempts then
      { r.clearClaim with
        status := .retryWait
        result := none
        error := some error
        availableAt := now + seconds delay
        completedAt := none
        version := r.version + 1
        updatedAt := now }
    else
      { r.clearClaim with
        status := .failed
        result := none
        error := some error
        completedAt := some now
        version := r.version + 1
        updatedAt := now }
  | none =>
    { r.clearClaim with
      status := .failed
      result := none
      error := some error
      completedAt := some now
      version := r.version + 1
      updatedAt := now }

/-- A command that a worker may claim, or whose claim expired. -/
def Claimable (now : ℤ) (r : PlatformCommand P R) : Prop :=
  ((r.status = .pending ∨ r.status = .retryWait) ∧ r.availableAt ≤ now ∧ r.attempts < r.maxAttempts)
    ∨ (r.status = .processing ∧ ∃ t ∈ r.claimExpiresAt, t ≤ now)
deriving Decidable

/-- `order_by(available_at, created_at)`. -/
def Before (r r' : PlatformCommand P R) : Prop :=
  r.availableAt < r'.availableAt ∨ (r.availableAt = r'.availableAt ∧ r.createdAt ≤ r'.createdAt)
deriving Decidable

/-- `_require_active_claim`: the command is claimed under the token, and the
claim has not expired. -/
def ActiveClaim (claimToken : String) (now : ℤ) : Prop :=
  r.status = .processing ∧ r.claimToken = some claimToken ∧ ∃ t ∈ r.claimExpiresAt, now < t
deriving Decidable

end PlatformCommand

/-! ## Operations -/

/-- The arguments of `enqueue`. -/
structure CommandCall (P : Type) where
  ownerId : String
  commandType : CommandType
  target : String
  payload : P
  idempotencyKey : String
  maxAttempts : ℤ

/-- The row that an enqueue inserts. -/
def CommandCall.row (c : CommandCall P) (id : String) (now : ℤ) : PlatformCommand P R where
  id := id
  ownerId := c.ownerId
  commandType := c.commandType
  target := c.target
  payload := c.payload
  idempotencyKey := c.idempotencyKey
  status := .pending
  attempts := 0
  maxAttempts := c.maxAttempts
  availableAt := now
  claimOwner := none
  claimToken := none
  claimExpiresAt := none
  result := none
  error := none
  version := 1
  createdAt := now
  updatedAt := now
  completedAt := none

/-- The arguments of `claim_next`. -/
structure ClaimNextCall where
  workerId : String
  leaseSeconds : ℤ
deriving DecidableEq, Repr

/-- What a round of `claim_next` finds besides the rows: the clock when it
looks, the rows that others have locked, which of two rows in the same place of
the order the database returns, the clock under the lock, and the new token. -/
structure ClaimRound where
  candidateTime : ℤ
  busy : String → Bool
  pick : String
  lockedAt : ℤ
  token : String

/-- The rows that a round may pick. -/
def ClaimRound.candidates (round : ClaimRound) (commands : PlatformCommands P R) :
    List (PlatformCommand P R) :=
  commands.rows.filter fun r => r.Claimable round.candidateTime ∧ round.busy r.id = false

/-- The first of the rows, in one of the orders that `order_by` allows. -/
def ClaimRound.first (round : ClaimRound) (rows : List (PlatformCommand P R)) :
    Option (PlatformCommand P R) :=
  let firsts := rows.filter fun r => ∀ r' ∈ rows, r.Before r'
  (firsts.find? fun r => r.id = round.pick).or firsts.head?

/-- How a round ends: the loop returns, or goes around. -/
inductive RoundEnd (P R : Type)
  | returned (command : Option (PlatformCommand P R))
  | again (commandId : String)

/-- **A round of `claim_next`.** -/
def claimRound (c : ClaimNextCall) (round : ClaimRound) (commands : PlatformCommands P R) :
    RoundEnd P R × PlatformCommands P R :=
  match round.first (round.candidates commands) with
  | none => (.returned none, commands)
  | some r =>
    if r.status = .processing ∧ r.maxAttempts ≤ r.attempts then
      (.again r.id, commands.replace (r.exhausted round.lockedAt))
    else
      let row := r.claimed c.workerId round.token c.leaseSeconds round.lockedAt
      (.returned (some row), commands.replace row)

/-- `claim_next`, as long as there are rounds to come. -/
def claimNext (c : ClaimNextCall) : List ClaimRound → PlatformCommands P R →
    Option (Option (PlatformCommand P R) × PlatformCommands P R)
  | [], _ => none
  | round :: rounds, commands =>
    match claimRound c round commands with
    | (.returned command, commands) => some (command, commands)
    | (.again _, commands) => claimNext c rounds commands

/-- The claim that a worker shows. -/
structure ClaimRef where
  commandId : String
  claimToken : String
deriving DecidableEq, Repr

/-- `_lock_claim` and `_require_active_claim`. -/
def requireActiveClaim (c : ClaimRef) (now : ℤ) (commands : PlatformCommands P R) :
    Except CommandError (PlatformCommand P R) :=
  match commands.find? c.commandId with
  | none => .error (.staleCommandClaim c.commandId)
  | some r => do
    raiseIf (¬ r.ActiveClaim c.claimToken now) (.staleCommandClaim c.commandId)
    return r

/-- `complete`. -/
def completeCommand (c : ClaimRef) (result : R) (now : ℤ) (commands : PlatformCommands P R) :
    Except CommandError (PlatformCommand P R × PlatformCommands P R) := do
  let r ← requireActiveClaim c now commands
  let row := r.completed result now
  return (row, commands.replace row)

/-- `fail`. -/
def failCommand (c : ClaimRef) (error : String) (retryDelaySeconds : Option ℤ) (now : ℤ)
    (commands : PlatformCommands P R) :
    Except CommandError (PlatformCommand P R × PlatformCommands P R) := do
  raiseIf (∃ delay ∈ retryDelaySeconds, delay < 0)
    (.valueError "retry_delay_seconds cannot be negative")
  let r ← requireActiveClaim c now commands
  let row := r.failedWith error retryDelaySeconds now
  return (row, commands.replace row)

/-! ## The system -/

/-- What the calls did, and what they returned. -/
inductive CommandEvent
  | enqueued (ownerId idempotencyKey commandId : String)
  | claimed (commandId claimToken : String) (expiresAt : ℤ)
  | completed (c : ClaimRef)
  | failed (c : ClaimRef)
  | expired (commandId : String)
deriving DecidableEq, Repr

/-- **The queue and its users**: the clock, the rows, the enqueues that found no
command and are about to insert one, with its id and the clock they read, and
what happened so far. -/
structure CommandQueue (P R : Type) where
  now : ℤ
  commands : PlatformCommands P R
  inserting : List (CommandCall P × String × ℤ)
  log : List CommandEvent

namespace CommandQueue

/-- What happens next. -/
inductive Label (P R : Type)
  /-- Time passes. -/
  | tick (d : ℕ)
  /-- `enqueue`, up to the insert if there is no command yet. -/
  | enqueue (c : CommandCall P) (id : String)
  /-- The insert of an enqueue. -/
  | insert (i : ℕ)
  /-- A round of `claim_next`, in which time passes before the lock is held. -/
  | claim (c : ClaimNextCall) (busy : String → Bool) (pick token : String) (d : ℕ)
  | complete (c : ClaimRef) (result : R)
  | fail (c : ClaimRef) (message : String) (retryDelaySeconds : Option ℤ)

variable (s : CommandQueue P R)

/-- An enqueue returns a command. -/
def told (r : PlatformCommand P R) : CommandQueue P R :=
  { s with log := s.log ++ [.enqueued r.ownerId r.idempotencyKey r.id] }

/-- A claim as the log holds it. -/
def roundEvent : RoundEnd P R → List CommandEvent
  | .returned none => []
  | .returned (some r) =>
    [.claimed r.id (r.claimToken.getD "") (r.claimExpiresAt.getD 0)]
  | .again commandId => [.expired commandId]

/-- **A step of the system.** -/
def step : Label P R → CommandQueue P R
  | .tick d => { s with now := s.now + d }
  | .enqueue c id =>
    if c.maxAttempts < 1 then s
    else match findIdempotent s.commands c.ownerId c.idempotencyKey with
      | some r => s.told r
      | none => { s with inserting := s.inserting ++ [(c, id, s.now)] }
  | .insert i =>
    match s.inserting[i]? with
    | none => s
    | some (c, id, at_) =>
      let s := { s with inserting := s.inserting.eraseIdx i }
      match findIdempotent s.commands c.ownerId c.idempotencyKey with
      -- the unique constraint is violated, and the command found again
      | some r => s.told r
      | none =>
        -- an id that is taken raises
        if id ∈ s.commands.rows.map PlatformCommand.id then s
        else { s with commands := s.commands.insertOnce (c.row id at_) }.told
          (c.row id at_ : PlatformCommand P R)
  | .claim c busy pick token d =>
    if c.leaseSeconds ≤ 0 then s
    else
      let round := claimRound c ⟨s.now, busy, pick, s.now + d, token⟩ s.commands
      { s with now := s.now + d, commands := round.2, log := s.log ++ roundEvent round.1 }
  | .complete c result =>
    match completeCommand c result s.now s.commands with
    | .ok (_, commands) => { s with commands := commands, log := s.log ++ [.completed c] }
    | .error _ => s
  | .fail c message retryDelaySeconds =>
    match failCommand c message retryDelaySeconds s.now s.commands with
    | .ok (_, commands) => { s with commands := commands, log := s.log ++ [.failed c] }
    | .error _ => s

variable (now : ℤ)

/-- Nothing was ever enqueued. -/
def init : CommandQueue P R := ⟨now, .empty, [], []⟩

/-- The system after a run. -/
def after (ls : List (Label P R)) : CommandQueue P R := Machine.run step (init now) ls

/-- The latest claim of a command: its token, and when it expires. -/
def latestClaim (commandId : String) : Option (String × ℤ) :=
  (s.log.filterMap fun
    | .claimed id token expiresAt => if id = commandId then some (token, expiresAt) else none
    | _ => none).getLast?

/-- The commands that a round of `claim_next` ended, in order. -/
def expiredIds : List String :=
  s.log.filterMap fun
    | .expired id => some id
    | _ => none

/-! ## What a step can do -/

/-- **How a step writes a row**, and what it logs: a claim that expired for the
last time ends the command; an unfinished command with attempts left is claimed;
and the holder of an active claim completes it or lets it fail. -/
inductive Written (now : ℤ) (r : PlatformCommand P R) :
    PlatformCommand P R → CommandEvent → Prop
  | exhausted (processing : r.status = .processing) (spent : r.maxAttempts ≤ r.attempts) :
      Written now r (r.exhausted now) (.expired r.id)
  | claimed (workerId token : String) (leaseSeconds : ℤ) (unfinished : r.status.final = false)
      (left : r.attempts < r.maxAttempts) :
      Written now r (r.claimed workerId token leaseSeconds now)
        (.claimed r.id token (now + seconds leaseSeconds))
  | completed (claimToken : String) (result : R) (active : r.ActiveClaim claimToken now) :
      Written now r (r.completed result now) (.completed ⟨r.id, claimToken⟩)
  | failed (claimToken error : String) (retryDelaySeconds : Option ℤ)
      (active : r.ActiveClaim claimToken now) :
      Written now r (r.failedWith error retryDelaySeconds now) (.failed ⟨r.id, claimToken⟩)

/-- **The writes of a step.** -/
inductive Writes (s s' : CommandQueue P R) : Prop
  | quiet (hcommands : s'.commands = s.commands) (hlog : s'.log = s.log)
  | told (r : PlatformCommand P R) (found : s.commands.find? r.id = some r)
      (hcommands : s'.commands = s.commands)
      (hlog : s'.log = s.log ++ [.enqueued r.ownerId r.idempotencyKey r.id])
  | insert (c : CommandCall P) (id : String) (at_ : ℤ) (attempts : 1 ≤ c.maxAttempts)
      (unknown : findIdempotent s.commands c.ownerId c.idempotencyKey = none)
      (unused : s.commands.find? id = none)
      (hcommands : s'.commands = s.commands.insertOnce (c.row id at_))
      (hlog : s'.log = s.log ++ [.enqueued c.ownerId c.idempotencyKey id])
  | write (r row : PlatformCommand P R) (e : CommandEvent) (found : s.commands.find? r.id = some r)
      (written : Written s'.now r row e) (hcommands : s'.commands = s.commands.replace row)
      (hlog : s'.log = s.log ++ [e])

variable {e : CommandEvent} {now} {r row : PlatformCommand P R}

theorem Written.id_eq (h : Written now r row e) : row.id = r.id := by
  cases h with
  | exhausted | claimed | completed => rfl
  | failed _ error retryDelaySeconds =>
    unfold PlatformCommand.failedWith
    split <;> [split_ifs <;> rfl; rfl]

variable {commands : PlatformCommands P R} {key ownerId : String}

theorem mem_of_findIdempotent (h : findIdempotent commands ownerId key = some r) :
    r ∈ commands.rows ∧ r.ownerId = ownerId ∧ r.idempotencyKey = key :=
  ⟨mem_of_find?_eq_some h, by simpa using find?_some h⟩

variable {round : ClaimRound}

theorem mem_of_first {rows : List (PlatformCommand P R)} (h : round.first rows = some r) :
    r ∈ rows := by
  unfold ClaimRound.first at h
  rcases Option.or_eq_some_iff.mp h with h | ⟨_, h⟩
  · exact mem_of_mem_filter (mem_of_find?_eq_some h)
  · exact mem_of_mem_filter (mem_of_mem_head? h)

theorem claimable_of_first (h : round.first (round.candidates commands) = some r) :
    commands.find? r.id = some r ∧ r.Claimable round.candidateTime := by
  obtain ⟨hmem, hclaimable⟩ := mem_filter.mp (mem_of_first h)
  exact ⟨find?_of_mem hmem, (of_decide_eq_true hclaimable).1⟩

variable {c : ClaimRef}

theorem requireActiveClaim_eq_ok (h : requireActiveClaim c now commands = .ok r) :
    commands.find? c.commandId = some r ∧ r.ActiveClaim c.claimToken now := by
  unfold requireActiveClaim at h
  cases hfound : commands.find? c.commandId with
  | none =>
    rw [hfound] at h
    cases h
  | some p =>
    rw [hfound] at h
    obtain ⟨hactive, h⟩ := of_raiseIf h
    obtain rfl : p = r := ok.inj h
    exact ⟨rfl, not_not.mp hactive⟩

variable {out : PlatformCommand P R × PlatformCommands P R}

theorem completeCommand_eq_ok {result : R} (h : completeCommand c result now commands = .ok out) :
    ∃ r, requireActiveClaim c now commands = .ok r
      ∧ out = (r.completed result now, commands.replace (r.completed result now)) := by
  obtain ⟨r, hr, h⟩ := of_bind h
  exact ⟨r, hr, (ok.inj h).symm⟩

theorem failCommand_eq_ok {error : String} {delay : Option ℤ}
    (h : failCommand c error delay now commands = .ok out) :
    ∃ r, requireActiveClaim c now commands = .ok r
      ∧ out = (r.failedWith error delay now, commands.replace (r.failedWith error delay now)) := by
  obtain ⟨_, h⟩ := of_raiseIf h
  obtain ⟨r, hr, h⟩ := of_bind h
  exact ⟨r, hr, (ok.inj h).symm⟩

/-- **A round of `claim_next`** returns nothing, or ends the command whose last
claim expired, or claims one. -/
theorem claimRound_cases (c : ClaimNextCall) (round : ClaimRound) (commands : PlatformCommands P R) :
    claimRound c round commands = (.returned none, commands)
    ∨ ∃ r, commands.find? r.id = some r ∧ ((r.status = .processing ∧ r.maxAttempts ≤ r.attempts ∧
        claimRound c round commands = (.again r.id, commands.replace (r.exhausted round.lockedAt)))
      ∨ (r.status.final = false ∧ r.attempts < r.maxAttempts ∧ claimRound c round commands
          = (.returned (some (r.claimed c.workerId round.token c.leaseSeconds round.lockedAt)),
            commands.replace (r.claimed c.workerId round.token c.leaseSeconds round.lockedAt)))) := by
  unfold claimRound
  cases h : round.first (round.candidates commands) with
  | none => exact .inl rfl
  | some r =>
    obtain ⟨hfound, hclaimable⟩ := claimable_of_first h
    refine .inr ⟨r, hfound, ?_⟩
    dsimp only
    by_cases hspent : r.status = .processing ∧ r.maxAttempts ≤ r.attempts
    · rw [if_pos hspent]
      exact .inl ⟨hspent.1, hspent.2, rfl⟩
    · rw [if_neg hspent]
      -- a command that waits has attempts left, and so has one that is processed
      rcases hclaimable with ⟨hwaits, _, hleft⟩ | ⟨hprocessing, _⟩
      · refine .inr ⟨?_, hleft, rfl⟩
        rcases hwaits with hs | hs <;> rw [hs] <;> rfl
      · refine .inr ⟨by rw [hprocessing]; rfl, ?_, rfl⟩
        exact not_le.mp (fun hle => hspent ⟨hprocessing, hle⟩)

/-- **What a step can do**, if the enqueues in flight ask for an attempt; and they still do. -/
theorem step_spec (hpending : ∀ p ∈ s.inserting, 1 ≤ p.1.maxAttempts) (l : Label P R) :
    Writes s (s.step l) ∧ ∀ p ∈ (s.step l).inserting, 1 ≤ p.1.maxAttempts := by
  cases l with
  | tick d => exact ⟨.quiet rfl rfl, hpending⟩
  | enqueue c id =>
    unfold step
    dsimp only
    split_ifs with hattempts
    · exact ⟨.quiet rfl rfl, hpending⟩
    · cases h : findIdempotent s.commands c.ownerId c.idempotencyKey with
      | none =>
        exact ⟨.quiet rfl rfl, forall_mem_append.mpr ⟨hpending, by simpa using hattempts⟩⟩
      | some r => exact ⟨.told r (find?_of_mem (mem_of_findIdempotent h).1) rfl rfl, hpending⟩
  | insert i =>
    have hleft : ∀ q ∈ s.inserting.eraseIdx i, 1 ≤ q.1.maxAttempts := fun q hq =>
      hpending q (mem_of_mem_eraseIdx hq)
    unfold step
    dsimp only
    cases hi : s.inserting[i]? with
    | none => exact ⟨.quiet rfl rfl, hpending⟩
    | some p =>
      obtain ⟨c, id, at_⟩ := p
      dsimp only
      cases h : findIdempotent s.commands c.ownerId c.idempotencyKey with
      | some r => exact ⟨.told r (find?_of_mem (mem_of_findIdempotent h).1) rfl rfl, hleft⟩
      | none =>
        dsimp only
        split_ifs with hid
        · exact ⟨.quiet rfl rfl, hleft⟩
        · exact ⟨.insert c id at_ (hpending _ (mem_of_getElem? hi)) h
            (find?_eq_none_iff.mpr hid) rfl rfl, hleft⟩
  | claim c busy pick token d =>
    unfold step
    dsimp only
    split_ifs
    · exact ⟨.quiet rfl rfl, hpending⟩
    · refine ⟨?_, hpending⟩
      rcases claimRound_cases c ⟨s.now, busy, pick, s.now + d, token⟩ s.commands with
        h | ⟨r, hfound, ⟨hprocessing, hspent, h⟩ | ⟨hfinal, hleft, h⟩⟩
      · rw [h]
        exact .quiet rfl (append_nil _)
      · rw [h]
        exact .write r _ _ hfound (.exhausted hprocessing hspent) rfl rfl
      · rw [h]
        exact .write r _ _ hfound (.claimed c.workerId token c.leaseSeconds hfinal hleft) rfl rfl
  | complete c result =>
    unfold step
    dsimp only
    cases h : completeCommand c result s.now s.commands with
    | error e => exact ⟨.quiet rfl rfl, hpending⟩
    | ok out =>
      obtain ⟨r, hr, rfl⟩ := completeCommand_eq_ok h
      obtain ⟨hfound, hactive⟩ := requireActiveClaim_eq_ok hr
      have hid : r.id = c.commandId := key_of_find? hfound
      refine ⟨.write r _ _ (hid ▸ hfound) (.completed c.claimToken result hactive) rfl ?_, hpending⟩
      rw [hid]
  | fail c message delay =>
    unfold step
    dsimp only
    cases h : failCommand c message delay s.now s.commands with
    | error e => exact ⟨.quiet rfl rfl, hpending⟩
    | ok out =>
      obtain ⟨r, hr, rfl⟩ := failCommand_eq_ok h
      obtain ⟨hfound, hactive⟩ := requireActiveClaim_eq_ok hr
      have hid : r.id = c.commandId := key_of_find? hfound
      refine ⟨.write r _ _ (hid ▸ hfound) (.failed c.claimToken message delay hactive) rfl ?_,
        hpending⟩
      rw [hid]

/-! ## One command over time -/

/-- **What the writes keep of a row**: whose it is, and all of it once it is
final. -/
structure Later (r r' : PlatformCommand P R) : Prop where
  owner : r'.ownerId = r.ownerId
  key : r'.idempotencyKey = r.idempotencyKey
  final : r.status.final = true → r' = r

/-- **What is so of a later state**: no command is gone, and nothing that was
logged. -/
structure Since (s s' : CommandQueue P R) : Prop where
  row : ∀ id r, s.commands.find? id = some r → ∃ r', s'.commands.find? id = some r' ∧ Later r r'
  log : s.log <+: s'.log

theorem Later.refl (r : PlatformCommand P R) : Later r r := ⟨rfl, rfl, fun _ => rfl⟩

theorem Later.trans {r₁ r₂ r₃ : PlatformCommand P R} (h : Later r₁ r₂) (h' : Later r₂ r₃) :
    Later r₁ r₃ where
  owner := h'.owner.trans h.owner
  key := h'.key.trans h.key
  final hfinal := by
    have hsame : r₂ = r₁ := h.final hfinal
    exact (h'.final (hsame ▸ hfinal)).trans hsame

theorem Since.refl : Since s s := ⟨fun _ r h => ⟨r, h, .refl r⟩, prefix_rfl⟩

theorem Since.trans {s₁ s₂ s₃ : CommandQueue P R} (h : Since s₁ s₂) (h' : Since s₂ s₃) :
    Since s₁ s₃ where
  row id r hr := by
    obtain ⟨r₂, hr₂, hl⟩ := h.row id r hr
    obtain ⟨r₃, hr₃, hl'⟩ := h'.row id r₂ hr₂
    exact ⟨r₃, hr₃, hl.trans hl'⟩
  log := h.log.trans h'.log

theorem final_of_activeClaim {claimToken : String} (h : r.ActiveClaim claimToken now) :
    r.status.final = false := by
  rw [h.1]
  rfl

theorem Written.unfinished (h : Written now r row e) : r.status.final = false := by
  cases h with
  | exhausted processing spent =>
    rw [processing]
    rfl
  | claimed _ _ _ unfinished _ => exact unfinished
  | completed _ _ active | failed _ _ _ active => exact final_of_activeClaim active

theorem Written.later (h : Written now r row e) : Later r row := by
  have hopen := h.unfinished
  have hfinal : r.status.final = true → row = r := fun hf => by
    rw [hopen] at hf
    cases hf
  cases h with
  | exhausted | claimed | completed => exact ⟨rfl, rfl, hfinal⟩
  | failed _ error retryDelaySeconds =>
    refine ⟨?_, ?_, hfinal⟩ <;> unfold PlatformCommand.failedWith <;>
      split <;> [split_ifs <;> rfl; rfl; split_ifs <;> rfl; rfl]

variable {s} {s' : CommandQueue P R}

/-- **A step keeps the commands.** -/
theorem Writes.since (h : Writes s s') : Since s s' := by
  cases h with
  | quiet hcommands hlog =>
    exact ⟨fun _ r hr => ⟨r, hcommands ▸ hr, .refl r⟩, hlog ▸ prefix_rfl⟩
  | told r found hcommands hlog =>
    exact ⟨fun _ r hr => ⟨r, hcommands ▸ hr, .refl r⟩, hlog ▸ prefix_append _ _⟩
  | insert c id at_ attempts unknown unused hcommands hlog =>
    refine ⟨fun _ r hr => ⟨r, ?_, .refl r⟩, hlog ▸ prefix_append _ _⟩
    rw [hcommands]
    exact find?_insertOnce_of_find? hr
  | write r row e found written hcommands hlog =>
    refine ⟨fun id p hp => ?_, hlog ▸ prefix_append _ _⟩
    rw [hcommands, find?_replace (written.id_eq.symm ▸ found), written.id_eq]
    by_cases hk : id = r.id
    · subst hk
      obtain rfl : r = p := some.inj (found.symm.trans hp)
      exact ⟨row, if_pos rfl, written.later⟩
    · exact ⟨p, (if_neg hk).trans hp, .refl p⟩

/-! ## The invariant -/

/-- **A row that is as it should be**: no more attempts than it may have, and a
claim, with its owner, token and end, exactly while it is processed. -/
structure Sound (r : PlatformCommand P R) : Prop where
  attempts : r.attempts ≤ r.maxAttempts
  processing : r.status = .processing →
    r.claimOwner.isSome ∧ r.claimToken.isSome ∧ r.claimExpiresAt.isSome
  idle : r.status ≠ .processing →
    r.claimOwner = none ∧ r.claimToken = none ∧ r.claimExpiresAt = none

/-- The claim of a row is the last that was handed out. -/
def Latest (s : CommandQueue P R) (r : PlatformCommand P R) : Prop :=
  ∃ token expiresAt, r.claimToken = some token ∧ r.claimExpiresAt = some expiresAt
    ∧ s.latestClaim r.id = some (token, expiresAt)

/-- **What every system satisfies.** -/
structure Inv (s : CommandQueue P R) : Prop where
  pending : ∀ p ∈ s.inserting, 1 ≤ p.1.maxAttempts
  sound : ∀ r ∈ s.commands.rows, Sound r
  latest : ∀ r ∈ s.commands.rows, r.status = .processing → s.Latest r
  unique : ∀ r ∈ s.commands.rows, ∀ r' ∈ s.commands.rows,
    r.ownerId = r'.ownerId → r.idempotencyKey = r'.idempotencyKey → r = r'
  enqueued : ∀ ownerId key id, .enqueued ownerId key id ∈ s.log →
    ∃ r, s.commands.find? id = some r ∧ r.ownerId = ownerId ∧ r.idempotencyKey = key
  expired : s.expiredIds.Nodup
  ended : ∀ id ∈ s.expiredIds, ∃ r, s.commands.find? id = some r ∧ r.status = .failed

variable {id : String} {expiresAt : ℤ} {token : String}

theorem latestClaim_claimed (hlog : s'.log = s.log ++ [.claimed id token expiresAt]) :
    s'.latestClaim id = some (token, expiresAt) := by
  unfold latestClaim
  rw [hlog, filterMap_append]
  simp

theorem latestClaim_other (hlog : s'.log = s.log ++ [e])
    (h : ∀ token expiresAt, e ≠ .claimed id token expiresAt) :
    s'.latestClaim id = s.latestClaim id := by
  unfold latestClaim
  rw [hlog, filterMap_append]
  cases e with
  | claimed i token expiresAt =>
    have hne : i ≠ id := fun hi => h token expiresAt (hi ▸ rfl)
    simp [hne]
  | enqueued | completed | failed | expired => simp

theorem expiredIds_other (hlog : s'.log = s.log ++ [e]) (h : ∀ id, e ≠ .expired id) :
    s'.expiredIds = s.expiredIds := by
  unfold expiredIds
  rw [hlog, filterMap_append]
  cases e with
  | expired id => exact absurd rfl (h id)
  | enqueued | completed | failed | claimed => simp

theorem expiredIds_expired (hlog : s'.log = s.log ++ [.expired id]) :
    s'.expiredIds = s.expiredIds ++ [id] := by
  unfold expiredIds
  rw [hlog, filterMap_append]
  rfl

theorem Written.sound (h : Written now r row e) (hr : Sound r) : Sound row := by
  cases h with
  | exhausted => exact ⟨hr.attempts, nofun, fun _ => ⟨rfl, rfl, rfl⟩⟩
  | claimed _ _ _ _ left =>
    exact ⟨Int.add_one_le_of_lt left, fun _ => ⟨rfl, rfl, rfl⟩, fun h => absurd rfl h⟩
  | completed => exact ⟨hr.attempts, nofun, fun _ => ⟨rfl, rfl, rfl⟩⟩
  | failed _ error retryDelaySeconds =>
    unfold PlatformCommand.failedWith
    split <;> [split_ifs; skip] <;> exact ⟨hr.attempts, nofun, fun _ => ⟨rfl, rfl, rfl⟩⟩

/-- A row is written with a claim only when it is claimed, and that is logged. -/
theorem Written.claimed_of_processing (h : Written now r row e) (hrow : row.status = .processing) :
    ∃ token expiresAt, row.claimToken = some token ∧ row.claimExpiresAt = some expiresAt
      ∧ e = .claimed row.id token expiresAt := by
  cases h with
  | exhausted | completed => cases hrow
  | claimed _ token leaseSeconds => exact ⟨token, _, rfl, rfl, rfl⟩
  | failed _ error retryDelaySeconds =>
    unfold PlatformCommand.failedWith at hrow
    split at hrow
    · split_ifs at hrow
    · cases hrow

theorem Written.eq_of_claimed (h : Written now r row (.claimed id token expiresAt)) :
    id = r.id := by
  cases h
  rfl

theorem Written.failed_of_expired (h : Written now r row (.expired id)) :
    id = r.id ∧ row.status = .failed := by
  cases h
  exact ⟨rfl, rfl⟩

theorem Written.ne_enqueued (h : Written now r row (.enqueued ownerId key id)) : False := by
  cases h

/-- A command that is logged is found in a later state. -/
theorem Inv.enqueued_since (h : Inv s) (hs : Since s s') (he : .enqueued ownerId key id ∈ s.log) :
    ∃ r, s'.commands.find? id = some r ∧ r.ownerId = ownerId ∧ r.idempotencyKey = key := by
  obtain ⟨r, hr, howner, hkey⟩ := h.enqueued _ _ _ he
  obtain ⟨r', hr', hl⟩ := hs.row _ r hr
  exact ⟨r', hr', hl.owner.trans howner, hl.key.trans hkey⟩

theorem Inv.ended_since (h : Inv s) (hs : Since s s') (hid : id ∈ s.expiredIds) :
    ∃ r, s'.commands.find? id = some r ∧ r.status = .failed := by
  obtain ⟨r, hr, hfailed⟩ := h.ended id hid
  obtain ⟨r', hr', hl⟩ := hs.row _ r hr
  exact ⟨r', hr', by rw [hl.final (by rw [hfailed]; rfl), hfailed]⟩

theorem Inv.told (h : Inv s) (found : s.commands.find? r.id = some r)
    (hcommands : s'.commands = s.commands)
    (hlog : s'.log = s.log ++ [.enqueued r.ownerId r.idempotencyKey r.id])
    (hpending : ∀ p ∈ s'.inserting, 1 ≤ p.1.maxAttempts) : Inv s' := by
  have hexpired : s'.expiredIds = s.expiredIds := expiredIds_other hlog (fun _ he => by cases he)
  refine ⟨hpending, hcommands ▸ h.sound, fun a ha hp => ?_, hcommands ▸ h.unique, ?_,
    hexpired ▸ h.expired, fun id hid => ?_⟩
  · obtain ⟨t, x, ht, hx, hlast⟩ := h.latest a (hcommands ▸ ha) hp
    exact ⟨t, x, ht, hx, (latestClaim_other hlog (fun _ _ he => by cases he)).trans hlast⟩
  · intro o k id he
    rw [hcommands]
    rcases mem_append.mp (hlog ▸ he) with he | he
    · exact h.enqueued o k id he
    · cases mem_singleton.mp he
      exact ⟨r, found, rfl, rfl⟩
  · rw [hcommands]
    exact h.ended id (hexpired ▸ hid)

theorem Inv.insert (h : Inv s) {c : CommandCall P} {at_ : ℤ} (attempts : 1 ≤ c.maxAttempts)
    (unknown : findIdempotent s.commands c.ownerId c.idempotencyKey = none)
    (unused : s.commands.find? id = none)
    (hcommands : s'.commands = s.commands.insertOnce (c.row id at_))
    (hlog : s'.log = s.log ++ [.enqueued c.ownerId c.idempotencyKey id])
    (hpending : ∀ p ∈ s'.inserting, 1 ≤ p.1.maxAttempts) (hsince : Since s s') : Inv s' := by
  have hexpired : s'.expiredIds = s.expiredIds := expiredIds_other hlog (fun _ he => by cases he)
  have hrows : ∀ a, a ∈ s'.commands.rows ↔ a ∈ s.commands.rows ∨ a = c.row id at_ := fun a => by
    rw [hcommands]
    exact mem_rows_insertOnce (r := c.row id at_) unused
  have hnobody : ∀ a ∈ s.commands.rows, a.ownerId = c.ownerId →
      a.idempotencyKey = c.idempotencyKey → False := by
    intro a ha howner hkey
    simpa [howner, hkey] using List.find?_eq_none.mp unknown a ha
  refine ⟨hpending, fun a ha => ?_, fun a ha hp => ?_, fun a ha b hb howner hkey => ?_, ?_,
    hexpired ▸ h.expired, fun i hi => h.ended_since hsince (hexpired ▸ hi)⟩
  · rcases (hrows a).mp ha with ha | rfl
    · exact h.sound a ha
    · exact ⟨(zero_le_one.trans attempts : (0 : ℤ) ≤ c.maxAttempts), nofun,
        fun _ => ⟨rfl, rfl, rfl⟩⟩
  · rcases (hrows a).mp ha with ha | rfl
    · obtain ⟨t, x, ht, hx, hlast⟩ := h.latest a ha hp
      exact ⟨t, x, ht, hx, (latestClaim_other hlog (fun _ _ he => by cases he)).trans hlast⟩
    · cases hp
  · rcases (hrows a).mp ha with ha | rfl <;> rcases (hrows b).mp hb with hb | rfl
    · exact h.unique a ha b hb howner hkey
    · exact (hnobody a ha howner hkey).elim
    · exact (hnobody b hb howner.symm hkey.symm).elim
    · rfl
  · intro o k i he
    rcases mem_append.mp (hlog ▸ he) with he | he
    · exact h.enqueued_since hsince he
    · cases mem_singleton.mp he
      refine ⟨c.row id at_, ?_, rfl, rfl⟩
      rw [hcommands]
      exact find?_insertOnce_self (r := c.row id at_) unused

theorem Inv.write (h : Inv s) (found : s.commands.find? r.id = some r)
    (written : Written s'.now r row e) (hcommands : s'.commands = s.commands.replace row)
    (hlog : s'.log = s.log ++ [e]) (hpending : ∀ p ∈ s'.inserting, 1 ≤ p.1.maxAttempts)
    (hsince : Since s s') : Inv s' := by
  have hr : r ∈ s.commands.rows := mem_of_find? found
  have hfound : s.commands.find? row.id = some r := written.id_eq.symm ▸ found
  have hrow : s'.commands.find? r.id = some row := by
    rw [hcommands, ← written.id_eq]
    exact find?_replace_self hfound
  have hrows : ∀ a, a ∈ s'.commands.rows ↔ a = row ∨ (a ∈ s.commands.rows ∧ a.id ≠ r.id) := by
    intro a
    rw [hcommands, mem_rows_replace hfound, written.id_eq]
  -- whose command it is stays, so two rows with one key are still the same
  have hother : ∀ a ∈ s.commands.rows, a.id ≠ r.id → row.ownerId = a.ownerId →
      row.idempotencyKey = a.idempotencyKey → False := by
    intro a ha hne howner hkey
    have hl := written.later
    exact hne (congrArg _ (h.unique a ha r hr (howner.symm.trans hl.owner)
      (hkey.symm.trans hl.key)))
  refine ⟨hpending, fun a ha => ?_, fun a ha hp => ?_, fun a ha b hb howner hkey => ?_, ?_, ?_, ?_⟩
  · rcases (hrows a).mp ha with rfl | ⟨ha, _⟩
    · exact written.sound (h.sound r hr)
    · exact h.sound a ha
  · rcases (hrows a).mp ha with rfl | ⟨ha, hne⟩
    · obtain ⟨t, x, ht, hx, rfl⟩ := written.claimed_of_processing hp
      exact ⟨t, x, ht, hx, latestClaim_claimed hlog⟩
    · obtain ⟨t, x, ht, hx, hlast⟩ := h.latest a ha hp
      refine ⟨t, x, ht, hx, (latestClaim_other hlog (fun _ _ he => ?_)).trans hlast⟩
      subst he
      exact hne written.eq_of_claimed
  · rcases (hrows a).mp ha with rfl | ⟨ha, hne⟩ <;> rcases (hrows b).mp hb with rfl | ⟨hb, hne'⟩
    · rfl
    · exact (hother b hb hne' howner hkey).elim
    · exact (hother a ha hne howner.symm hkey.symm).elim
    · exact h.unique a ha b hb howner hkey
  · intro o k i he
    rcases mem_append.mp (hlog ▸ he) with he | he
    · exact h.enqueued_since hsince he
    · cases mem_singleton.mp he
      exact written.ne_enqueued.elim
  · by_cases he : ∃ id, e = .expired id
    · -- a command that a round ended before is final, and not written again
      obtain ⟨id, rfl⟩ := he
      obtain ⟨rfl, _⟩ := written.failed_of_expired
      rw [expiredIds_expired hlog]
      refine nodup_append.mpr ⟨h.expired, nodup_singleton _, fun i hi j hj hij => ?_⟩
      obtain rfl : j = r.id := mem_singleton.mp hj
      obtain ⟨p, hp, hfailed⟩ := h.ended i hi
      obtain rfl : r = p := some.inj (found.symm.trans (hij ▸ hp))
      have hopen := written.unfinished
      rw [hfailed] at hopen
      cases hopen
    · rw [expiredIds_other hlog (fun id hid => he ⟨id, hid⟩)]
      exact h.expired
  · intro id hid
    by_cases he : ∃ i, e = .expired i
    · obtain ⟨i, rfl⟩ := he
      obtain ⟨rfl, hfailed⟩ := written.failed_of_expired
      rw [expiredIds_expired hlog] at hid
      rcases mem_append.mp hid with hid | hid
      · exact h.ended_since hsince hid
      · obtain rfl : id = r.id := mem_singleton.mp hid
        exact ⟨row, hrow, hfailed⟩
    · rw [expiredIds_other hlog (fun id hid => he ⟨id, hid⟩)] at hid
      exact h.ended_since hsince hid

/-- **A step keeps the invariant.** -/
theorem Inv.step (h : Inv s) (l : Label P R) : Inv (s.step l) := by
  obtain ⟨hw, hpending⟩ := step_spec s h.pending l
  have hsince := hw.since
  cases hw with
  | quiet hcommands hlog =>
    have hlatest : ∀ id, (s.step l).latestClaim id = s.latestClaim id := fun id => by
      unfold latestClaim
      rw [hlog]
    have hexpired : (s.step l).expiredIds = s.expiredIds := by
      unfold expiredIds
      rw [hlog]
    refine ⟨hpending, hcommands ▸ h.sound, fun a ha hp => ?_, hcommands ▸ h.unique, ?_,
      hexpired ▸ h.expired, ?_⟩
    · obtain ⟨t, x, ht, hx, hlast⟩ := h.latest a (hcommands ▸ ha) hp
      exact ⟨t, x, ht, hx, (hlatest a.id).trans hlast⟩
    · rw [hcommands, hlog]
      exact h.enqueued
    · rw [hcommands, hexpired]
      exact h.ended
  | told r found hcommands hlog => exact h.told found hcommands hlog hpending
  | insert c id at_ attempts unknown unused hcommands hlog =>
    exact h.insert attempts unknown unused hcommands hlog hpending hsince
  | write r row e found written hcommands hlog =>
    exact h.write found written hcommands hlog hpending hsince

variable (now)

theorem inv_init : Inv (init now : CommandQueue P R) where
  pending _ h := by cases h
  sound _ h := by cases h
  latest _ h := by cases h
  unique _ h := by cases h
  enqueued _ _ _ h := by cases h
  expired := nodup_nil
  ended _ h := by cases h

theorem inv_after (ls : List (Label P R)) : Inv (after now ls) :=
  inv_run Inv (fun _ l h => h.step l) (inv_init now) ls

theorem since_after (ls ls' : List (Label P R)) : Since (after now ls) (after now (ls ++ ls')) := by
  unfold after
  rw [run_append]
  exact rel_run Inv Since (fun _ l h => h.step l) Since.refl (fun _ _ _ => Since.trans)
    (fun s l h => (step_spec s h.pending l).1.since) (inv_after now ls) ls'

/-! ## The loop of `claim_next` -/

/-- The commands that are being processed. -/
def processing (commands : PlatformCommands P R) : List (PlatformCommand P R) :=
  commands.rows.filter (·.status = .processing)

/-- A round that goes around leaves one command less to process. -/
theorem length_processing_replace (found : commands.find? r.id = some r)
    (hprocessing : r.status = .processing) (lockedAt : ℤ) : (processing commands).length
      = (processing (commands.replace (r.exhausted lockedAt))).length + 1 := by
  have hlength : ∀ t : PlatformCommands P R,
      t.sumOf (·.status = .processing) (fun _ => (1 : ℤ)) = (processing t).length := by
    intro t
    unfold Table.sumOf processing
    simp
  have hsum := sumOf_replace (s := r.exhausted lockedAt) found (·.status = .processing)
    (fun _ => (1 : ℤ))
  have hfailed : ¬ (r.exhausted lockedAt).status = .processing := nofun
  rw [hlength, hlength, if_pos hprocessing, if_neg hfailed] at hsum
  omega

/-- **The loop of `claim_next` ends**: a call goes around at most once for each
command that is being processed. -/
theorem claimNext_isSome (c : ClaimNextCall) (rounds : List ClaimRound)
    (commands : PlatformCommands P R) (h : (processing commands).length < rounds.length) :
    (claimNext c rounds commands).isSome := by
  induction rounds generalizing commands with
  | nil => cases h
  | cons round rounds ih =>
    unfold claimNext
    rcases claimRound_cases c round commands with
      hround | ⟨r, found, ⟨hprocessing, _, hround⟩ | ⟨_, _, hround⟩⟩
    · rw [hround]
      rfl
    · rw [hround]
      refine ih _ ?_
      have hless := length_processing_replace found hprocessing round.lockedAt
      rw [length_cons] at h
      omega
    · rw [hround]
      rfl

/-- The rounds that went around are no more than the commands. -/
theorem Inv.length_expiredIds (h : Inv s) : s.expiredIds.length ≤ s.commands.rows.length := by
  have hsub : s.expiredIds ⊆ s.commands.rows.map PlatformCommand.id := by
    intro id hid
    obtain ⟨r, hr, _⟩ := h.ended id hid
    exact mem_map.mpr ⟨r, mem_of_find? hr, key_of_find? hr⟩
  exact (h.expired.subperm hsub).length_le.trans_eq (length_map _)

/-- The holder of an active claim shows the latest one, before it expires. -/
theorem Inv.latestClaim_of_active (h : Inv s) (hr : requireActiveClaim c s.now s.commands = .ok r) :
    ∃ expiresAt, s.latestClaim c.commandId = some (c.claimToken, expiresAt)
      ∧ s.now < expiresAt := by
  obtain ⟨hfound, hprocessing, htoken, t, ht, hlt⟩ := requireActiveClaim_eq_ok hr
  obtain ⟨token, expiresAt, htoken', hexpires, hlast⟩ :=
    h.latest r (mem_of_find? hfound) hprocessing
  obtain rfl : token = c.claimToken := some.inj (htoken'.symm.trans htoken)
  obtain rfl : expiresAt = t := some.inj (hexpires.symm.trans ht)
  have hid : r.id = c.commandId := key_of_find? hfound
  exact ⟨expiresAt, hid ▸ hlast, hlt⟩

/-- **The command queue.** In every run: a command is completed, and failed, only
by the token of its latest claim and before that expires; every row is sound;
what is succeeded or failed stays as it is; the calls of `claim_next` go around
no more often than there are commands, and each returns; and the enqueues of an
owner with one key are told of one command, which is there. -/
theorem command_queue (now : ℤ) (ls ls' : List (Label P R)) : (∀ c result out,
      completeCommand c result (after now ls).now (after now ls).commands = .ok out →
      ∃ expiresAt, (after now ls).latestClaim c.commandId = some (c.claimToken, expiresAt)
        ∧ (after now ls).now < expiresAt)
    ∧ (∀ c error delay out,
      failCommand c error delay (after now ls).now (after now ls).commands = .ok out →
      ∃ expiresAt, (after now ls).latestClaim c.commandId = some (c.claimToken, expiresAt)
        ∧ (after now ls).now < expiresAt)
    ∧ (∀ r ∈ (after now ls).commands.rows, Sound r)
    ∧ (∀ id r, (after now ls).commands.find? id = some r →
      r.status = .succeeded ∨ r.status = .failed →
      (after now (ls ++ ls')).commands.find? id = some r)
    ∧ (after now ls).expiredIds.length ≤ (after now ls).commands.rows.length
    ∧ (∀ c rounds, (processing (after now ls).commands).length < rounds.length →
      (claimNext c rounds (after now ls).commands).isSome)
    ∧ ∀ ownerId key id, .enqueued ownerId key id ∈ (after now ls).log →
      (∃ r, (after now ls).commands.find? id = some r)
      ∧ ∀ id', .enqueued ownerId key id' ∈ (after now (ls ++ ls')).log → id' = id := by
  have hinv := inv_after now ls
  have hsince := since_after now ls ls'
  refine ⟨fun c result out h => ?_, fun c error delay out h => ?_, hinv.sound,
    fun id r hr hfinal => ?_, hinv.length_expiredIds, fun c rounds => claimNext_isSome c rounds _,
    fun ownerId key id he => ⟨?_, fun id' he' => ?_⟩⟩
  · obtain ⟨r, hr, _⟩ := completeCommand_eq_ok h
    exact hinv.latestClaim_of_active hr
  · obtain ⟨r, hr, _⟩ := failCommand_eq_ok h
    exact hinv.latestClaim_of_active hr
  · obtain ⟨r', hr', hl⟩ := hsince.row id r hr
    have hsame : r' = r := hl.final (by rcases hfinal with h | h <;> rw [h] <;> rfl)
    exact hsame ▸ hr'
  · obtain ⟨r, hr, _⟩ := hinv.enqueued _ _ _ he
    exact ⟨r, hr⟩
  · have hinv' := inv_after now (ls ++ ls')
    obtain ⟨r, hr, howner, hkey⟩ := hinv'.enqueued _ _ _ (hsince.log.subset he)
    obtain ⟨r', hr', howner', hkey'⟩ := hinv'.enqueued _ _ _ he'
    have hsame : r' = r := hinv'.unique r' (mem_of_find? hr') r (mem_of_find? hr)
      (howner'.trans howner.symm) (hkey'.trans hkey.symm)
    calc id' = r'.id := (key_of_find? hr').symm
      _ = r.id := congrArg _ hsame
      _ = id := key_of_find? hr

end CommandQueue

end Qt
