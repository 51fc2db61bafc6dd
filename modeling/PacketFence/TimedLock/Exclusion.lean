import PacketFence.Foundations.TokenLock
import PacketFence.TimedLock.RWLock

/-!
# Exclusion of readers and writers

The calls follow the rules of tokens: a goroutine has a token from the receive operation to
the send operation, whether it holds the lock or its call is still under way. The mutex is
not needed for that. Whether a call is to return an id and which tokens it has is known at
every point of it.
-/

namespace PacketFence.TimedLock

open Foundations TokenLock List Option Goroutine

/-! ### Tokens of a goroutine -/

namespace Point

/-- The token of the lock that a call has taken so far. -/
def lockPhase : Point → Nat
  | .lock (.select _) => 0
  | .lock _ => 1
  | .rlock (.mutex _) | .rlock (.fetch _) | .rlock .timedOut | .rlock (.fetched _) => 1
  | _ => 0

/-- The token for readers that a call has taken so far. -/
def rlockPhase : Point → Nat
  | .rlock (.fetched _) | .rlock (.returns _) => 1
  | _ => 0

/-- A call of `Lock` that has seen all tokens for readers. -/
def grantPhase : Point → Nat
  | .lock (.granted _) => 1
  | _ => 0

def releasing : Point → List Granted
  | .unlock granted _ => [granted]
  | _ => []

theorem grantPhase_le (point : Point) : point.grantPhase ≤ point.lockPhase := by
  cases point with
  | lock point =>
    cases point with
    | granted id => exact Nat.le_refl _
    | _ => exact Nat.zero_le _
  | _ => exact Nat.zero_le _

end Point

def countOf (mode : Mode) (locks : List Granted) : Nat :=
  locks.countP (·.mode = mode)

/-- The tokens of a goroutine: those of the locks that it holds, and what its call has. -/
def tokensOf (point : Point) (held : List Granted) : Tokens where
  lock := countOf .write (point.releasing ++ held) + point.lockPhase
  rlock := countOf .read (point.releasing ++ held) + point.rlockPhase
  granted := countOf .write (point.releasing ++ held) + point.grantPhase
  backed := Nat.add_le_add_left point.grantPhase_le _

def Goroutine.tokens (goroutine : Goroutine) : Tokens :=
  tokensOf goroutine.point goroutine.held

def RWLock.channels (lock : RWLock) : Channels := ⟨lock.lockChan, lock.rlockChan⟩

/-! ### Ids and outcomes -/

/-- What a call has at a point: an id, and tokens of both channels. -/
def Point.Sound (lockTaken rlockTaken : Int) : Point → Prop
  | .idle | .unlocked => True
  | .nextId _ (.release id) => id ≠ 0 ∧ lockTaken = 0 ∧ rlockTaken = 0
  | .nextId _ _ => lockTaken = 0 ∧ rlockTaken = 0
  | .lock (.select id) => id ≠ 0 ∧ lockTaken = 0 ∧ rlockTaken = 0
  | .lock .giveBack => lockTaken = 1 ∧ rlockTaken = 0
  | .lock (.loop id) | .lock (.mutex id) | .lock (.test id) | .lock (.granted id)
  | .lock (.refused id) => id ≠ 0 ∧ lockTaken = 1 ∧ rlockTaken = 0
  | .rlock (.select id) => id ≠ 0 ∧ lockTaken = 0 ∧ rlockTaken = 0
  | .rlock (.mutex id) | .rlock (.fetch id) => id ≠ 0 ∧ lockTaken = 1 ∧ rlockTaken = 0
  | .rlock .timedOut => lockTaken = 1 ∧ rlockTaken = 0
  | .rlock (.fetched id) => id ≠ 0 ∧ lockTaken = 1 ∧ rlockTaken = 1
  | .rlock .fails => lockTaken = 0 ∧ rlockTaken = 0
  | .rlock (.returns id) => id ≠ 0 ∧ lockTaken = 0 ∧ rlockTaken = 1
  | .unlock granted _ => granted.id ≠ 0
  | .panicking _ | .panicked _ => False

/-- A call that has timed out returns 0 and has given back what it took; any other call
returns an id, and has one token more. -/
def Outcome.Sound (outcome : Outcome) : Prop :=
  if outcome.timedOut then
    outcome.id = 0 ∧ outcome.lockTokens = 0 ∧ outcome.rlockTokens = 0
  else
    outcome.id ≠ 0 ∧ outcome.lockTokens = (if outcome.mode = .write then 1 else 0) ∧
      outcome.rlockTokens = if outcome.mode = .read then 1 else 0

structure Settled (held : List Granted) (outcomes : List Outcome) : Prop where
  held : ∀ granted ∈ held, granted.id ≠ 0
  outcomes : ∀ outcome ∈ outcomes, outcome.Sound

structure Goroutine.Sound (goroutine : Goroutine) : Prop where
  point : goroutine.point.Sound goroutine.lockTaken goroutine.rlockTaken
  settled : Settled goroutine.held goroutine.outcomes

structure Progress (lock : RWLock) (point : Point) (held : List Granted) (lock' : RWLock)
    (goroutine' : Goroutine) : Prop where
  moves : Moves maxRLock lock.channels (tokensOf point held) lock'.channels goroutine'.tokens
  sound : goroutine'.Sound

theorem nextId_ne_zero (c : UInt64) : nextId c ≠ 0 := by
  unfold nextId
  split
  next wrapped =>
    rw [wrapped]
    decide
  next counted => exact counted

section Steps

variable {lock lock' : RWLock} {goroutine goroutine' : Goroutine} {choice : Choice} {mode : Mode}
  {id : UInt64} {granted : Granted}

theorem countOf_cons_self (mode : Mode) (id : UInt64) (locks : List Granted) :
    countOf mode (⟨mode, id⟩ :: locks) = countOf mode locks + 1 :=
  countP_cons_of_pos (decide_eq_true rfl)

theorem countOf_write_cons (id : UInt64) (locks : List Granted) :
    countOf .read (⟨.write, id⟩ :: locks) = countOf .read locks :=
  countP_cons_of_neg Bool.false_ne_true

theorem countOf_read_cons (id : UInt64) (locks : List Granted) :
    countOf .write (⟨.read, id⟩ :: locks) = countOf .write locks :=
  countP_cons_of_neg Bool.false_ne_true

theorem lockTaken_takeLock (none : goroutine.lockTaken = 0) : goroutine.takeLock.lockTaken = 1 :=
  congrArg (· + 1) none

theorem lockTaken_giveLock (one : goroutine.lockTaken = 1) : goroutine.giveLock.lockTaken = 0 :=
  congrArg (· - 1) one

theorem rlockTaken_takeRLock (none : goroutine.rlockTaken = 0) :
    goroutine.takeRLock.rlockTaken = 1 := congrArg (· + 1) none

theorem channels_of_lockMutex? (locked : lock.lockMutex? = some lock') :
    lock'.channels = lock.channels := by
  obtain ⟨-, same⟩ := ite_none_left_eq_some.mp locked
  cases same
  rfl

theorem channels_of_receiveLock? (received : lock.receiveLock? = some lock') :
    lock.channels.lock = lock'.channels.lock + 1 ∧ lock'.channels.rlock = lock.channels.rlock := by
  obtain ⟨positive, same⟩ := ite_none_right_eq_some.mp received
  cases same
  exact ⟨(Nat.sub_add_cancel positive).symm, rfl⟩

theorem channels_of_sendLock? (sent : lock.sendLock? = some lock') :
    lock'.channels.lock = lock.channels.lock + 1 ∧ lock'.channels.rlock = lock.channels.rlock := by
  obtain ⟨-, same⟩ := ite_none_right_eq_some.mp sent
  cases same
  exact ⟨rfl, rfl⟩

theorem channels_of_receiveRLock? (received : lock.receiveRLock? = some lock') :
    lock'.channels.lock = lock.channels.lock ∧ lock.channels.rlock = lock'.channels.rlock + 1 := by
  obtain ⟨positive, same⟩ := ite_none_right_eq_some.mp received
  cases same
  exact ⟨rfl, (Nat.sub_add_cancel positive).symm⟩

theorem channels_of_sendRLock? (sent : lock.sendRLock? = some lock') :
    lock'.channels.lock = lock.channels.lock ∧ lock'.channels.rlock = lock.channels.rlock + 1 := by
  obtain ⟨-, same⟩ := ite_none_right_eq_some.mp sent
  cases same
  exact ⟨rfl, rfl⟩

theorem of_map {operation : Option RWLock}
    (moved : (operation.map fun lock => (lock, goroutine)) = some (lock', goroutine')) :
    operation = some lock' ∧ goroutine' = goroutine := by
  obtain ⟨_, ran, same⟩ := map_eq_some_iff.mp moved
  cases same
  exact ⟨ran, rfl⟩

variable {held : List Granted} {point : UnlockPoint}

theorem moves_of_giveBack? (given : giveBack? lock granted = some lock') :
    Moves maxRLock lock.channels (tokensOf (.unlock granted point) held) lock'.channels
      (tokensOf .unlocked held) := by
  obtain ⟨mode, id⟩ := granted
  cases mode with
  | write =>
    obtain ⟨given, others⟩ := channels_of_sendLock? given
    have fewer := countOf_cons_self .write id held
    exact .giveLock given others fewer (countOf_write_cons id held).symm
      ((Nat.le_succ _).trans fewer.ge)
  | read =>
    obtain ⟨others, given⟩ := channels_of_sendRLock? given
    have writes := (countOf_read_cons id held).symm
    have fewer := countOf_cons_self .read id held
    exact .giveRLock others given writes fewer writes

/-- A goroutine that has the token for what it releases does not meet that token in its
channel. -/
theorem panic?_eq_none (valid : granted.id ≠ 0)
    (lockFree : lock.channels.lock + (tokensOf (.unlock granted point) held).lock ≤ 1)
    (rlockFree : lock.channels.rlock + (tokensOf (.unlock granted point) held).rlock ≤ maxRLock) :
    panic? lock granted = none := by
  obtain ⟨mode, id⟩ := granted
  cases mode with
  | write =>
    have one : (tokensOf (.unlock ⟨.write, id⟩ point) held).lock = countOf .write held + 1 :=
      countOf_cons_self .write id held
    have empty : lock.lockChan = 0 := by
      change lock.lockChan + _ ≤ 1 at lockFree
      omega
    simp [panic?, empty, valid]
  | read =>
    have one : (tokensOf (.unlock ⟨.read, id⟩ point) held).rlock = countOf .read held + 1 :=
      countOf_cons_self .read id held
    have room : ¬ maxRLock ≤ lock.rlockChan := by
      change lock.rlockChan + _ ≤ maxRLock at rlockFree
      omega
    simp [panic?, room, valid]

variable (settled : Settled goroutine.held goroutine.outcomes)
include settled

theorem settled_returnTimeout (lockTaken : goroutine.lockTaken = 0)
    (rlockTaken : goroutine.rlockTaken = 0) : (goroutine.returnTimeout mode).Sound := by
  refine ⟨trivial, settled.held, fun outcome member => ?_⟩
  rcases mem_cons.mp member with rfl | earlier
  · exact ⟨rfl, lockTaken, rlockTaken⟩
  · exact settled.outcomes outcome earlier

theorem settled_returnId (valid : id ≠ 0)
    (lockTaken : goroutine.lockTaken = if mode = .write then 1 else 0)
    (rlockTaken : goroutine.rlockTaken = if mode = .read then 1 else 0) :
    (goroutine.returnId mode id).Sound := by
  refine ⟨trivial, fun granted member => ?_, fun outcome member => ?_⟩
  · rcases mem_cons.mp member with rfl | earlier
    · exact valid
    · exact settled.held granted earlier
  · rcases mem_cons.mp member with rfl | earlier
    · exact ⟨valid, lockTaken, rlockTaken⟩
    · exact settled.outcomes outcome earlier

theorem progress_of_beginCall
    (moved : beginCall lock goroutine choice = some (lock', goroutine')) :
    Progress lock .idle goroutine.held lock' goroutine' := by
  cases choice with
  | lock | rlock =>
    cases moved
    exact ⟨.keep rfl rfl, ⟨rfl, rfl⟩, settled⟩
  | unlock position =>
    obtain ⟨granted, found, same⟩ := map_eq_some_iff.mp moved
    cases same
    obtain ⟨small, rfl⟩ := List.getElem?_eq_some_iff.mp found
    have counts : ∀ mode, countOf mode (goroutine.held[position] ::
        goroutine.held.eraseIdx position) = countOf mode goroutine.held :=
      fun mode => (getElem_cons_eraseIdx_perm small).countP_eq _
    exact ⟨.keep rfl (Tokens.ext (counts .write) (counts .read) (counts .write)),
      settled.held _ (getElem_mem small),
      fun granted member => settled.held granted (mem_of_mem_eraseIdx member), settled.outcomes⟩
  | _ => cases moved

theorem progress_of_getNextId {point : NextIdPoint}
    (sound : (Point.nextId mode point).Sound goroutine.lockTaken goroutine.rlockTaken)
    (moved : getNextId lock goroutine mode point choice = some (lock', goroutine')) :
    Progress lock (.nextId mode point) goroutine.held lock' goroutine' := by
  unfold getNextId at moved
  split at moved
  · obtain ⟨locked, rfl⟩ := of_map moved
    exact ⟨.keep (channels_of_lockMutex? locked) rfl, sound, settled⟩
  · cases moved
    exact ⟨.keep rfl rfl, ⟨nextId_ne_zero _, sound⟩, settled⟩
  · cases mode with
    | write | read =>
      cases moved
      exact ⟨.keep rfl rfl, sound, settled⟩
  · cases moved

theorem progress_of_lockStep {point : LockPoint}
    (sound : (Point.lock point).Sound goroutine.lockTaken goroutine.rlockTaken)
    (moved : lockStep lock goroutine point choice = some (lock', goroutine')) :
    Progress lock (.lock point) goroutine.held lock' goroutine' := by
  cases choice with
  | timeout =>
    cases point with
    | select id =>
      cases moved
      exact ⟨.keep rfl rfl, settled_returnTimeout settled sound.2.1 sound.2.2⟩
    | loop id =>
      cases moved
      exact ⟨.keep rfl rfl, sound.2, settled⟩
    | _ => cases moved
  | proceed =>
    cases point with
    | select id =>
      obtain ⟨received, rfl⟩ := of_map moved
      obtain ⟨taken, others⟩ := channels_of_receiveLock? received
      exact ⟨.takeLock taken others rfl rfl rfl,
        ⟨sound.1, lockTaken_takeLock sound.2.1, sound.2.2⟩, settled⟩
    | loop id | refused id =>
      cases moved
      exact ⟨.keep rfl rfl, sound, settled⟩
    | mutex id =>
      obtain ⟨locked, rfl⟩ := of_map moved
      exact ⟨.keep (channels_of_lockMutex? locked) rfl, sound, settled⟩
    | test id =>
      obtain ⟨full, same⟩ | ⟨_, same⟩ := ite_eq_iff.mp moved
      · cases same
        exact ⟨.grant full rfl rfl rfl, sound, settled⟩
      · cases same
        exact ⟨.keep rfl rfl, sound, settled⟩
    | granted id =>
      cases moved
      have writes := countOf_cons_self .write id goroutine.held
      have reads := countOf_write_cons id goroutine.held
      exact ⟨.keep rfl (Tokens.ext writes reads writes),
        settled_returnId settled sound.1 sound.2.1 sound.2.2⟩
    | giveBack =>
      obtain ⟨sent, rfl⟩ := of_map moved
      obtain ⟨given, others⟩ := channels_of_sendLock? sent
      exact ⟨.giveLock given others rfl rfl (Nat.le_refl _),
        settled_returnTimeout settled (lockTaken_giveLock sound.1) sound.2⟩
  | _ => cases point <;> cases moved

theorem progress_of_rlockStep {point : RLockPoint}
    (sound : (Point.rlock point).Sound goroutine.lockTaken goroutine.rlockTaken)
    (moved : rlockStep lock goroutine point choice = some (lock', goroutine')) :
    Progress lock (.rlock point) goroutine.held lock' goroutine' := by
  cases choice with
  | timeout =>
    cases point with
    | select id =>
      cases moved
      exact ⟨.keep rfl rfl, settled_returnTimeout settled sound.2.1 sound.2.2⟩
    | fetch id =>
      cases moved
      exact ⟨.keep rfl rfl, sound.2, settled⟩
    | _ => cases moved
  | proceed =>
    cases point with
    | select id =>
      obtain ⟨received, rfl⟩ := of_map moved
      obtain ⟨taken, others⟩ := channels_of_receiveLock? received
      exact ⟨.takeLock taken others rfl rfl rfl,
        ⟨sound.1, lockTaken_takeLock sound.2.1, sound.2.2⟩, settled⟩
    | mutex id =>
      obtain ⟨locked, rfl⟩ := of_map moved
      exact ⟨.keep (channels_of_lockMutex? locked) rfl, sound, settled⟩
    | fetch id =>
      -- the call has the token of the lock, and no permission to write
      obtain ⟨received, rfl⟩ := of_map moved
      obtain ⟨others, taken⟩ := channels_of_receiveRLock? received
      exact ⟨.takeRLock (Nat.lt_succ_self _) others taken rfl rfl rfl,
        ⟨sound.1, sound.2.1, rlockTaken_takeRLock sound.2.2⟩, settled⟩
    | timedOut =>
      obtain ⟨sent, rfl⟩ := of_map moved
      obtain ⟨given, others⟩ := channels_of_sendLock? sent
      exact ⟨.giveLock given others rfl rfl (Nat.le_refl _),
        ⟨lockTaken_giveLock sound.1, sound.2⟩, settled⟩
    | fetched id =>
      obtain ⟨sent, rfl⟩ := of_map moved
      obtain ⟨given, others⟩ := channels_of_sendLock? sent
      exact ⟨.giveLock given others rfl rfl (Nat.le_refl _),
        ⟨sound.1, lockTaken_giveLock sound.2.1, sound.2.2⟩, settled⟩
    | fails =>
      cases moved
      exact ⟨.keep rfl rfl, settled_returnTimeout settled sound.1 sound.2⟩
    | returns id =>
      cases moved
      have writes := countOf_read_cons id goroutine.held
      have reads := countOf_cons_self .read id goroutine.held
      exact ⟨.keep rfl (Tokens.ext writes reads writes),
        settled_returnId settled sound.1 sound.2.1 sound.2.2⟩
  | _ => cases point <;> cases moved

theorem progress_of_unlockStep
    (sound : (Point.unlock granted point).Sound goroutine.lockTaken goroutine.rlockTaken)
    (calm : panic? lock granted = none)
    (moved : unlockStep lock goroutine granted point choice = some (lock', goroutine')) :
    Progress lock (.unlock granted point) goroutine.held lock' goroutine' := by
  unfold unlockStep at moved
  split at moved
  · obtain ⟨locked, rfl⟩ := of_map moved
    exact ⟨.keep (channels_of_lockMutex? locked) rfl, sound, settled⟩
  · rw [calm] at moved
    cases moved
    exact ⟨.keep rfl rfl, sound, settled⟩
  · obtain ⟨given, rfl⟩ := of_map moved
    exact ⟨moves_of_giveBack? given, trivial, settled⟩
  · cases moved

omit settled in
theorem progress_of_step (sound : goroutine.Sound)
    (lockFree : lock.channels.lock + goroutine.tokens.lock ≤ 1)
    (rlockFree : lock.channels.rlock + goroutine.tokens.rlock ≤ maxRLock)
    (moved : step choice lock goroutine = some (lock', goroutine')) :
    Progress lock goroutine.point goroutine.held lock' goroutine' := by
  obtain ⟨here, settled⟩ := sound
  unfold tokens at lockFree rlockFree
  unfold step at moved
  cases at_ : goroutine.point with
  | idle =>
    rw [at_] at moved
    exact progress_of_beginCall settled moved
  | nextId mode point =>
    rw [at_] at moved here
    exact progress_of_getNextId settled here moved
  | lock point =>
    rw [at_] at moved here
    exact progress_of_lockStep settled here moved
  | rlock point =>
    rw [at_] at moved here
    exact progress_of_rlockStep settled here moved
  | unlock granted point =>
    rw [at_] at moved here lockFree rlockFree
    exact progress_of_unlockStep settled here (panic?_eq_none here lockFree rlockFree) moved
  | unlocked =>
    rw [at_] at moved
    cases moved
    exact ⟨.keep rfl rfl, trivial, settled⟩
  | panicking message | panicked message =>
    rw [at_] at here
    exact here.elim

end Steps

/-! ### All runs -/

def Goroutine.holds (goroutine : Goroutine) (mode : Mode) : Nat :=
  countOf mode (goroutine.point.releasing ++ goroutine.held)

variable (goroutines : Goroutines)

/-- How many locks of a kind are held, until their token is back in its channel. -/
def holders (mode : Mode) : Nat :=
  (goroutines.places.map (·.holds mode)).sum

structure Safe : Prop where
  exclusive : holders goroutines .write = 0 ∨
    holders goroutines .write = 1 ∧ holders goroutines .read = 0
  outcomes : ∀ goroutine ∈ goroutines.places, ∀ outcome ∈ goroutine.outcomes, outcome.Sound
  tokens : (∀ goroutine ∈ goroutines.places, goroutine.point = .idle) →
    goroutines.shared.lockChan + holders goroutines .write = 1 ∧
      goroutines.shared.rlockChan + holders goroutines .read = maxRLock
  calm : ∀ goroutine ∈ goroutines.places, ∀ message,
    goroutine.point ≠ .panicking message ∧ goroutine.point ≠ .panicked message

structure Invariant : Prop where
  guarded : Guarded maxRLock goroutines.shared.channels (goroutines.places.map tokens)
  sound : ∀ goroutine ∈ goroutines.places, goroutine.Sound

theorem invariant_initial (count : Nat) : Invariant (initial count) := by
  constructor
  · have none : idle.tokens = ⟨0, 0, 0, Nat.le_refl 0⟩ := rfl
    constructor <;> simp [initial, newRWLock, RWLock.channels, none]
  · intro goroutine member
    rw [eq_of_mem_replicate member]
    exact ⟨trivial, nofun, nofun⟩

theorem Invariant.step {goroutines next : Goroutines} {event : Nat × Choice}
    (invariant : Invariant goroutines) (stepped : scheduler.step? goroutines event = some next) :
    Invariant next := by
  obtain ⟨lock, places⟩ := goroutines
  obtain ⟨front, old, back, lock', new, -, rfl, moved, rfl⟩ := Pool.cases_of_advance stepped
  obtain ⟨guarded, sound⟩ := invariant
  obtain ⟨lockFree, rlockFree⟩ := guarded.channels_of_mem
    (mem_map_of_mem (mem_append_right front mem_cons_self))
  have progress := progress_of_step (sound old (by simp)) lockFree rlockFree moved
  constructor
  · rw [map_append, map_cons] at guarded ⊢
    exact guarded.move progress.moves
  · intro goroutine member
    rcases mem_append.mp member with inFront | behind
    · exact sound goroutine (mem_append_left _ inFront)
    · rcases mem_cons.mp behind with rfl | inBack
      · exact progress.sound
      · exact sound goroutine (mem_append_right _ (.tail _ inBack))

theorem Invariant.safe {goroutines : Goroutines} (invariant : Invariant goroutines) :
    Safe goroutines := by
  obtain ⟨guarded, sound⟩ := invariant
  have writes : holders goroutines .write ≤
      ((goroutines.places.map tokens).map Tokens.granted).sum := by
    rw [List.map_map]
    exact sum_le_sum fun goroutine _ => Nat.le_add_right _ _
  have reads : holders goroutines .read ≤
      ((goroutines.places.map tokens).map Tokens.rlock).sum := by
    rw [List.map_map]
    exact sum_le_sum fun goroutine _ => Nat.le_add_right _ _
  refine ⟨?_, fun goroutine member => (sound goroutine member).settled.outcomes, fun idle => ?_,
    fun goroutine member message => ?_⟩
  · have exclusive := guarded.exclusive
    omega
  · have lock : (goroutines.places.map tokens).map Tokens.lock =
        goroutines.places.map (·.holds .write) := by
      rw [List.map_map]
      refine map_congr_left fun goroutine member => ?_
      rw [Function.comp_apply, tokens, holds, idle goroutine member]
      rfl
    have rlock : (goroutines.places.map tokens).map Tokens.rlock =
        goroutines.places.map (·.holds .read) := by
      rw [List.map_map]
      refine map_congr_left fun goroutine member => ?_
      rw [Function.comp_apply, tokens, holds, idle goroutine member]
      rfl
    obtain ⟨locks, rlocks, _⟩ := guarded
    rw [lock] at locks
    rw [rlock] at rlocks
    exact ⟨locks, rlocks⟩
  · have here := (sound goroutine member).point
    constructor
    all_goals
      intro at_
      rw [at_] at here
      exact here

/-- In every run of any number of goroutines, a writer is alone, a call that times out
returns 0 and leaves no trace, and no release of a lock panics. -/
theorem exclusion_of_reaches {count : Nat} {goroutines : Goroutines}
    (reached : scheduler.Reaches Machine.anyEvent (initial count) goroutines) : Safe goroutines :=
  (reached.invariant (invariant_initial count) fun _ _ _ invariant _ stepped =>
    invariant.step stepped).safe

/-- While one goroutine reads, the call of `Lock` of another one times out. -/
theorem exclusion_of_refused_writer :
    ∃ goroutines, scheduler.Reaches Machine.anyEvent (initial 2) goroutines ∧
      holders goroutines .read = 1 ∧
      goroutines.places.map (·.outcomes) = [[⟨.read, 2, false, 0, 1⟩], [⟨.write, 0, true, 0, 0⟩]] ∧
      Safe goroutines := by
  have run : (scheduler.replay? (fun _ _ => true) (initial 2)
      ((0, .rlock) :: List.replicate 8 (0, .proceed) ++ (1, .lock) ::
        (List.replicate 8 (1, .proceed) ++ [(1, .timeout), (1, .proceed)]))).map
      (fun goroutines => (holders goroutines .read, goroutines.places.map (·.outcomes))) =
      some (1, [[⟨.read, 2, false, 0, 1⟩], [⟨.write, 0, true, 0, 0⟩]]) := by decide
  obtain ⟨goroutines, replayed, view⟩ := map_eq_some_iff.mp run
  obtain ⟨reads, outcomes⟩ := Prod.mk.inj view
  have reached := Machine.reaches_anyEvent_of_replay? replayed .refl
  exact ⟨goroutines, reached, reads, outcomes, exclusion_of_reaches reached⟩

end PacketFence.TimedLock
