import PacketFence.Foundations.Machine

/-!
# The read-write lock with timeouts

A channel of one token is the lock, and every reader has one of the tokens of a second
channel. A writer keeps the token of the lock and waits until all tokens for readers are
back. A reader takes the token of the lock only to fetch its own one.

Goroutines take their steps in any order. A step is one operation on the mutex, on a
channel or on the counter. A timer may fire whenever it is looked at.
-/

namespace PacketFence.TimedLock

open Foundations

def maxRLock : Nat := 1000

/-! ### The shared lock -/

structure RWLock where
  internalLock : Bool
  /-- the tokens in `lockChan`, which has room for one -/
  lockChan : Nat
  /-- the tokens in `rlockChan`, which has room for `maxRLock` -/
  rlockChan : Nat
  c : UInt64

def newRWLock : RWLock where
  internalLock := false
  lockChan := 1
  rlockChan := maxRLock
  c := 1

/-- The counter after `getNextId`, which is the id. -/
def nextId (c : UInt64) : UInt64 :=
  -- 0 isn't an acceptable ID
  if c + 1 = 0 then c + 1 + 1 else c + 1

namespace RWLock

variable (lock : RWLock)

/-- `internalLock.Lock()`, which waits until the mutex is free. -/
def lockMutex? : Option RWLock :=
  if lock.internalLock then none else some { lock with internalLock := true }

def unlockMutex : RWLock := { lock with internalLock := false }

def receiveLock? : Option RWLock :=
  if 0 < lock.lockChan then some { lock with lockChan := lock.lockChan - 1 } else none

def sendLock? : Option RWLock :=
  if lock.lockChan < 1 then some { lock with lockChan := lock.lockChan + 1 } else none

def receiveRLock? : Option RWLock :=
  if 0 < lock.rlockChan then some { lock with rlockChan := lock.rlockChan - 1 } else none

def sendRLock? : Option RWLock :=
  if lock.rlockChan < maxRLock then some { lock with rlockChan := lock.rlockChan + 1 } else none

end RWLock

/-! ### Goroutines -/

inductive Mode
  | write
  | read
  deriving DecidableEq

/-- A lock that a goroutine got, with the id for its release. -/
structure Granted where
  mode : Mode
  id : UInt64

/-- What a call of `Lock` or `RLock` returned, and how many tokens of each channel it took
and did not give back. -/
structure Outcome where
  mode : Mode
  id : UInt64
  timedOut : Bool
  lockTokens : Int
  rlockTokens : Int
  deriving DecidableEq

inductive NextIdPoint
  | mutex
  | count
  | release (id : UInt64)

inductive LockPoint
  | select (id : UInt64)
  -- `time.Now().Before(stopAt)`
  | loop (id : UInt64)
  | mutex (id : UInt64)
  | test (id : UInt64)
  | granted (id : UInt64)
  | refused (id : UInt64)
  | giveBack

inductive RLockPoint
  | select (id : UInt64)
  | mutex (id : UInt64)
  | fetch (id : UInt64)
  | timedOut
  | fetched (id : UInt64)
  | fails
  | returns (id : UInt64)

inductive UnlockPoint
  | mutex
  | test
  | send

inductive Point
  | idle
  | nextId (mode : Mode) (point : NextIdPoint)
  | lock (point : LockPoint)
  | rlock (point : RLockPoint)
  | unlock (granted : Granted) (point : UnlockPoint)
  -- the deferred `internalLock.Unlock()`, after the token was given back or a panic
  | unlocked
  | panicking (message : String)
  | panicked (message : String)

structure Goroutine where
  point : Point
  held : List Granted
  /-- tokens of each channel taken minus given back since the call began -/
  lockTaken : Int
  rlockTaken : Int
  outcomes : List Outcome

namespace Goroutine

variable (goroutine : Goroutine)

def goto (point : Point) : Goroutine :=
  { goroutine with point := point }

def call (point : Point) : Goroutine :=
  { goroutine with point := point, lockTaken := 0, rlockTaken := 0 }

/-- A lock that is given to `Unlock` is not given to it again. -/
def letGo (position : Nat) : Goroutine :=
  { goroutine with held := goroutine.held.eraseIdx position }

def takeLock : Goroutine :=
  { goroutine with lockTaken := goroutine.lockTaken + 1 }

def giveLock : Goroutine :=
  { goroutine with lockTaken := goroutine.lockTaken - 1 }

def takeRLock : Goroutine :=
  { goroutine with rlockTaken := goroutine.rlockTaken + 1 }

def returnTimeout (mode : Mode) : Goroutine :=
  { goroutine with
    point := .idle
    outcomes := ⟨mode, 0, true, goroutine.lockTaken, goroutine.rlockTaken⟩ :: goroutine.outcomes }

def returnId (mode : Mode) (id : UInt64) : Goroutine :=
  { goroutine with
    point := .idle
    held := ⟨mode, id⟩ :: goroutine.held
    outcomes :=
      ⟨mode, id, false, goroutine.lockTaken, goroutine.rlockTaken⟩ :: goroutine.outcomes }

end Goroutine

/-- What a goroutine calls next, and whether a timer has fired when it is looked at. -/
inductive Choice
  | lock
  | rlock
  /-- a lock that the goroutine got is released, with its id -/
  | unlock (position : Nat)
  | proceed
  | timeout

/-- The tests of `Unlock` and `RUnlock`. -/
def panic? (lock : RWLock) (granted : Granted) : Option String :=
  match granted.mode with
  | .write =>
    if lock.lockChan ≠ 0 then some "Unlock of unlocked mutex"
    else if granted.id = 0 then some "Unlocking mutex with ID 0"
    else none
  | .read =>
    if maxRLock ≤ lock.rlockChan then some "RUnlock of unlocked mutex"
    else if granted.id = 0 then some "Unlocking mutex with ID 0"
    else none

def giveBack? (lock : RWLock) (granted : Granted) : Option RWLock :=
  match granted.mode with
  | .write => lock.sendLock?
  | .read => lock.sendRLock?

section Steps

variable (lock : RWLock) (goroutine : Goroutine)

def beginCall : Choice → Option (RWLock × Goroutine)
  | .lock => some (lock, goroutine.call (.nextId .write .mutex))
  | .rlock => some (lock, goroutine.call (.nextId .read .mutex))
  | .unlock position =>
    goroutine.held[position]?.map fun granted =>
      (lock, (goroutine.letGo position).call (.unlock granted .mutex))
  | _ => none

def getNextId (mode : Mode) : NextIdPoint → Choice → Option (RWLock × Goroutine)
  | .mutex, .proceed =>
    lock.lockMutex?.map fun lock => (lock, goroutine.goto (.nextId mode .count))
  | .count, .proceed =>
    let id := nextId lock.c
    some ({ lock with c := id }, goroutine.goto (.nextId mode (.release id)))
  | .release id, .proceed =>
    match mode with
    | .write => some (lock.unlockMutex, goroutine.goto (.lock (.select id)))
    | .read => some (lock.unlockMutex, goroutine.goto (.rlock (.select id)))
  | _, _ => none

def lockStep : LockPoint → Choice → Option (RWLock × Goroutine)
  | .select _, .timeout => some (lock, goroutine.returnTimeout .write)
  | .select id, .proceed =>
    lock.receiveLock?.map fun lock => (lock, goroutine.takeLock.goto (.lock (.loop id)))
  | .loop id, .proceed => some (lock, goroutine.goto (.lock (.mutex id)))
  | .loop _, .timeout => some (lock, goroutine.goto (.lock .giveBack))
  | .mutex id, .proceed =>
    lock.lockMutex?.map fun lock => (lock, goroutine.goto (.lock (.test id)))
  | .test id, .proceed =>
    if lock.rlockChan = maxRLock then some (lock, goroutine.goto (.lock (.granted id)))
    else some (lock, goroutine.goto (.lock (.refused id)))
  | .granted id, .proceed => some (lock.unlockMutex, goroutine.returnId .write id)
  | .refused id, .proceed => some (lock.unlockMutex, goroutine.goto (.lock (.loop id)))
  | .giveBack, .proceed =>
    lock.sendLock?.map fun lock => (lock, goroutine.giveLock.returnTimeout .write)
  | _, _ => none

def rlockStep : RLockPoint → Choice → Option (RWLock × Goroutine)
  | .select _, .timeout => some (lock, goroutine.returnTimeout .read)
  | .select id, .proceed =>
    lock.receiveLock?.map fun lock => (lock, goroutine.takeLock.goto (.rlock (.mutex id)))
  | .mutex id, .proceed =>
    lock.lockMutex?.map fun lock => (lock, goroutine.goto (.rlock (.fetch id)))
  | .fetch _, .timeout => some (lock, goroutine.goto (.rlock .timedOut))
  | .fetch id, .proceed =>
    lock.receiveRLock?.map fun lock => (lock, goroutine.takeRLock.goto (.rlock (.fetched id)))
  | .timedOut, .proceed =>
    lock.sendLock?.map fun lock => (lock, goroutine.giveLock.goto (.rlock .fails))
  | .fetched id, .proceed =>
    lock.sendLock?.map fun lock => (lock, goroutine.giveLock.goto (.rlock (.returns id)))
  | .fails, .proceed => some (lock.unlockMutex, goroutine.returnTimeout .read)
  | .returns id, .proceed => some (lock.unlockMutex, goroutine.returnId .read id)
  | _, _ => none

/-- `Unlock` or `RUnlock`, whose first test is whether the token is there already. -/
def unlockStep (granted : Granted) : UnlockPoint → Choice → Option (RWLock × Goroutine)
  | .mutex, .proceed =>
    lock.lockMutex?.map fun lock => (lock, goroutine.goto (.unlock granted .test))
  | .test, .proceed =>
    match panic? lock granted with
    | some message => some (lock, goroutine.goto (.panicking message))
    | none => some (lock, goroutine.goto (.unlock granted .send))
  | .send, .proceed =>
    (giveBack? lock granted).map fun lock => (lock, goroutine.goto .unlocked)
  | _, _ => none

end Steps

/-- The next step of a goroutine, with `Panic` switched off. -/
def step (choice : Choice) : CallStep RWLock Goroutine := fun lock goroutine =>
  match goroutine.point with
  | .idle => beginCall lock goroutine choice
  | .nextId mode point => getNextId lock goroutine mode point choice
  | .lock point => lockStep lock goroutine point choice
  | .rlock point => rlockStep lock goroutine point choice
  | .unlock granted point => unlockStep lock goroutine granted point choice
  | .unlocked => some (lock.unlockMutex, goroutine.goto .idle)
  | .panicking message => some (lock.unlockMutex, goroutine.goto (.panicked message))
  | .panicked _ => none

abbrev Goroutines := Pool RWLock Goroutine

def idle : Goroutine := ⟨.idle, [], 0, 0, []⟩

def initial (count : Nat) : Goroutines := ⟨newRWLock, List.replicate count idle⟩

def scheduler : Machine Goroutines (Nat × Choice) :=
  ⟨fun goroutines event => goroutines.advance (step event.2) event.1⟩

end PacketFence.TimedLock
