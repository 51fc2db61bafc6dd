import Mathlib.Data.Char
import Mathlib.Data.List.Lex
import PacketFence.Foundations.KeyedTable
import PacketFence.Foundations.Lexing
import PacketFence.Foundations.Machine
import PacketFence.Foundations.Shelves

/-!
# The task queue

Producers put the ids of tasks into work lists or into sorted sets of delayed
tasks, movers take the ids that are due from a sorted set to its work list, and
consumers pop ids and execute the tasks. Every Redis command, every block of
commands between `MULTI` and `EXEC` and every script is one step, and the steps
of all processes are interleaved.

The body of a task is in a hash under its id, which expires.
-/

namespace PacketFence.Queue

open Foundations Lexing

/-! ### Names -/

def queuePrefix : Text := "Queue:".toList

def delayedPrefix : Text := "Delayed:".toList

def defaultExpiration : Int := 300

/-- The first argument of a task. A reference is written as its address. -/
inductive Element where
  | undefined
  | text (value : Text)
  | hash (address switchIp : Text)

/-- What is read of the arguments of a task. -/
inductive TaskData where
  | array (first : Element)
  | hash (switchId trapIfIndex trapType : Text)
  | other

def Element.interpolated : Element → Text
  | .undefined => []
  | .text value => value
  | .hash address _ => address

/-- `$args->[0]->{switchIp}`, which dies for a string. -/
def Element.switchIp? : Element → Option Text
  | .undefined => some []
  | .text _ => none
  | .hash _ switchIp => some switchIp

def taskCounterId (queue type : Text) (data : TaskData) : Option Text :=
  let counterId := queue ++ ':' :: type
  match data with
  | .array first =>
    if type = "api".toList then
      some (counterId ++ ':' :: first.interpolated)
    else if type = "pfsnmp_parsing".toList then
      first.switchIp?.map fun switchIp => counterId ++ ':' :: switchIp
    else
      some counterId
  | .hash switchId trapIfIndex trapType =>
    if type = "pfsnmp".toList then
      some (counterId ++ ':' :: switchId ++ ':' :: trapIfIndex ++ ':' :: trapType)
    else
      some counterId
  | .other => some counterId

structure Uuid where
  text : Text
  nonempty : text ≠ []
  no_colon : ':' ∉ text

def generateId (uuid : Uuid) (metadata : Text) : Text :=
  "Task:".toList ++ uuid.text ++ ':' :: metadata

/-- The capture of `/^Task:[^:]+:(.*)$/` -/
def getTaskCounterIdFromTaskId? (id : Text) : Option Text :=
  match id.dropPrefix? "Task:".toList with
  | none => none
  | some rest =>
    match rest.takeWhile (· != ':'), rest.dropWhile (· != ':') with
    | _ :: _, _ :: metadata => captureLine? metadata
    | _, _ => none

def getTaskCounterIdFromTaskId (id : Text) : Text :=
  (getTaskCounterIdFromTaskId? id).getD []

/-! ### The server -/

structure TaskHash where
  taskType : Text
  taskData : TaskData
  expire : Int
  tenantId : Nat
  statusUpdate : Bool
  /-- The time in milliseconds at which the hash expires. -/
  deadline : Option Int

structure Delayed where
  set : Text
  score : Int
  member : Text

/-- Adding a member again changes its score. -/
def delayedSchema : Schema Delayed (Text × Text) where
  key := fun row => (row.set, row.member)
  merge := fun old new => { old with score := new.score }
  key_merge := fun _ _ => rfl

/-- The order of a sorted set. -/
def Delayed.before (first second : Delayed) : Prop :=
  first.score < second.score ∨ first.score = second.score ∧ first.member ≤ second.member

instance : DecidableRel Delayed.before := fun first second =>
  inferInstanceAs (Decidable (first.score < second.score ∨
    first.score = second.score ∧ first.member ≤ second.member))

structure Server where
  now : Nat
  hashes : Text → Option TaskHash
  taskCounters : Text → Int
  expiredCounters : Text → Int
  queues : Shelves Text Text
  delayed : Table delayedSchema

def hincrby (counters : Text → Int) (field : Text) (increment : Int) : Text → Int :=
  Function.update counters field (counters field + increment)

namespace Server

variable (server : Server)

/-- `TIME`, as its callers convert it to milliseconds. -/
def timeMilli : Int :=
  (server.now / 1000000 * 1000 + server.now % 1000000 / 1000 : Nat)

/-- The body of a task is written; a hash that is there keeps its deadline. -/
def hmset (id : Text) (hash : TaskHash) : Server :=
  { server with
    hashes := Function.update server.hashes id
      (some { hash with deadline := (server.hashes id).bind (·.deadline) }) }

/-- `EXPIRE` with a time that is not in the future deletes the key. -/
def expire (id : Text) (seconds : Int) : Server :=
  { server with
    hashes := Function.update server.hashes id
      (if 0 < seconds then
        (server.hashes id).map fun hash =>
          { hash with deadline := some (server.timeMilli + seconds * 1000) }
      else
        none) }

def lpush (name : Text) (ids : List Text) : Server :=
  { server with queues := server.queues.put name (ids.reverse ++ server.queues.get name) }

def rpop (name : Text) : Option (Text × Server) :=
  (server.queues.get name).getLast?.map fun id =>
    (id, { server with queues := server.queues.put name (server.queues.get name).dropLast })

/-- `RPOP` of the first list that is not empty. -/
def brpop (names : List Text) : Option (Text × Server) :=
  names.findSome? server.rpop

def zadd (set : Text) (score : Int) (member : Text) : Server :=
  { server with delayed := server.delayed.upsert ⟨set, score, member⟩ }

/-- `ZRANGEBYSCORE set -inf max LIMIT 0 count`, where a negative count is no limit. -/
def zrangebyscore (set : Text) (max count : Int) : List Delayed :=
  server.delayed.select (Scan.inOrder.sortedBy Delayed.before)
    (fun row => row.set = set ∧ row.score ≤ max)
    (if count < 0 then server.delayed.rows.length else count.toNat)

def zrem (set : Text) (members : List Text) : Server :=
  { server with delayed := server.delayed.delete (members.map fun member => (set, member)) }

/-- A key behind its deadline is not found any more. -/
def hgetall (id : Text) : Option TaskHash :=
  (server.hashes id).filter fun hash =>
    hash.deadline.all fun deadline => server.timeMilli ≤ deadline

def del (id : Text) : Server :=
  { server with hashes := Function.update server.hashes id none }

def delayJobsMove (delayZset jobQueue : Text) (timestamp batch : Int) : Server :=
  let taskIds := (server.zrangebyscore delayZset timestamp batch).map (·.member)
  if 0 < taskIds.length then
    (server.lpush jobQueue taskIds).zrem delayZset taskIds
  else
    server

end Server

/-! ### The processes -/

structure Request where
  queue : Text
  taskType : Text
  taskData : TaskData
  expireIn : Option Int
  tenantId : Nat
  statusUpdate : Bool
  uuid : Uuid

namespace Request

variable (request : Request)

def queueName : Text :=
  queuePrefix ++ request.queue

def counterId? : Option Text :=
  taskCounterId request.queueName request.taskType request.taskData

def id (counterId : Text) : Text :=
  generateId request.uuid counterId

def expiration : Int :=
  request.expireIn.getD defaultExpiration

def hash : TaskHash where
  taskType := request.taskType
  taskData := request.taskData
  expire := request.expiration
  tenantId := request.tenantId
  statusUpdate := request.statusUpdate
  deadline := none

end Request

/-- A task that was submitted: the time from which it may be executed, in milliseconds. -/
structure Submission where
  id : Text
  counterId : Text
  due : Int

/-- A call of `submit_delayed` that has read the time. -/
structure Pending where
  request : Request
  delay : Int
  submission : Submission

namespace Server

variable (server : Server)

def submit (request : Request) (submission : Submission) : Server :=
  let server := server.hmset submission.id request.hash
  let server := server.expire submission.id request.expiration
  let server :=
    { server with taskCounters := hincrby server.taskCounters submission.counterId 1 }
  server.lpush request.queueName [submission.id]

def submitDelayed (pending : Pending) : Server :=
  let submission := pending.submission
  let server := server.hmset submission.id pending.request.hash
  let server := server.expire submission.id
    (pending.request.expiration + pending.delay.tdiv 1000)
  let server :=
    { server with taskCounters := hincrby server.taskCounters submission.counterId 1 }
  server.zadd (delayedPrefix ++ pending.request.queue) submission.due submission.id

def transaction (id : Text) : Server × Option TaskHash :=
  ({ server with
      taskCounters := hincrby server.taskCounters (getTaskCounterIdFromTaskId id) (-1) },
    server.hgetall id)

end Server

/-- A call of `process_delayed_jobs` that has read the time. -/
structure Move where
  name : Text
  batch : Int
  time : Int

/-- A call of `process_next_job` that has an id. -/
inductive Work where
  | popped (id : Text)
  | loaded (id : Text) (hash : TaskHash)
  | deleted (id : Text) (hash : TaskHash)
  | missing (id : Text)

namespace Work

def id : Work → Text
  | popped id => id
  | loaded id _ => id
  | deleted id _ => id
  | missing id => id

def isPopped : Work → Bool
  | popped _ => true
  | _ => false

end Work

structure Execution where
  id : Text
  time : Int

abbrev Producer := Nat
abbrev Mover := Nat
abbrev Consumer := Nat

/-- The server, the calls that are under way, and what has happened so far. -/
structure State where
  server : Server
  producers : Shelves Producer Pending
  movers : Shelves Mover Move
  consumers : Shelves Consumer Work
  submitted : List Submission
  taken : List (Consumer × Text)
  takenExpired : List Text
  executed : List Execution
  counted : List Text
  undecoded : List Text

def start (now : Nat) : State where
  server :=
    { now := now
      hashes := fun _ => none
      taskCounters := fun _ => 0
      expiredCounters := fun _ => 0
      queues := .empty
      delayed := .empty delayedSchema }
  producers := .empty
  movers := .empty
  consumers := .empty
  submitted := []
  taken := []
  takenExpired := []
  executed := []
  counted := []
  undecoded := []

inductive Command where
  | transaction
  | decodeFails
  | del
  | doTask
  | countExpired

inductive Event where
  | tick (elapsed : Nat)
  /-- The server removes a hash whose deadline is behind it. -/
  | expire (id : Text)
  | submit (request : Request)
  | readTime (producer : Producer) (request : Request) (delay : Int)
  | submitDelayed (producer : Producer)
  | readMoveTime (mover : Mover) (name : Text) (batch : Int)
  | move (mover : Mover)
  | pop (consumer : Consumer) (queues : List Text)
  | work (consumer : Consumer) (command : Command)

namespace State

variable (state : State) (consumer : Consumer)

/-- A command that brings a call from one stage to the next. -/
def setWork (work : Work) : State :=
  { state with consumers := state.consumers.put consumer [work] }

def finish : State :=
  { state with consumers := state.consumers.put consumer [] }

/-- `RPOP` or `BRPOP`; where nothing is found the call tries again or returns. -/
def pop (queues : List Text) : State :=
  match state.server.brpop queues with
  | none => state
  | some (id, server) =>
    { state.setWork consumer (.popped id) with
      server := server
      taken := (consumer, id) :: state.taken
      takenExpired :=
        if (state.server.hgetall id).isNone then id :: state.takenExpired
        else state.takenExpired }

/-- The stages of a consumer behind its pop. -/
def work? : Command → Work → Option State
  | .transaction, .popped id =>
    let (server, found) := state.server.transaction id
    match found with
    | some hash => some { state.setWork consumer (.loaded id hash) with server := server }
    | none => some { state.setWork consumer (.missing id) with server := server }
  | .decodeFails, .loaded id _ =>
    some { state.finish consumer with undecoded := id :: state.undecoded }
  | .del, .loaded id hash =>
    some { state.setWork consumer (.deleted id hash) with server := state.server.del id }
  | .doTask, .deleted id _ =>
    some { state.finish consumer with
      executed := ⟨id, state.server.timeMilli⟩ :: state.executed }
  | .countExpired, .missing id =>
    some { state.finish consumer with
      server :=
        { state.server with
          expiredCounters :=
            hincrby state.server.expiredCounters (getTaskCounterIdFromTaskId id) 1 }
      counted := id :: state.counted }
  | _, _ => none

def step? (state : State) : Event → Option State
  | .tick elapsed =>
    some { state with server := { state.server with now := state.server.now + elapsed } }
  | .expire id =>
    if (state.server.hgetall id).isNone then
      some { state with server := state.server.del id }
    else
      none
  | .submit request =>
    request.counterId?.map fun counterId =>
      let submission := ⟨request.id counterId, counterId, state.server.timeMilli⟩
      { state with
        server := state.server.submit request submission
        submitted := submission :: state.submitted }
  | .readTime producer request delay =>
    match state.producers.get producer with
    | [] =>
      request.counterId?.map fun counterId =>
        let submission :=
          ⟨request.id counterId, counterId, state.server.timeMilli + delay⟩
        { state with
          producers := state.producers.put producer [⟨request, delay, submission⟩] }
    | _ => none
  | .submitDelayed producer =>
    match state.producers.get producer with
    | [pending] =>
      some { state with
        server := state.server.submitDelayed pending
        producers := state.producers.put producer []
        submitted := pending.submission :: state.submitted }
    | _ => none
  | .readMoveTime mover name batch =>
    match state.movers.get mover with
    | [] =>
      some { state with
        movers := state.movers.put mover [⟨name, batch, state.server.timeMilli⟩] }
    | _ => none
  | .move mover =>
    match state.movers.get mover with
    | [move] =>
      some { state with
        server := state.server.delayJobsMove (delayedPrefix ++ move.name)
          (queuePrefix ++ move.name) move.time move.batch
        movers := state.movers.put mover [] }
    | _ => none
  | .pop consumer queues =>
    match state.consumers.get consumer with
    | [] => some (state.pop consumer queues)
    | _ => none
  | .work consumer command =>
    match state.consumers.get consumer with
    | [work] => state.work? consumer command work
    | _ => none

end State

def machine : Machine State Event where
  step? := State.step?

/-- The ids that are in use, those of calls that have only read the time included. -/
def State.usedIds (state : State) : List Text :=
  state.submitted.map (·.id) ++ state.producers.contents.map (·.submission.id)

/-- Generated ids are unique and contain no line feed. -/
def FreshIds (state : State) : Event → Prop
  | .submit request | .readTime _ request _ =>
    ∀ counterId ∈ request.counterId?,
      request.id counterId ∉ state.usedIds ∧ '\n' ∉ request.id counterId
  | _ => True

end PacketFence.Queue
