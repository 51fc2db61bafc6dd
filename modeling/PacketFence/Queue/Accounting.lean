import PacketFence.Foundations.Census
import PacketFence.Queue.Redis

/-!
# Every task is in one place

An id is at one place of its life at a time: with a producer that has read the
time, in a sorted set, in a work list, with a consumer at one of its stages, or
behind it. Every step takes ids from one place to another, and the counters
follow the places they count.
-/

namespace PacketFence.Queue

open Foundations Lexing List Option State Nat

inductive Stage where
  | popped
  | loaded
  | deleted
  | missing
  deriving DecidableEq

def Work.stage : Work → Stage
  | popped _ => .popped
  | loaded _ _ => .loaded
  | deleted _ _ => .deleted
  | missing _ => .missing

inductive Place where
  | pending
  | delayed
  | queued
  | held (stage : Stage)
  | executed
  | counted
  | undecoded
  deriving DecidableEq

def State.census (state : State) : Census Place Text
  | .pending, kind => state.producers.contents.countP fun pending => kind pending.submission.id
  | .delayed, kind => state.server.delayed.rows.countP fun row => kind row.member
  | .queued, kind => state.server.queues.contents.countP kind
  | .held stage, kind =>
    state.consumers.contents.countP fun work => work.stage == stage && kind work.id
  | .executed, kind => state.executed.countP fun execution => kind execution.id
  | .counted, kind => state.counted.countP kind
  | .undecoded, kind => state.undecoded.countP kind

def submittedPlaces : Finset Place :=
  {.delayed, .queued, .held .popped, .held .loaded, .held .deleted, .held .missing, .executed,
    .counted, .undecoded}

def takenPlaces : Finset Place :=
  {.held .popped, .held .loaded, .held .deleted, .held .missing, .executed, .counted, .undecoded}

def everywhere : Finset Place :=
  insert .pending submittedPlaces

theorem mem_everywhere (place : Place) : place ∈ everywhere := by
  cases place with
  | held stage => cases stage <;> decide
  | _ => decide

def waitingPlaces : Finset Place :=
  {.delayed, .queued, .held .popped}

def ofCounter (counterId : Text) (id : Text) : Bool :=
  getTaskCounterIdFromTaskId id == counterId

/-- What a step does: some ids go from one place to another, and the history and
the counters change with them. -/
structure Moved (state next : State) (source target : Option Place) (ids : List Text) :
    Prop where
  transfer : Transfer state.census next.census source target ids
  submitted : ∀ kind : Text → Bool,
    (next.submitted.countP fun submission => kind submission.id) +
        flow submittedPlaces (ids.countP kind) source =
      (state.submitted.countP fun submission => kind submission.id) +
        flow submittedPlaces (ids.countP kind) target
  taken : ∀ kind : Text → Bool,
    (next.taken.countP fun taken => kind taken.2) +
        flow takenPlaces (ids.countP kind) source =
      (state.taken.countP fun taken => kind taken.2) +
        flow takenPlaces (ids.countP kind) target
  taskCounters : ∀ counterId : Text,
    next.server.taskCounters counterId +
        flow waitingPlaces (ids.countP (ofCounter counterId)) source =
      state.server.taskCounters counterId +
        flow waitingPlaces (ids.countP (ofCounter counterId)) target
  expiredCounters : ∀ counterId : Text,
    next.server.expiredCounters counterId +
        flow {Place.counted} (ids.countP (ofCounter counterId)) source =
      state.server.expiredCounters counterId +
        flow {Place.counted} (ids.countP (ofCounter counterId)) target

variable {pending : Pending} {state next : State} {id : Text} {consumer : Consumer} {work : Work}

section Steps

theorem Moved.of_same (census : next.census = state.census)
    (submitted : next.submitted = state.submitted) (taken : next.taken = state.taken)
    (taskCounters : next.server.taskCounters = state.server.taskCounters)
    (expiredCounters : next.server.expiredCounters = state.server.expiredCounters) :
    Moved state next none none [] where
  transfer := fun _ _ => by rw [census]
  submitted := fun _ => by rw [submitted]
  taken := fun _ => by rw [taken]
  taskCounters := fun _ => by rw [taskCounters]
  expiredCounters := fun _ => by rw [expiredCounters]

theorem countP_lpush (server : Server) (name : Text) (ids : List Text) (kind : Text → Bool) :
    (server.lpush name ids).queues.contents.countP kind =
      server.queues.contents.countP kind + ids.countP kind := by
  have balance := server.queues.countP_contents_put name
    (ids.reverse ++ server.queues.get name) kind
  rw [countP_append, countP_reverse] at balance
  change (server.queues.put name _).contents.countP kind = _
  omega

variable (counters : Text → Int)

@[simp] theorem hincrby_same (field : Text) (increment : Int) :
    hincrby counters field increment field = counters field + increment := Function.update_self ..

theorem hincrby_eq (field other : Text) (increment : Int) : hincrby counters field increment other =
      counters other + if field = other then increment else 0 := by
  by_cases same : field = other
  · subst same
    rw [hincrby_same, if_pos rfl]
  · rw [hincrby, Function.update_of_ne (Ne.symm same), if_neg same, Int.add_zero]

theorem countP_ofCounter (id counterId : Text) :
    ([id].countP (ofCounter counterId) : Int) =
      if getTaskCounterIdFromTaskId id = counterId then 1 else 0 := by
  by_cases same : getTaskCounterIdFromTaskId id = counterId
  · simp [ofCounter, same]
  · simp [ofCounter, same]

theorem moved_submit (request : Request) {submission : Submission}
    (counter : getTaskCounterIdFromTaskId submission.id = submission.counterId) :
    Moved state
      { state with
        server := state.server.submit request submission
        submitted := submission :: state.submitted }
      none (some .queued) [submission.id] where
  transfer := by
    intro place kind
    cases place with
    | queued =>
      exact countP_lpush _ request.queueName [submission.id] kind
    | _ => rfl
  submitted := fun kind => by
    simp [submittedPlaces, countP_cons]
  taken := fun kind => by simp [takenPlaces]
  taskCounters := fun counterId => by
    simp only [flow_none, flow_some]
    rw [if_pos (by decide), countP_ofCounter, counter]
    change hincrby state.server.taskCounters submission.counterId 1 counterId + _ = _
    rw [hincrby_eq]
    simp
  expiredCounters := fun counterId => by
    rfl

variable {producer : Producer} {server : Server} {names : List Text}

theorem moved_readTime (pending : Pending) (idle : state.producers.get producer = []) :
    Moved state { state with producers := state.producers.put producer [pending] }
      none (some .pending) [pending.submission.id] where
  transfer := by
    intro place kind
    cases place with
    | pending =>
      have balance := state.producers.countP_contents_put producer [pending]
        fun pending => kind pending.submission.id
      rw [idle, countP_nil, add_zero] at balance
      simp only [flow_none, flow_some, Finset.mem_singleton, if_true, add_zero]
      rw [census, balance, add_comm, census]
      simp
    | _ => rfl
  submitted := fun kind => by simp [submittedPlaces]
  taken := fun kind => by simp [takenPlaces]
  taskCounters := fun counterId => by simp [waitingPlaces]
  expiredCounters := fun counterId => by simp

theorem member_ne_of_census (absent : state.census .delayed (· == id) = 0) :
    ∀ row ∈ state.server.delayed.rows, row.member ≠ id := by
  intro row inside same
  apply countP_eq_zero.mp absent row inside
  exact beq_iff_eq.mpr same

theorem rows_submitDelayed (absent : state.census .delayed (· == pending.submission.id) = 0) :
    (state.server.submitDelayed pending).delayed.rows =
      state.server.delayed.rows ++ [⟨delayedPrefix ++ pending.request.queue,
        pending.submission.due, pending.submission.id⟩] := by
  apply Schema.upsert_of_notMem
  intro member
  obtain ⟨row, inside, same⟩ := mem_map.mp member
  exact member_ne_of_census absent row inside (Prod.ext_iff.mp same).2

theorem moved_submitDelayed (waiting : state.producers.get producer = [pending])
    (counter : getTaskCounterIdFromTaskId pending.submission.id =
      pending.submission.counterId)
    (absent : state.census .delayed (· == pending.submission.id) = 0) :
    Moved state
      { state with
        server := state.server.submitDelayed pending
        producers := state.producers.put producer []
        submitted := pending.submission :: state.submitted }
      (some .pending) (some .delayed) [pending.submission.id] where
  transfer := by
    intro place kind
    cases place with
    | pending =>
      have balance := state.producers.countP_contents_put producer []
        fun pending => kind pending.submission.id
      rw [waiting, countP_nil, zero_add] at balance
      simp only [flow_some, Finset.mem_singleton, if_true]
      rw [if_neg (by decide), add_zero, census, census, ← balance]
      simp
    | delayed =>
      simp only [flow_some, Finset.mem_singleton, if_true]
      rw [if_neg (by decide), add_zero, census, rows_submitDelayed absent, countP_append]
      simp [census]
    | _ => rfl
  submitted := fun kind => by simp [submittedPlaces, countP_cons]
  taken := fun kind => by simp [takenPlaces]
  taskCounters := fun counterId => by
    simp only [flow_some]
    rw [if_neg (by decide), if_pos (by decide), countP_ofCounter, counter]
    change hincrby state.server.taskCounters pending.submission.counterId 1 counterId + _ = _
    rw [hincrby_eq]
    simp
  expiredCounters := fun counterId => by
    rfl

/-- The rows that the script moves. -/
def Server.due (server : Server) (move : Move) : List Delayed :=
  server.zrangebyscore (delayedPrefix ++ move.name) move.time move.batch

theorem mem_due {move : Move} {row : Delayed} (member : row ∈ server.due move) :
    row ∈ server.delayed.rows ∧ row.set = delayedPrefix ++ move.name ∧
      row.score ≤ move.time := by
  obtain ⟨inside, wanted⟩ := Table.mem_of_mem_select member
  exact ⟨inside, by simpa using wanted⟩

theorem countP_delayJobsMove (server : Server) (move : Move) (kind : Text → Bool) :
    let after := server.delayJobsMove (delayedPrefix ++ move.name) (queuePrefix ++ move.name)
      move.time move.batch
    let ids := (server.due move).map (·.member)
    after.queues.contents.countP kind = server.queues.contents.countP kind + ids.countP kind ∧
      (after.delayed.rows.countP fun row => kind row.member) + ids.countP kind =
        server.delayed.rows.countP fun row => kind row.member := by
  intro after ids
  have moved : after = if 0 < ids.length then
      (server.lpush (queuePrefix ++ move.name) ids).zrem (delayedPrefix ++ move.name) ids
    else
      server := rfl
  rw [moved]
  split
  · refine ⟨countP_lpush server (queuePrefix ++ move.name) ids kind, ?_⟩
    have keys : ids.map (fun member => (delayedPrefix ++ move.name, member)) =
        (server.due move).map delayedSchema.key := by
      rw [List.map_map]
      apply map_congr_left
      intro row member
      exact Prod.ext (mem_due member).2.1.symm rfl
    have present : ∀ row ∈ server.due move, row ∈ server.delayed.rows :=
      fun row member => (mem_due member).1
    have distinct : ((server.due move).map delayedSchema.key).Nodup := Table.distinct_select
    have removed := Table.countP_delete_picked present distinct fun row => kind row.member
    change ((server.delayed.delete (ids.map _)).rows.countP _) + _ = _
    rw [keys, ← removed, countP_map]
    rfl
  next none =>
    have empty : ids = [] := length_eq_zero_iff.mp (by omega)
    simp [empty]

theorem delayJobsMove_kept (server : Server) (delayZset jobQueue : Text)
    (timestamp batch : Int) :
    let after := server.delayJobsMove delayZset jobQueue timestamp batch
    after.now = server.now ∧ after.hashes = server.hashes ∧
      after.taskCounters = server.taskCounters ∧
      after.expiredCounters = server.expiredCounters := by
  intro after
  have moved : after = if 0 < _ then _ else server := rfl
  rw [moved]
  split <;> exact ⟨rfl, rfl, rfl, rfl⟩

theorem moved_move (mover : Mover) (move : Move) :
    Moved state
      { state with
        server := state.server.delayJobsMove (delayedPrefix ++ move.name)
          (queuePrefix ++ move.name) move.time move.batch
        movers := state.movers.put mover [] }
      (some .delayed) (some .queued) ((state.server.due move).map (·.member)) where
  transfer := by
    intro place kind
    obtain ⟨queued, delayed⟩ := countP_delayJobsMove state.server move kind
    cases place with
    | delayed => simpa [census] using delayed
    | queued => simpa [census] using queued
    | _ => rfl
  submitted := fun kind => by simp [submittedPlaces]
  taken := fun kind => by simp [takenPlaces]
  taskCounters := fun counterId => by
    rw [(delayJobsMove_kept ..).2.2.1]
    simp [waitingPlaces]
  expiredCounters := fun counterId => by
    rw [(delayJobsMove_kept ..).2.2.2]
    simp

theorem brpop_eq_some {next : Server} (popped : server.brpop names = some (id, next)) :
    ∃ name ids, server.queues.get name = ids ++ [id] ∧
      next = { server with queues := server.queues.put name ids } := by
  obtain ⟨name, _, found⟩ := exists_of_findSome?_eq_some popped
  obtain ⟨last, isLast, same⟩ := map_eq_some_iff.mp found
  cases same
  obtain ⟨ids, whole⟩ := getLast?_eq_some_iff.mp isLast
  refine ⟨name, ids, whole, ?_⟩
  rw [whole, dropLast_concat]

theorem countP_work (work : Work) (stage : Stage) (kind : Text → Bool) :
    ([work].countP fun work => work.stage == stage && kind work.id) =
      flow {Place.held stage} ([work.id].countP kind) (some (.held work.stage)) := by
  by_cases same : work.stage = stage
  · simp [same]
  · simp [same]

theorem moved_pop (idle : state.consumers.get consumer = [])
    (popped : state.server.brpop names = some (id, server)) (expired : List Text) :
    Moved state { state.setWork consumer (.popped id) with
        server := server
        taken := (consumer, id) :: state.taken
        takenExpired := expired }
      (some .queued) (some (.held .popped)) [id] := by
  obtain ⟨name, ids, whole, rfl⟩ := brpop_eq_some popped
  exact {
    transfer := by
      intro place kind
      cases place with
      | queued =>
        have balance := state.server.queues.countP_contents_put name ids kind
        rw [whole, countP_append] at balance
        simp only [flow_some, Finset.mem_singleton, if_true]
        change (state.server.queues.put name ids).contents.countP kind + _ =
          state.server.queues.contents.countP kind + 0
        omega
      | held stage =>
        have balance := state.consumers.countP_contents_put consumer [.popped id]
          fun work => work.stage == stage && kind work.id
        rw [idle, countP_nil, add_zero] at balance
        rw [countP_work] at balance
        rw [flow_some _ _ Place.queued, if_neg (by simp), add_zero,
          add_comm (state.census (.held stage) kind)]
        exact balance
      | _ => rfl
    submitted := fun kind => by simp [submittedPlaces, setWork]
    taken := fun kind => by simp [takenPlaces, countP_cons]
    taskCounters := fun counterId => by simp [waitingPlaces]
    expiredCounters := fun counterId => by simp }

theorem transfer_setWork {next : Work}
    (held : state.consumers.get consumer = [work]) (same : next.id = work.id)
    (queues : server.queues = state.server.queues)
    (delayed : server.delayed = state.server.delayed) :
    Transfer state.census { state.setWork consumer next with server := server }.census
      (some (.held work.stage)) (some (.held next.stage)) [work.id] := by
  intro place kind
  cases place with
  | held stage =>
    have balance := state.consumers.countP_contents_put consumer [next]
      fun work => work.stage == stage && kind work.id
    rw [held, countP_work, countP_work, same] at balance
    rw [add_comm (state.census (.held stage) kind)]
    exact balance
  | delayed => simp [census, delayed]
  | queued => simp [census, queues]
  | _ => rfl

theorem transfer_finish {last : Place} (held : state.consumers.get consumer = [work])
    (finished : next.consumers = state.consumers.put consumer [])
    (outside : ∀ stage, last ≠ .held stage) (others : ∀ place kind, (∀ stage, place ≠ .held stage) →
      next.census place kind = state.census place kind +
        flow {place} ([work.id].countP kind) (some last)) :
    Transfer state.census next.census (some (.held work.stage)) (some last) [work.id] := by
  intro place kind
  cases place with
  | held stage =>
    have balance := state.consumers.countP_contents_put consumer []
      fun work => work.stage == stage && kind work.id
    rw [held, countP_work, countP_nil, zero_add, ← finished] at balance
    rw [flow_some _ _ last, if_neg (by simpa using outside stage), add_zero]
    exact balance
  | _ =>
    rw [others _ kind (by simp)]
    simp

variable {hash : TaskHash}

theorem moved_transaction (held : state.consumers.get consumer = [.popped id])
    (next : Work) (same : next.id = id) (later : next.stage ≠ .popped) :
    Moved state { state.setWork consumer next with server := (state.server.transaction id).1 }
      (some (.held .popped)) (some (.held next.stage)) [id] where
  transfer := transfer_setWork held same rfl rfl
  submitted := fun kind => by
    cases next <;> simp [submittedPlaces, Work.stage, setWork]
  taken := fun kind => by
    cases next <;> simp [takenPlaces, Work.stage, setWork]
  taskCounters := fun counterId => by
    have outside : Place.held next.stage ∉ waitingPlaces := by simpa [waitingPlaces] using later
    rw [flow_some, flow_some, if_pos (by decide), if_neg outside, countP_ofCounter]
    change hincrby state.server.taskCounters (getTaskCounterIdFromTaskId id) (-1) counterId + _ = _
    rw [hincrby_eq]
    split <;> simp
  expiredCounters := fun counterId => by
    rfl

theorem moved_decodeFails (held : state.consumers.get consumer = [.loaded id hash]) :
    Moved state { state.finish consumer with undecoded := id :: state.undecoded }
      (some (.held .loaded)) (some .undecoded) [id] where
  transfer := by
    apply transfer_finish held rfl (by simp)
    intro place kind other
    cases place with
    | undecoded => simp [census, countP_cons, Work.id]
    | held stage => exact absurd rfl (other stage)
    | _ => rfl
  submitted := fun kind => by simp [submittedPlaces, finish]
  taken := fun kind => by simp [takenPlaces, finish]
  taskCounters := fun counterId => by simp [waitingPlaces, finish]
  expiredCounters := fun counterId => by simp [finish]

theorem moved_del (held : state.consumers.get consumer = [.loaded id hash]) :
    Moved state { state.setWork consumer (.deleted id hash) with server := state.server.del id }
      (some (.held .loaded)) (some (.held .deleted)) [id] where
  transfer := transfer_setWork held rfl rfl rfl
  submitted := fun kind => by simp [submittedPlaces, setWork]
  taken := fun kind => by simp [takenPlaces, setWork]
  taskCounters := fun counterId => by simp [waitingPlaces, Server.del]
  expiredCounters := fun counterId => by simp [Server.del]

theorem moved_doTask {time : Int} (held : state.consumers.get consumer = [.deleted id hash]) :
    Moved state { state.finish consumer with executed := ⟨id, time⟩ :: state.executed }
      (some (.held .deleted)) (some .executed) [id] where
  transfer := by
    apply transfer_finish held rfl (by simp)
    intro place kind other
    cases place with
    | executed => simp [census, countP_cons, Work.id]
    | held stage => exact absurd rfl (other stage)
    | _ => rfl
  submitted := fun kind => by simp [submittedPlaces, finish]
  taken := fun kind => by simp [takenPlaces, finish]
  taskCounters := fun counterId => by simp [waitingPlaces, finish]
  expiredCounters := fun counterId => by simp [finish]

theorem moved_countExpired (held : state.consumers.get consumer = [.missing id]) :
    Moved state
      { state.finish consumer with
        server :=
          { state.server with
            expiredCounters :=
              hincrby state.server.expiredCounters (getTaskCounterIdFromTaskId id) 1 }
        counted := id :: state.counted }
      (some (.held .missing)) (some .counted) [id] where
  transfer := by
    apply transfer_finish held rfl (by simp)
    intro place kind other
    cases place with
    | counted => simp [census, countP_cons, Work.id]
    | held stage => exact absurd rfl (other stage)
    | _ => rfl
  submitted := fun kind => by simp [submittedPlaces, finish]
  taken := fun kind => by simp [takenPlaces, finish]
  taskCounters := fun counterId => by simp [waitingPlaces]
  expiredCounters := fun counterId => by
    rw [flow_some, flow_some, if_neg (by decide), if_pos (by decide), countP_ofCounter]
    change hincrby state.server.expiredCounters (getTaskCounterIdFromTaskId id) 1 counterId + _ = _
    rw [hincrby_eq]
    simp

end Steps

theorem generateId_eq (uuid : Uuid) (counterId : Text) :
    generateId uuid counterId = "Task:".toList ++ (uuid.text ++ ':' :: counterId) :=
  append_assoc ..

theorem getTaskCounterIdFromTaskId_generateId {uuid : Uuid} {counterId : Text}
    (single : '\n' ∉ generateId uuid counterId) :
    getTaskCounterIdFromTaskId (generateId uuid counterId) = counterId := by
  have whole : (generateId uuid counterId).dropPrefix? "Task:".toList =
      some (uuid.text ++ ':' :: counterId) := by
    rw [generateId_eq]
    exact dropPrefix?_append_of_beq _ (beq_self_eq_true _)
  have name : ∀ char ∈ uuid.text, (char != ':') = true := by
    intro char member
    rw [bne_iff_ne]
    rintro rfl
    exact uuid.no_colon member
  have line : captureLine? counterId = some counterId := by
    apply captureLine?_of_notMem
    intro member
    apply single
    simp [generateId_eq, member]
  have first : (uuid.text ++ ':' :: counterId).takeWhile (· != ':') = uuid.text := by
    rw [takeWhile_append_of_pos name]
    simp
  have second : (uuid.text ++ ':' :: counterId).dropWhile (· != ':') = ':' :: counterId := by
    rw [dropWhile_append_of_pos name]
    simp
  delta getTaskCounterIdFromTaskId getTaskCounterIdFromTaskId?
  simp only [whole, first, second]
  cases text : uuid.text with
  | nil => exact absurd text uuid.nonempty
  | cons char rest =>
    change (captureLine? counterId).getD [] = counterId
    rw [line, getD_some]

inductive Effect (state : State) : State → Prop where
  | tick (elapsed : Nat) :
      Effect state { state with server := { state.server with now := state.server.now + elapsed } }
  | expire (id : Text) (gone : state.server.hgetall id = none) :
      Effect state { state with server := state.server.del id }
  | submit (request : Request) (submission : Submission)
      (due : submission.due = state.server.timeMilli)
      (fresh : submission.id ∉ state.usedIds)
      (counter : getTaskCounterIdFromTaskId submission.id = submission.counterId) :
      Effect state
        { state with
          server := state.server.submit request submission
          submitted := submission :: state.submitted }
  | readTime (producer : Producer) (pending : Pending)
      (idle : state.producers.get producer = [])
      (fresh : pending.submission.id ∉ state.usedIds)
      (counter : getTaskCounterIdFromTaskId pending.submission.id =
        pending.submission.counterId) :
      Effect state { state with producers := state.producers.put producer [pending] }
  | submitDelayed (producer : Producer) (pending : Pending)
      (waiting : state.producers.get producer = [pending]) :
      Effect state
        { state with
          server := state.server.submitDelayed pending
          producers := state.producers.put producer []
          submitted := pending.submission :: state.submitted }
  | readMoveTime (mover : Mover) (move : Move) (time : move.time = state.server.timeMilli) :
      Effect state { state with movers := state.movers.put mover [move] }
  | move (mover : Mover) (move : Move) (waiting : state.movers.get mover = [move]) :
      Effect state
        { state with
          server := state.server.delayJobsMove (delayedPrefix ++ move.name)
            (queuePrefix ++ move.name) move.time move.batch
          movers := state.movers.put mover [] }
  | popNothing : Effect state state
  | pop (consumer : Consumer) (names : List Text) (id : Text) (server : Server)
      (idle : state.consumers.get consumer = [])
      (popped : state.server.brpop names = some (id, server)) :
      Effect state
        { state.setWork consumer (.popped id) with
          server := server
          taken := (consumer, id) :: state.taken
          takenExpired :=
            if (state.server.hgetall id).isNone then id :: state.takenExpired
            else state.takenExpired }
  | load (consumer : Consumer) (id : Text) (hash : TaskHash)
      (held : state.consumers.get consumer = [.popped id])
      (found : state.server.hgetall id = some hash) :
      Effect state
        { state.setWork consumer (.loaded id hash) with
          server := (state.server.transaction id).1 }
  | miss (consumer : Consumer) (id : Text)
      (held : state.consumers.get consumer = [.popped id]) :
      Effect state
        { state.setWork consumer (.missing id) with server := (state.server.transaction id).1 }
  | decodeFails (consumer : Consumer) (id : Text) (hash : TaskHash)
      (held : state.consumers.get consumer = [.loaded id hash]) :
      Effect state { state.finish consumer with undecoded := id :: state.undecoded }
  | del (consumer : Consumer) (id : Text) (hash : TaskHash)
      (held : state.consumers.get consumer = [.loaded id hash]) :
      Effect state
        { state.setWork consumer (.deleted id hash) with server := state.server.del id }
  | doTask (consumer : Consumer) (id : Text) (hash : TaskHash)
      (held : state.consumers.get consumer = [.deleted id hash]) :
      Effect state
        { state.finish consumer with
          executed := ⟨id, state.server.timeMilli⟩ :: state.executed }
  | countExpired (consumer : Consumer) (id : Text)
      (held : state.consumers.get consumer = [.missing id]) :
      Effect state
        { state.finish consumer with
          server :=
            { state.server with
              expiredCounters :=
                hincrby state.server.expiredCounters (getTaskCounterIdFromTaskId id) 1 }
          counted := id :: state.counted }

theorem effect_of_work? {command : Command} (held : state.consumers.get consumer = [work])
    (stepped : state.work? consumer command work = some next) : Effect state next := by
  cases command with
  | transaction =>
    cases work with
    | popped id =>
      simp only [work?, Server.transaction] at stepped
      split at stepped
      next hash found =>
        cases stepped
        exact .load consumer id hash held found
      · cases stepped
        exact .miss consumer id held
    | _ => cases stepped
  | decodeFails =>
    cases work with
    | loaded id hash =>
      cases stepped
      exact .decodeFails consumer id hash held
    | _ => cases stepped
  | del =>
    cases work with
    | loaded id hash =>
      cases stepped
      exact .del consumer id hash held
    | _ => cases stepped
  | doTask =>
    cases work with
    | deleted id hash =>
      cases stepped
      exact .doTask consumer id hash held
    | _ => cases stepped
  | countExpired =>
    cases work with
    | missing id =>
      cases stepped
      exact .countExpired consumer id held
    | _ => cases stepped

theorem effect_of_step? {event : Event} (fresh : FreshIds state event)
    (stepped : machine.step? state event = some next) : Effect state next := by
  cases event with
  | tick elapsed =>
    cases stepped
    exact .tick elapsed
  | expire id =>
    simp only [machine, step?] at stepped
    split at stepped
    next gone =>
      cases stepped
      exact .expire id (isNone_iff_eq_none.mp gone)
    · cases stepped
  | submit request =>
    obtain ⟨counterId, known, rfl⟩ := map_eq_some_iff.mp stepped
    obtain ⟨unused, single⟩ := fresh counterId known
    exact .submit request _ rfl unused (getTaskCounterIdFromTaskId_generateId single)
  | readTime producer request delay =>
    simp only [machine, step?] at stepped
    split at stepped
    next idle =>
      obtain ⟨counterId, known, rfl⟩ := map_eq_some_iff.mp stepped
      obtain ⟨unused, single⟩ := fresh counterId known
      exact .readTime producer _ idle unused (getTaskCounterIdFromTaskId_generateId single)
    · cases stepped
  | submitDelayed producer =>
    simp only [machine, step?] at stepped
    split at stepped
    next pending waiting =>
      cases stepped
      exact .submitDelayed producer pending waiting
    · cases stepped
  | readMoveTime mover name batch =>
    simp only [machine, step?] at stepped
    split at stepped
    · cases stepped
      exact .readMoveTime mover _ rfl
    · cases stepped
  | move mover =>
    simp only [machine, step?] at stepped
    split at stepped
    next move waiting =>
      cases stepped
      exact .move mover move waiting
    · cases stepped
  | pop consumer queues =>
    simp only [machine, step?] at stepped
    split at stepped
    next idle =>
      cases stepped
      rw [pop]
      split
      · exact .popNothing
      next id server popped => exact .pop consumer queues id server idle popped
    · cases stepped
  | work consumer command =>
    simp only [machine, step?] at stepped
    split at stepped
    next work held => exact effect_of_work? held stepped
    · cases stepped

/-! ### Conservation -/

structure Conserved (state : State) : Prop where
  once : ∀ id, state.census.total everywhere (· == id) ≤ 1
  submitted : ∀ kind : Text → Bool,
    (state.submitted.countP fun submission => kind submission.id) =
      state.census.total submittedPlaces kind
  taken : ∀ kind : Text → Bool,
    (state.taken.countP fun taken => kind taken.2) = state.census.total takenPlaces kind
  taskCounters : ∀ counterId,
    state.server.taskCounters counterId =
      state.census.total waitingPlaces (ofCounter counterId)
  expiredCounters : ∀ counterId,
    state.server.expiredCounters counterId = state.census .counted (ofCounter counterId)
  counterIds : ∀ submission ∈ state.submitted,
    getTaskCounterIdFromTaskId submission.id = submission.counterId
  pendingIds : ∀ pending ∈ state.producers.contents,
    getTaskCounterIdFromTaskId pending.submission.id = pending.submission.counterId

theorem total_everywhere (census : Census Place Text) (kind : Text → Bool) :
    census.total everywhere kind =
      census .pending kind + census.total submittedPlaces kind := Finset.sum_insert (by decide)

section Conservation

variable {source target : Option Place} {ids : List Text} (conserved : Conserved state)

include conserved

theorem Conserved.absent_of_notMem
    (fresh : id ∉ state.usedIds) : state.census.total everywhere (· == id) = 0 := by
  rw [usedIds, mem_append, not_or] at fresh
  have pending : state.census .pending (· == id) = 0 := by
    apply countP_eq_zero.mpr
    intro pending member same
    exact fresh.2 (mem_map.mpr ⟨pending, member, beq_iff_eq.mp same⟩)
  have submitted : (state.submitted.countP fun submission => submission.id == id) = 0 := by
    apply countP_eq_zero.mpr
    intro submission member same
    exact fresh.1 (mem_map.mpr ⟨submission, member, beq_iff_eq.mp same⟩)
  rw [total_everywhere, pending, ← conserved.submitted (· == id), submitted]

theorem Conserved.once_of_inside {before after : Place}
    (moved : Moved state next (some before) (some after) ids) (id : Text) :
    next.census.total everywhere (· == id) ≤ 1 := by
  have balance := moved.transfer.total everywhere (· == id)
  rw [flow_some, flow_some, if_pos (mem_everywhere before), if_pos (mem_everywhere after)]
    at balance
  have once := conserved.once id
  omega

theorem Conserved.once_of_new {fresh : Text}
    (moved : Moved state next none target [fresh]) (unused : fresh ∉ state.usedIds) (id : Text) :
    next.census.total everywhere (· == id) ≤ 1 := by
  have balance := moved.transfer.total everywhere (· == id)
  have once := conserved.once id
  have added : flow everywhere ([fresh].countP (· == id)) target ≤ [fresh].countP (· == id) := by
    cases target with
    | none => exact zero_le _
    | some place => rw [flow_some, if_pos (mem_everywhere place)]
  by_cases same : fresh = id
  · subst same
    rw [conserved.absent_of_notMem unused] at balance
    have one : [fresh].countP (· == fresh) ≤ 1 := countP_le_length
    omega
  · have none : [fresh].countP (· == id) = 0 := by simp [same]
    omega

theorem Conserved.elsewhere {here there : Place}
    (present : 0 < state.census here (· == id)) (other : there ≠ here) :
    state.census there (· == id) = 0 :=
  Census.eq_zero_of_total_le_one (conserved.once id) (mem_everywhere here) present
    (mem_everywhere there) other

theorem Conserved.absent_of_pending (member : pending ∈ state.producers.contents) :
    ∀ place ∈ submittedPlaces, state.census place (· == pending.submission.id) = 0 := by
  intro place inside
  have present : 0 < state.census .pending (· == pending.submission.id) :=
    countP_pos_iff.mpr ⟨pending, member, beq_self_eq_true _⟩
  apply conserved.elsewhere present
  rintro rfl
  exact absurd inside (by decide)

theorem Conserved.of_moved (moved : Moved state next source target ids)
    (once : ∀ id, next.census.total everywhere (· == id) ≤ 1)
    (counterIds : ∀ submission ∈ next.submitted,
      getTaskCounterIdFromTaskId submission.id = submission.counterId)
    (pendingIds : ∀ pending ∈ next.producers.contents,
      getTaskCounterIdFromTaskId pending.submission.id = pending.submission.counterId) :
    Conserved next where
  once := once
  submitted := fun kind => by
    have balance := moved.transfer.total submittedPlaces kind
    have change := moved.submitted kind
    have before := conserved.submitted kind
    omega
  taken := fun kind => by
    have balance := moved.transfer.total takenPlaces kind
    have change := moved.taken kind
    have before := conserved.taken kind
    omega
  taskCounters := fun counterId => by
    have balance := moved.transfer.total waitingPlaces (ofCounter counterId)
    have change := moved.taskCounters counterId
    have before := conserved.taskCounters counterId
    omega
  expiredCounters := fun counterId => by
    have balance := moved.transfer .counted (ofCounter counterId)
    have change := moved.expiredCounters counterId
    have before := conserved.expiredCounters counterId
    omega
  counterIds := counterIds
  pendingIds := pendingIds

theorem Conserved.of_same (census : next.census = state.census)
    (submitted : next.submitted = state.submitted) (taken : next.taken = state.taken)
    (taskCounters : next.server.taskCounters = state.server.taskCounters)
    (expiredCounters : next.server.expiredCounters = state.server.expiredCounters)
    (producers : next.producers = state.producers) : Conserved next :=
  conserved.of_moved (.of_same census submitted taken taskCounters expiredCounters)
    (census ▸ conserved.once) (submitted ▸ conserved.counterIds)
    (producers ▸ conserved.pendingIds)

theorem Conserved.of_inside {before after : Place}
    (moved : Moved state next (some before) (some after) ids)
    (submitted : next.submitted = state.submitted)
    (producers : next.producers = state.producers) : Conserved next :=
  conserved.of_moved moved (conserved.once_of_inside moved)
    (submitted ▸ conserved.counterIds) (producers ▸ conserved.pendingIds)

theorem Conserved.step (effect : Effect state next) : Conserved next := by
  cases effect with
  | tick elapsed | expire id gone => exact conserved.of_same rfl rfl rfl rfl rfl rfl
  | submit request submission due fresh counter =>
    have moved : Moved state _ none _ _ := moved_submit request counter
    refine conserved.of_moved moved (conserved.once_of_new moved fresh) ?_ conserved.pendingIds
    exact forall_mem_cons.mpr ⟨counter, conserved.counterIds⟩
  | readTime producer pending idle fresh counter =>
    have moved := moved_readTime pending idle
    refine conserved.of_moved moved (conserved.once_of_new moved fresh) conserved.counterIds ?_
    intro other member
    rcases Shelves.mem_or_mem_of_mem_put member with new | old
    · rw [mem_singleton.mp new]
      exact counter
    · exact conserved.pendingIds other old
  | submitDelayed producer pending waiting =>
    have known : pending ∈ state.producers.contents :=
      Shelves.mem_contents_of_get_eq_singleton waiting
    have counter := conserved.pendingIds pending known
    have moved := moved_submitDelayed waiting counter
      (conserved.absent_of_pending known .delayed (by decide))
    refine conserved.of_moved moved (conserved.once_of_inside moved)
      (forall_mem_cons.mpr ⟨counter, conserved.counterIds⟩) ?_
    intro other member
    rcases Shelves.mem_or_mem_of_mem_put member with new | old
    · cases new
    · exact conserved.pendingIds other old
  | readMoveTime mover move time => exact conserved.of_same rfl rfl rfl rfl rfl rfl
  | move mover move waiting => exact conserved.of_inside (moved_move mover move) rfl rfl
  | popNothing => exact conserved
  | pop consumer names id server idle popped =>
    exact conserved.of_inside (moved_pop idle popped _) rfl rfl
  | load consumer id hash held found =>
    exact conserved.of_inside (moved_transaction held (.loaded id hash) rfl nofun) rfl rfl
  | miss consumer id held =>
    exact conserved.of_inside (moved_transaction held (.missing id) rfl nofun) rfl rfl
  | decodeFails consumer id hash held => exact conserved.of_inside (moved_decodeFails held) rfl rfl
  | del consumer id hash held => exact conserved.of_inside (moved_del held) rfl rfl
  | doTask consumer id hash held => exact conserved.of_inside (moved_doTask held) rfl rfl
  | countExpired consumer id held => exact conserved.of_inside (moved_countExpired held) rfl rfl

end Conservation

end PacketFence.Queue
