import PacketFence.SecurityEvent.Changes

/-!
# The activation of delayed events

The maintenance sends a notification for a delayed event and leaves its row as it is.
Until the notification is processed another run of the maintenance sends a second
one, and the event may be closed; the worker looks at neither.

A state carries the notifications under way and a history: the events whose actions
were executed by a notification, and those it set back from closed to open.
-/

namespace PacketFence.SecurityEvent

open Foundations List Option

structure ActivationState where
  table : EventTable
  queue : List Event
  /-- the latest first -/
  executed : List Nat
  reopened : List Nat

/-- A step of the maintenance, of an operator or of a worker. A run of the maintenance is
a sequence of passes that each know what was processed before. -/
inductive ActivationEvent where
  | maintenance (tenant batch : Nat) (processed : List Nat) (pass : Pass)
  | close (now : Nat) (device : Device) (kind : Nat)
  | forceClose (now : Nat) (device : Device) (kind : Nat)
  | process (position now depth : Nat) (world : World)

def EventTable.isClosed (table : EventTable) (id : Nat) : Bool :=
  table.events.any fun row => row.id = id && row.status = .closed

/-- `security_event_delayed_run` for a notification that is taken out of the queue. -/
def ActivationState.process? (classes : Classes) (state : ActivationState)
    (position now depth : Nat) (world : World) : Option ActivationState :=
  match state.queue[position]? with
  | none => none
  | some event =>
    (runDelayedEvent classes now depth world event state.table).map fun table =>
      { table
        queue := state.queue.eraseIdx position
        executed := event.id :: state.executed
        reopened :=
          if state.table.isClosed event.id then event.id :: state.reopened
          else state.reopened }

def activation (classes : Classes) : Machine ActivationState ActivationEvent where
  step?
    | state, .maintenance tenant batch processed pass =>
      (pass.run classes tenant batch processed state.table).map fun table => { state with
        table
        queue := state.queue ++ pass.notified tenant batch processed state.table }
    | state, .close now device kind =>
      some { state with table := state.table.securityEventClose classes now device kind }
    | state, .forceClose now device kind =>
      some { state with table := state.table.securityEventForceClose now device kind }
    | state, .process position now depth world =>
      state.process? classes position now depth world

def waiting (table : EventTable) : ActivationState := ⟨table, [], [], []⟩

/-- No actions were executed twice, and nothing closed was opened. -/
def ActivatedOnce (state : ActivationState) : Prop :=
  state.executed.Nodup ∧ state.reopened = []

def StillDelayed (state : ActivationState) : ActivationEvent → Prop
  | .process position _ _ _ =>
    ∀ event ∈ state.queue[position]?,
      ∀ row ∈ state.table.events, row.id = event.id → row.status = .delayed
  | _ => True

instance (state : ActivationState) (event : ActivationEvent) :
    Decidable (StillDelayed state event) :=
  match event with
  | .process position _ _ _ =>
    inferInstanceAs (Decidable (∀ event ∈ state.queue[position]?,
      ∀ row ∈ state.table.events, row.id = event.id → row.status = .delayed))
  | .maintenance _ _ _ _ | .close _ _ _ | .forceClose _ _ _ => inferInstanceAs (Decidable True)

structure Evolves (table next : EventTable) : Prop where
  rows : ∀ row ∈ next.events,
    row ∈ table.events ∨ row.status = .closed ∨ table.nextId ≤ row.id
  kept : ∀ row ∈ table.events, ∃ later ∈ next.events, later.id = row.id
  grows : table.nextId ≤ next.nextId

variable {table : EventTable} {classes : Classes} {state : ActivationState}

namespace Evolves

variable {between next : EventTable}

theorem refl (table : EventTable) : Evolves table table where
  rows := fun _ member => .inl member
  kept := fun row member => ⟨row, member, rfl⟩
  grows := le_rfl

theorem trans (first : Evolves table between) (second : Evolves between next) :
    Evolves table next where
  rows := by
    intro row member
    rcases second.rows row member with old | closed | new
    · exact first.rows row old
    · exact .inr (.inl closed)
    · exact .inr (.inr (first.grows.trans new))
  kept := by
    intro row member
    obtain ⟨later, present, same⟩ := first.kept row member
    obtain ⟨last, remaining, equal⟩ := second.kept later present
    exact ⟨last, remaining, equal.trans same⟩
  grows := first.grows.trans second.grows

theorem forceClose (table : EventTable) (now : Nat) (device : Device) (kind : Nat) :
    Evolves table (table.securityEventForceClose now device kind) where
  rows := by
    intro row member
    obtain ⟨old, present, rfl⟩ := EventTable.mem_forceClose_iff.mp member
    rcases EventTable.closeRow_cases now device kind old with left | closed
    · rw [left]
      exact .inl present
    · exact .inr (.inl closed)
  kept := by
    intro row member
    exact ⟨_, mem_map_of_mem member, EventTable.closeRow_id now device kind row⟩
  grows := le_rfl

theorem insert (table : EventTable) (device : Device) (kind startDate : Nat)
    (releaseDate : Option Nat) (status : EventStatus) :
    Evolves table (table.insert device kind startDate releaseDate status) where
  rows := by
    intro row member
    rcases mem_append.mp member with old | new
    · exact .inl old
    · rw [mem_singleton.mp new]
      exact .inr (.inr le_rfl)
  kept := fun row member => ⟨row, mem_append_left _ member, rfl⟩
  grows := Nat.le_succ _

theorem of_changes (changes : Changes table next) : Evolves table next := by
  refine keeps_of_changes ?_ ?_ changes (refl table)
  · intro between now device kind evolves
    exact evolves.trans (forceClose between now device kind)
  · intro _ cleared _ _ device kind _ evolves _ startDate releaseDate status
    exact evolves.trans (insert cleared device kind startDate releaseDate status)

end Evolves

/-- What the history says about the rows, in every state. -/
structure Tracked (state : ActivationState) : Prop where
  executed : ∀ row ∈ state.table.events, row.id ∈ state.executed → row.status ≠ .delayed
  known : ∀ id ∈ state.executed, id < state.table.nextId
  queued : ∀ event ∈ state.queue, ∃ row ∈ state.table.events, row.id = event.id
  opened : ∀ event ∈ state.queue, ∀ row ∈ state.table.events, row.id = event.id →
    row.status = .opened → event.id ∈ state.executed

variable {event : ActivationEvent}

namespace Tracked

variable {next : ActivationState}

theorem waiting (table : EventTable) : Tracked (SecurityEvent.waiting table) where
  executed := fun _ _ member => absurd member not_mem_nil
  known := fun _ member => absurd member not_mem_nil
  queued := fun _ member => absurd member not_mem_nil
  opened := fun _ member => absurd member not_mem_nil

section

variable (tracked : Tracked state)

include tracked

theorem evolve (evolves : Evolves state.table table) : Tracked { state with table } where
  executed := by
    intro row member ran
    rcases evolves.rows row member with old | closed | new
    · exact tracked.executed row old ran
    · rw [closed]
      decide
    · exact absurd (tracked.known row.id ran) new.not_gt
  known := fun id member => (tracked.known id member).trans_le evolves.grows
  queued := by
    intro event waits
    obtain ⟨row, member, same⟩ := tracked.queued event waits
    obtain ⟨later, present, equal⟩ := evolves.kept row member
    exact ⟨later, present, equal.trans same⟩
  opened := by
    intro event waits row member same isOpen
    rcases evolves.rows row member with old | closed | new
    · exact tracked.opened event waits row old same isOpen
    · rw [closed] at isOpen
      cases isOpen
    · obtain ⟨known, present, equal⟩ := tracked.queued event waits
      have before := state.table.fresh known present
      rw [equal, ← same] at before
      exact absurd before new.not_gt

theorem notify {events : List Event}
    (delayed : ∀ event ∈ events, event ∈ state.table.events ∧ event.status = .delayed) :
    Tracked { state with queue := state.queue ++ events } where
  executed := tracked.executed
  known := tracked.known
  queued := by
    intro event waits
    rcases mem_append.mp waits with before | new
    · exact tracked.queued event before
    · exact ⟨event, (delayed event new).1, rfl⟩
  opened := by
    intro event waits row member same isOpen
    rcases mem_append.mp waits with before | new
    · exact tracked.opened event before row member same isOpen
    · obtain ⟨present, status⟩ := delayed event new
      rw [state.table.eq_of_id member present same, status] at isOpen
      cases isOpen

theorem modify {event : Event} (waits : event ∈ state.queue)
    (now position : Nat) (reopened : List Nat) :
    Tracked ⟨state.table.securityEventModify classes now event.id,
      state.queue.eraseIdx position, event.id :: state.executed, reopened⟩ where
  executed := by
    intro row member ran
    obtain ⟨old, present, rfl⟩ := mem_map.mp member
    by_cases same : old.id = event.id
    · rw [openRow, if_pos same]
      simp
    · rw [openRow, if_neg same] at ran ⊢
      exact tracked.executed old present ((mem_cons.mp ran).resolve_left same)
  known := by
    intro id member
    rcases mem_cons.mp member with rfl | before
    · obtain ⟨row, present, same⟩ := tracked.queued event waits
      rw [← same]
      exact state.table.fresh row present
    · exact tracked.known id before
  queued := by
    intro other remains
    obtain ⟨row, present, same⟩ := tracked.queued other ((eraseIdx_sublist _ _).subset remains)
    exact ⟨_, mem_map_of_mem present, (openRow_id classes now event.id row).trans same⟩
  opened := by
    intro other remains row member isRow isOpen
    obtain ⟨old, present, rfl⟩ := mem_map.mp member
    by_cases same : old.id = event.id
    · rw [openRow_id] at isRow
      rw [← isRow, same]
      exact mem_cons_self
    · rw [openRow, if_neg same] at isRow isOpen
      exact mem_cons_of_mem _
        (tracked.opened other ((eraseIdx_sublist _ _).subset remains) old present isRow isOpen)

theorem step (stepped : (activation classes).step? state event = some next) : Tracked next := by
  cases event with
  | maintenance tenant batch processed pass =>
    obtain ⟨table, ran, rfl⟩ := map_eq_some_iff.mp stepped
    have delayed : ∀ event ∈ pass.notified tenant batch processed state.table,
        event ∈ state.table.events ∧ event.status = .delayed := by
      intro event member
      obtain ⟨selected, isDelayed⟩ := mem_filter.mp member
      have visited := mem_filter.mp ((take_sublist _ _).subset selected)
      exact ⟨(pass.scan.perm _).mem_iff.mp visited.1, of_decide_eq_true isDelayed⟩
    exact (tracked.notify delayed).evolve (.of_changes (changes_closeExpired classes ran))
  | close now device kind =>
    cases stepped
    exact tracked.evolve (.of_changes (changes_securityEventClose classes now _ device kind))
  | forceClose now device kind =>
    cases stepped
    exact tracked.evolve (.forceClose _ now device kind)
  | process position now depth world =>
    simp only [activation, ActivationState.process?] at stepped
    split at stepped
    · cases stepped
    next event found =>
      obtain ⟨table, ran, rfl⟩ := map_eq_some_iff.mp stepped
      have adds := addsByChanges_securityEventAdd classes now event.device depth
      exact (tracked.modify (mem_of_getElem? found) now position _).evolve
        (.of_changes (changes_actionExecute adds ran))

end

theorem of_reaches {allowed : ActivationState → ActivationEvent → Prop}
    (reached : (activation classes).Reaches allowed (SecurityEvent.waiting table) state) :
    Tracked state :=
  reached.invariant (.waiting table) fun _ _ _ tracked _ stepped => tracked.step stepped

end Tracked

variable {next : ActivationState} {position now depth : Nat} {world : World}

theorem process?_spec (ran : state.process? classes position now depth world = some next) :
    ∃ event, state.queue[position]? = some event ∧
      next.executed = event.id :: state.executed ∧
      next.reopened =
        if state.table.isClosed event.id then event.id :: state.reopened else state.reopened := by
  unfold ActivationState.process? at ran
  split at ran
  · cases ran
  next event found =>
    obtain ⟨table, _, rfl⟩ := map_eq_some_iff.mp ran
    exact ⟨event, found, rfl, rfl⟩

theorem isClosed_iff {row : Event} (member : row ∈ table.events) :
    table.isClosed row.id = true ↔ row.status = .closed := by
  simp only [EventTable.isClosed, List.any_eq_true, Bool.and_eq_true, decide_eq_true_eq]
  constructor
  · rintro ⟨other, present, same, closed⟩
    rwa [← table.eq_of_id present member same]
  · intro closed
    exact ⟨row, member, rfl, closed⟩

/-- A notification is processed once, for a row that is not closed, exactly if the row is
still delayed: an open row was opened by an earlier notification. -/
theorem activatedOnce_process_iff (tracked : Tracked state) (once : ActivatedOnce state)
    (ran : state.process? classes position now depth world = some next) :
    ActivatedOnce next ↔ StillDelayed state (.process position now depth world) := by
  obtain ⟨event, found, executed, reopened⟩ := process?_spec ran
  have waits := mem_of_getElem? found
  obtain ⟨row, member, same⟩ := tracked.queued event waits
  have still : StillDelayed state (.process position now depth world) ↔ row.status = .delayed := by
    constructor
    · intro all
      exact all event found row member same
    · intro delayed other isEvent isRow present isOther
      obtain rfl := Option.some.inj (found.symm.trans isEvent)
      rwa [state.table.eq_of_id present member (isOther.trans same.symm)]
  rw [still, ActivatedOnce, executed, reopened, nodup_cons, ← same]
  cases status : row.status with
  | delayed =>
    have fresh : row.id ∉ state.executed := fun ran => tracked.executed row member ran status
    have notClosed : ¬ state.table.isClosed row.id = true := by
      rw [isClosed_iff member, status]
      decide
    simp [fresh, notClosed, once.1, once.2]
  | closed =>
    have closed : state.table.isClosed row.id = true := (isClosed_iff member).mpr status
    simp [closed]
  | opened =>
    have before := tracked.opened event waits row member same status
    rw [← same] at before
    simp [before]

theorem activatedOnce_step_iff (tracked : Tracked state) (once : ActivatedOnce state)
    (stepped : (activation classes).step? state event = some next) :
    ActivatedOnce next ↔ StillDelayed state event := by
  cases event with
  | process position now depth world => exact activatedOnce_process_iff tracked once stepped
  | maintenance tenant batch processed pass =>
    obtain ⟨table, _, rfl⟩ := map_eq_some_iff.mp stepped
    exact ⟨fun _ => trivial, fun _ => once⟩
  | _ =>
    cases stepped
    exact ⟨fun _ => trivial, fun _ => once⟩

/-- As long as every notification found its event delayed, all events were activated once;
the next step keeps this exactly if it does not process a notification of an event that
is not delayed any more. -/
theorem delayed_event_activated_once_iff (classes : Classes) (table : EventTable)
    {state : ActivationState}
    (reached : (activation classes).Reaches StillDelayed (waiting table) state) :
    ActivatedOnce state ∧ ∀ event next, (activation classes).step? state event = some next →
      (ActivatedOnce next ↔ StillDelayed state event) := by
  have once : ActivatedOnce state := by
    induction reached with
    | refl => exact ⟨nodup_nil, rfl⟩
    | step before still stepped ih =>
      exact (activatedOnce_step_iff (.of_reaches before) ih stepped).mpr still
  exact ⟨once, fun _ _ stepped => activatedOnce_step_iff (.of_reaches reached) once stepped⟩

namespace Scenario

def hourly : Classes := fun _ => some
  { autoEnable := true, maxEnables := 0, gracePeriod := 0, window := .seconds 3600,
    vclose := none, delayBy := 10, actions := [.reevaluateAccess] }

def delayedEvent : Event := ⟨1, 1, ['a'], 3, 0, some 10, .delayed⟩

def oneDelayed : EventTable := ⟨[delayedEvent], 2, by decide, List.nodup_singleton _⟩

def maintained (now : Nat) : ActivationEvent :=
  .maintenance 1 100 [] ⟨now, .inOrder, 1, fun _ => .idle⟩

def processed (now : Nat) : ActivationEvent := .process 0 now 1 fun _ => .idle

end Scenario

open Scenario

theorem delayed_event_activated_once_in_time :
    ∃ state, (activation hourly).replay? (fun state event => decide (StillDelayed state event))
        (waiting oneDelayed) [maintained 10, processed 20, maintained 4000] = some state ∧
      ActivatedOnce state ∧ state.executed = [1] := by
  obtain ⟨state, replayed, executed⟩ := map_eq_some_iff.mp
    (show ((activation hourly).replay? (fun state event => decide (StillDelayed state event))
      (waiting oneDelayed) [maintained 10, processed 20, maintained 4000]).map
        ActivationState.executed = some [1] by decide)
  have reached : (activation hourly).Reaches StillDelayed (waiting oneDelayed) state :=
    Machine.reaches_of_checked (fun _ _ => of_decide_eq_true) replayed
  exact ⟨state, replayed, (delayed_event_activated_once_iff hourly oneDelayed reached).1, executed⟩

/-- Two runs of the maintenance before the worker, and a close before it. -/
theorem delayed_event_activated_twice_or_reopened :
    (∃ state, (activation hourly).Reaches Machine.anyEvent (waiting oneDelayed) state ∧
      state.executed = [1, 1]) ∧
    ∃ state, (activation hourly).Reaches Machine.anyEvent (waiting oneDelayed) state ∧
      state.reopened = [1] ∧ state.table.events.map Event.status = [.opened] := by
  constructor
  · obtain ⟨state, replayed, executed⟩ := map_eq_some_iff.mp
      (show ((activation hourly).replay? (fun _ _ => true) (waiting oneDelayed)
        [maintained 10, maintained 70, processed 80, processed 81]).map
          ActivationState.executed = some [1, 1] by decide)
    exact ⟨state, Machine.reaches_anyEvent_of_replay? replayed .refl, executed⟩
  · obtain ⟨state, replayed, result⟩ := map_eq_some_iff.mp
      (show ((activation hourly).replay? (fun _ _ => true) (waiting oneDelayed)
        [maintained 10, .forceClose 15 ⟨1, ['a']⟩ 3, processed 20]).map
          (fun state => (state.reopened, state.table.events.map Event.status)) =
            some ([1], [.opened]) by decide)
    obtain ⟨reopened, statuses⟩ := Prod.mk.inj result
    exact ⟨state, Machine.reaches_anyEvent_of_replay? replayed .refl, reopened, statuses⟩

/-- Only a delayed event that runs is changed otherwise than closed. -/
theorem evolves_of_reaches (classes : Classes) {first : EventTable}
    (reached : (calls classes).Reaches (fun _ event => event.1.isRunDelayed = false) first table) :
    Evolves first table :=
  reached.invariant (.refl first) fun _ _ _ evolves other ran =>
    evolves.trans (.of_changes (changes_run other ran))

theorem evolves_forceClose :
    ∃ table, (calls hourly).step? oneDelayed (.forceClose ⟨1, ['a']⟩ 3, .quiet 1) = some table ∧
      Evolves oneDelayed table := by
  have ran : (calls hourly).step? oneDelayed (.forceClose ⟨1, ['a']⟩ 3, .quiet 1) = some _ := rfl
  exact ⟨_, ran, evolves_of_reaches hourly (.step .refl rfl ran)⟩

end PacketFence.SecurityEvent
