import PacketFence.Foundations.Machine
import PacketFence.Foundations.OrderBy
import PacketFence.SecurityEvent.Tables

/-!
# The life of a security event

An event is added to a device as open or as delayed. Opening it executes the
actions of its class, which may close events and, by registering the device, add
further ones. The maintenance closes open events after their release date; for
a delayed event it only sends a notification, and the worker that receives it
opens the event.

What the code asks outside of the table is answered by a `World`. An added event
may add others, so the answers are indexed by the path of the calls, and the depth
of the calls is bounded by a number: a call that needs more has not returned.
-/

namespace PacketFence.SecurityEvent

open Foundations Lexing List

def scanSecurityEventId : Nat := 1200001

def postScanSecurityEventId : Nat := 1200004

def preScanSecurityEventId : Nat := 1200005

def parkingSecurityEventId : Nat := 1300003

def isScan (kind : Nat) : Bool :=
  kind == scanSecurityEventId || kind == postScanSecurityEventId || kind == preScanSecurityEventId

inductive Action where
  | autoreg
  | unreg
  | emailUser
  | emailAdmin
  | emailRecipient
  | reevaluateAccess
  | log
  | external
  | close
  | role
  | enforceProvisioning
  deriving DecidableEq

/-- The place of an action in the descending order of the names. -/
def Action.position : Action → Nat
  | .unreg => 0
  | .role => 1
  | .reevaluateAccess => 2
  | .log => 3
  | .external => 4
  | .enforceProvisioning => 5
  | .emailUser => 6
  | .emailRecipient => 7
  | .emailAdmin => 8
  | .close => 9
  | .autoreg => 10

inductive Window where
  /-- the text `0` -/
  | unlimited
  | dynamic
  | seconds (count : Nat)

/-- What the life of an event reads of its class. -/
structure ClassSettings where
  autoEnable : Bool
  maxEnables : Nat
  gracePeriod : Nat
  window : Window
  vclose : Option Nat
  delayBy : Nat
  actions : List Action

abbrev Classes := Nat → Option ClassSettings

def Classes.actions (classes : Classes) (kind : Nat) : List Action :=
  match classes kind with
  | none => []
  | some settings => settings.actions

structure Device where
  tenantId : Nat
  mac : Text
  deriving DecidableEq

namespace Event

def device (event : Event) : Device :=
  ⟨event.tenantId, event.mac⟩

def isOf (device : Device) (kind : Nat) (event : Event) : Bool :=
  event.device = device && event.securityEventId == kind

def isOpen (device : Device) (event : Event) : Bool :=
  event.device = device && event.status = .opened

def opens (device : Device) (kind : Nat) (event : Event) : Bool :=
  event.isOf device kind && event.status = .opened

end Event

/-- The rows of `security_event`, with the next value of the column `id`. -/
structure EventTable where
  events : List Event
  nextId : Nat
  fresh : ∀ event ∈ events, event.id < nextId
  distinct : (events.map Event.id).Nodup

namespace EventTable

def empty : EventTable := ⟨[], 1, fun _ absent => absurd absent not_mem_nil, nodup_nil⟩

def update (table : EventTable) (change : Event → Event)
    (keeps : ∀ event, (change event).id = event.id) : EventTable where
  events := table.events.map change
  nextId := table.nextId
  fresh := by
    intro event member
    obtain ⟨old, present, rfl⟩ := mem_map.mp member
    rw [keeps]
    exact table.fresh old present
  distinct := by
    have same : Event.id ∘ change = Event.id := funext keeps
    rw [map_map, same]
    exact table.distinct

def insert (table : EventTable) (device : Device) (kind startDate : Nat)
    (releaseDate : Option Nat) (status : EventStatus) : EventTable where
  events := table.events ++
    [⟨table.nextId, device.tenantId, device.mac, kind, startDate, releaseDate, status⟩]
  nextId := table.nextId + 1
  fresh := by
    intro event member
    rcases mem_append.mp member with old | new
    · exact Nat.lt_succ_of_lt (table.fresh event old)
    · rw [mem_singleton.mp new]
      exact Nat.lt_succ_self _
  distinct := by
    rw [map_append, nodup_append]
    refine ⟨table.distinct, nodup_singleton _, ?_⟩
    intro old present new added same
    obtain ⟨event, member, rfl⟩ := mem_map.mp present
    rw [map_singleton, mem_singleton] at added
    exact absurd (same.trans added) (table.fresh event member).ne

def closeRow (now : Nat) (device : Device) (kind : Nat) (event : Event) : Event :=
  if event.isOf device kind && event.status ≠ .closed then
    { event with status := .closed, releaseDate := some now }
  else
    event

@[simp] theorem closeRow_id (now : Nat) (device : Device) (kind : Nat) (event : Event) :
    (closeRow now device kind event).id = event.id := by
  unfold closeRow
  split <;> rfl

variable (table : EventTable)

/-- Open and delayed events of the device and kind are closed alike. -/
def securityEventForceClose (now : Nat) (device : Device) (kind : Nat) : EventTable :=
  table.update (closeRow now device kind) (closeRow_id now device kind)

def securityEventExistOpen (scan : Scan Event) (device : Device) (kind : Nat) : Option Event :=
  (scan.order table.events).find? (Event.opens device kind)

def latestOpen (scan : Scan Event) (device : Device) : Option Event :=
  scan.firstBy (fun event => OrderDual.toDual event.startDate) (Event.isOpen device) table.events

def securityEventGrace (classes : Classes) (scan : Scan Event) (now : Nat)
    (device : Device) (kind : Nat) : Int :=
  -- the join with `class` has no row of a kind without a class
  match classes kind with
  | none => 0
  | some settings =>
    match scan.firstBy (fun event => OrderDual.toDual event.startDate)
      (fun event => event.isOf device kind && event.status = .closed) table.events with
    | none => 0
    | some event => event.startDate + settings.gracePeriod - now

def securityEventCountSecurityEventId (device : Device) (kind : Nat) : Nat :=
  table.events.countP (Event.isOf device kind)

def securityEventClose (classes : Classes) (now : Nat) (device : Device)
    (kind : Nat) : EventTable :=
  match classes kind with
  | none => table.securityEventForceClose now device kind
  | some settings =>
    if settings.autoEnable = false then
      table
    else if table.securityEventCountSecurityEventId device kind ≤ settings.maxEnables ∨
        settings.maxEnables = 0 then
      table.securityEventForceClose now device kind
    else
      table

end EventTable

/-- How far a new event gets before the grace period is looked at. -/
inductive Admission where
  /-- an open event is kept instead -/
  | ignored (id : Nat)
  | cleared (table : EventTable)

/-- An event of the same kind keeps a new one out, and any open event keeps a host
scan out; a host scan makes way for any other event. -/
def EventTable.admission (table : EventTable) (scan : Scan Event) (now : Nat) (device : Device)
    (kind : Nat) : Admission :=
  match table.securityEventExistOpen scan device kind with
  | some event => .ignored event.id
  | none =>
    match table.latestOpen scan device with
    | none => .cleared table
    | some latest =>
      if isScan kind then
        .ignored latest.id
      else if isScan latest.securityEventId then
        .cleared (table.securityEventForceClose now device latest.securityEventId)
      else
        .cleared table

/-- What `security_event_add` returns: 0, -1, or the id of an event. -/
inductive Added where
  | failed
  | grace
  | event (id : Nat)
  deriving DecidableEq

structure Request where
  kind : Nat
  startDate : Nat
  releaseDate : Option Nat
  status : EventStatus
  force : Bool

/-- The data without any that is given. -/
def Request.default (now kind : Nat) : Request :=
  ⟨kind, now, none, .opened, false⟩

/-- A kind the filter engine has matched, and what is known of it. -/
structure Triggered where
  kind : Nat
  whitelisted : Bool
  registered : Bool
  /-- the end of the interval of an accounting trigger -/
  intervalEnd : Option Nat

/-- What one call finds outside of the table. -/
structure Answers where
  scan : Scan Event
  nodeExists : Bool
  inserts : Bool
  /-- the device is not registered, and registering it succeeds -/
  registers : Bool
  registrationScanners : Bool
  postRegistrationScanners : Bool
  /-- what the scanners that run at the registration trigger -/
  findings : List Triggered
  /-- what an enforcing provisioner triggers when the access is reevaluated -/
  provisioning : List Triggered
  /-- the event a provisioner that is asked raises for a device that does not comply -/
  nonCompliance : Option Nat
  unauthorized : Bool

/-- The device is known and stays as it is. -/
def Answers.idle : Answers where
  scan := .inOrder
  nodeExists := true
  inserts := true
  registers := false
  registrationScanners := false
  postRegistrationScanners := false
  findings := []
  provisioning := []
  nonCompliance := none
  unauthorized := false

abbrev World := List Nat → Answers

/-- The answers to a call made by this one. -/
def World.within (world : World) (call : Nat) : World :=
  fun path => world (call :: path)

section Calls

variable (classes : Classes) (now : Nat) (device : Device)
  (add : World → Request → EventTable → Option (EventTable × Added))

def triggerReleaseDate (settings : ClassSettings) (triggered : Triggered) : Option Nat :=
  match settings.window with
  | .seconds count => some (now + count)
  | .dynamic => triggered.intervalEnd
  | .unlimited => none

def triggerRequest (triggered : Triggered) : Request :=
  match classes triggered.kind with
  | none => Request.default now triggered.kind
  | some settings =>
    if settings.delayBy ≠ 0 then
      ⟨triggered.kind, now, some (now + settings.delayBy), .delayed, false⟩
    else
      ⟨triggered.kind, now, triggerReleaseDate now settings triggered, .opened, false⟩

variable (world : World)

/-- One turn of the loop of `security_event_trigger`. -/
def triggerKind (triggered : Triggered) (table : EventTable) : Option EventTable :=
  if triggered.whitelisted then
    some table
  else if (table.securityEventExistOpen (world []).scan device triggered.kind).isSome then
    some table
  else if 0 < table.securityEventGrace classes (world []).scan now device triggered.kind then
    some table
  else if .autoreg ∈ classes.actions triggered.kind ∧ triggered.registered then
    some table
  else
    (add world (triggerRequest classes now triggered) table).map Prod.fst

def securityEventTrigger (world : World) : List Triggered → EventTable → Option EventTable
  | [], table => some table
  | triggered :: rest, table =>
    (triggerKind classes now device add (world.within 0) triggered table).bind
      (securityEventTrigger (world.within 1) rest)

/-- `trigger_scan` at a registration: the scanners also run when the event of the scan
was kept out by another one. -/
def triggerScan (table : EventTable) : Option EventTable :=
  (add (world.within 0) (.default now scanSecurityEventId) table).bind fun result =>
    match result.2 with
    | .event _ =>
      securityEventTrigger classes now device add (world.within 1) (world []).findings result.1
    | _ => some result.1

def nodeRegister (table : EventTable) : Option EventTable :=
  let parked := table.securityEventForceClose now device parkingSecurityEventId
  let scanned :=
    if (world []).registrationScanners then
      triggerScan classes now device add (world.within 0) parked
    else
      some parked
  scanned.bind fun table =>
    if (world []).postRegistrationScanners then
      (add (world.within 1) (.default now postScanSecurityEventId) table).map Prod.fst
    else
      some table

/-- `reevaluate_access`, as far as it concerns the events. -/
def Enforcement.reevaluateAccess (table : EventTable) : Option EventTable :=
  securityEventTrigger classes now device add world (world []).provisioning table

def actionEnforceProvisioning (table : EventTable) : Option EventTable :=
  let raised := match (world []).nonCompliance with
    | none => some table
    | some other => (add (world.within 0) (.default now other) table).map Prod.fst
  raised.bind fun table =>
    if (world []).unauthorized then
      Enforcement.reevaluateAccess classes now device add (world.within 1) table
    else
      some table

def executeAction (kind : Nat) (table : EventTable) : Action → Option EventTable
  | .close =>
    match (classes kind).bind ClassSettings.vclose with
    | none => some table
    | some other =>
      Enforcement.reevaluateAccess classes now device add (world.within 2)
        (table.securityEventForceClose now device other)
  | .autoreg =>
    if (world []).registers then
      (nodeRegister classes now device add world table).bind
        (Enforcement.reevaluateAccess classes now device add (world.within 3))
    else
      some table
  | .reevaluateAccess => Enforcement.reevaluateAccess classes now device add (world.within 4) table
  | .enforceProvisioning => actionEnforceProvisioning classes now device add (world.within 5) table
  | _ => some table

def Classes.leavesOpen (classes : Classes) (kind : Nat) : Prop :=
  .reevaluateAccess ∈ classes.actions kind ∨ isScan kind

instance (kind : Nat) : Decidable (classes.leavesOpen kind) :=
  inferInstanceAs (Decidable (_ ∨ _))

def sortedActions (kind : Nat) : List Action :=
  (classes.actions kind).insertionSort fun first second => first.position ≤ second.position

def actionExecute (kind : Nat) (table : EventTable) : Option EventTable :=
  ((sortedActions classes kind).foldlM (executeAction classes now device add world kind) table).map
    fun table =>
      if classes.leavesOpen kind then table else table.securityEventForceClose now device kind

end Calls

section Functions

variable (classes : Classes) (now : Nat)

/-- The event is under the grace period of an earlier one and not forced. -/
def refusedByGrace (answers : Answers) (device : Device) (request : Request)
    (table : EventTable) : Prop :=
  answers.nodeExists ∧
    0 < table.securityEventGrace classes answers.scan now device request.kind ∧ ¬ request.force

instance (answers : Answers) (device : Device) (request : Request) (table : EventTable) :
    Decidable (refusedByGrace classes now answers device request table) :=
  inferInstanceAs (Decidable (_ ∧ _ ∧ _))

/-- The calls made by the actions of the new event are one level deeper. -/
def securityEventAdd (device : Device) : Nat → World → Request → EventTable →
    Option (EventTable × Added)
  | 0, _, _, _ => none
  | depth + 1, world, request, table =>
    if request.kind = 0 then
      some (table, .failed)
    else
      match table.admission (world []).scan now device request.kind with
      | .ignored id => some (table, .event id)
      | .cleared table =>
        if refusedByGrace classes now (world []) device request table then
          some (table, .grace)
        else if (world []).inserts then
          let inserted := table.insert device request.kind request.startDate
            request.releaseDate request.status
          if request.status = .opened then
            (actionExecute classes now device (securityEventAdd device depth) world
              request.kind inserted).map fun after => (after, .event table.nextId)
          else
            some (inserted, .event table.nextId)
        else
          some (table, .failed)

/-- What `security_event_modify` does to the row of a delayed event. -/
def openRow (id : Nat) (event : Event) : Event :=
  if event.id = id then
    { event with
      status := .opened
      releaseDate :=
        if event.status = .closed then
          none
        else
          match classes event.securityEventId with
          | none => event.releaseDate
          | some settings =>
            match settings.window with
            | .seconds count => some (now + count)
            | _ => none }
  else
    event

@[simp]
theorem openRow_id (id : Nat) (event : Event) : (openRow classes now id event).id = event.id := by
  unfold openRow
  split <;> rfl

def EventTable.securityEventModify (table : EventTable) (id : Nat) : EventTable :=
  table.update (openRow classes now id) (openRow_id classes now id)

/-- `_security_event_run_delayed`: the event is opened whatever became of its row since
it was read. -/
def runDelayedEvent (depth : Nat) (world : World) (event : Event) (table : EventTable) :
    Option EventTable :=
  actionExecute classes now event.device (securityEventAdd classes now event.device depth) world
    event.securityEventId (table.securityEventModify classes now event.id)

def securityEventRunDelayed (depth : Nat) (world : World) (id : Nat) (table : EventTable) :
    Option EventTable :=
  match table.events.find? (·.id = id) with
  | none => some table
  | some event => runDelayedEvent classes now depth world event table

end Functions

structure Pass where
  now : Nat
  scan : Scan Event
  depth : Nat
  world : World

def Event.expired (now tenant : Nat) (processed : List Nat) (event : Event) : Bool :=
  event.tenantId == tenant && event.status ≠ .closed && event.id ∉ processed &&
    match event.releaseDate with
    | none => false
    | some date => date ≤ now

def Pass.select (pass : Pass) (tenant batch : Nat) (processed : List Nat) (table : EventTable) :
    List Event :=
  ((pass.scan.order table.events).filter (Event.expired pass.now tenant processed)).take batch

/-- The rows whose delay is over, for which a notification is sent. -/
def Pass.notified (pass : Pass) (tenant batch : Nat) (processed : List Nat)
    (table : EventTable) : List Event :=
  (pass.select tenant batch processed table).filter fun event => event.status = .delayed

def Pass.closeExpired (classes : Classes) (pass : Pass) (table : EventTable) (event : Event) :
    Option EventTable :=
  if event.status = .delayed then
    some table
  else
    Enforcement.reevaluateAccess classes pass.now event.device
      (securityEventAdd classes pass.now event.device pass.depth) (pass.world.within event.id)
      (table.securityEventForceClose pass.now event.device event.securityEventId)

def Pass.run (classes : Classes) (pass : Pass) (tenant batch : Nat) (processed : List Nat)
    (table : EventTable) : Option EventTable :=
  (pass.select tenant batch processed table).foldlM (pass.closeExpired classes) table

/-- The passes there is time for; a query without rows is the last one. -/
def securityEventMaintenance (classes : Classes) (tenant batch : Nat) :
    List Pass → List Nat → EventTable → Option EventTable
  | [], _, table => some table
  | pass :: rest, processed, table =>
    if pass.select tenant batch processed table = [] then
      some table
    else
      (pass.run classes tenant batch processed table).bind
        (securityEventMaintenance classes tenant batch rest
          (processed ++ (pass.notified tenant batch processed table).map Event.id))

inductive Call where
  | trigger (device : Device) (triggered : List Triggered)
  | add (device : Device) (request : Request)
  | runDelayed (id : Nat)
  | close (device : Device) (kind : Nat)
  | forceClose (device : Device) (kind : Nat)
  | maintenance (tenant batch : Nat)

/-- When a call is made, and what it finds outside of the table. -/
structure Surroundings where
  now : Nat
  depth : Nat
  world : World
  passes : List Pass

/-- A time at which nothing happens outside. -/
def Surroundings.quiet (now : Nat) : Surroundings := ⟨now, 1, fun _ => .idle, []⟩

def Call.run (classes : Classes) (surroundings : Surroundings) (table : EventTable) :
    Call → Option EventTable
  | .trigger device triggered =>
    securityEventTrigger classes surroundings.now device
      (securityEventAdd classes surroundings.now device surroundings.depth) surroundings.world
      triggered table
  | .add device request =>
    (securityEventAdd classes surroundings.now device surroundings.depth surroundings.world
      request table).map Prod.fst
  | .runDelayed id =>
    securityEventRunDelayed classes surroundings.now surroundings.depth surroundings.world id
      table
  | .close device kind => some (table.securityEventClose classes surroundings.now device kind)
  | .forceClose device kind => some (table.securityEventForceClose surroundings.now device kind)
  | .maintenance tenant batch =>
    securityEventMaintenance classes tenant batch surroundings.passes [] table

def calls (classes : Classes) : Machine EventTable (Call × Surroundings) where
  step? := fun table event => event.1.run classes event.2 table

end PacketFence.SecurityEvent
