import PacketFence.Foundations.Census
import PacketFence.SecurityEvent.Changes

/-!
# One open event of a kind

An event is only admitted when the device has no open event of the same kind, so
the changes keep at most one of them open. The run of a delayed event opens its
row without a look at the others: two rows of the same kind can wait next to each
other, or next to an open one, and are both opened. It is harmless exactly when no
other row of the kind is open or when the actions of the kind close it again.
-/

namespace PacketFence.SecurityEvent

open Foundations List Option EventTable ClassSettings

def EventTable.AtMostOne (table : EventTable) (device : Device) (kind : Nat) : Prop :=
  ∀ first ∈ table.events, ∀ second ∈ table.events,
    first.opens device kind = true → second.opens device kind = true → first = second

def SingleOpen (table : EventTable) : Prop :=
  ∀ device kind, table.events.countP (Event.opens device kind) ≤ 1

variable {table next : EventTable} {device : Device} {kind now : Nat} {world : World}

theorem singleOpen_iff : SingleOpen table ↔ ∀ device kind, table.AtMostOne device kind :=
  forall₂_congr fun _ _ => countP_le_one_iff (List.Nodup.of_map _ table.distinct)

theorem EventTable.AtMostOne.forceClose (single : table.AtMostOne device kind) (now : Nat)
    (other : Device) (otherKind : Nat) :
    (table.securityEventForceClose now other otherKind).AtMostOne device kind := by
  intro first member second present isOpen also
  exact single first (mem_of_mem_forceClose member (opens_iff.mp isOpen).2.2)
    second (mem_of_mem_forceClose present (opens_iff.mp also).2.2) isOpen also

theorem atMostOne_forceClose (table : EventTable) (now : Nat) (device : Device) (kind : Nat) :
    (table.securityEventForceClose now device kind).AtMostOne device kind := by
  intro first member _ _ isOpen
  have opened := (opens_iff.mp isOpen).2.2
  have untouched := not_isOf_of_mem_forceClose member opened
  simp [Event.opens, untouched] at isOpen

theorem EventTable.AtMostOne.insert (single : table.AtMostOne device kind) {other : Device}
    {otherKind startDate : Nat} {releaseDate : Option Nat} {status : EventStatus}
    (absent : ∀ event ∈ table.events, event.opens other otherKind = false) :
    (table.insert other otherKind startDate releaseDate status).AtMostOne device kind := by
  -- a new row that is open is the first one of its device and kind
  have alone : ∀ old ∈ table.events, ∀ new : Event, new.device = other →
      new.securityEventId = otherKind → new.opens device kind = true →
        old.opens device kind = false := by
    intro old member new same sameKind isOpen
    obtain ⟨rfl, rfl, _⟩ := opens_iff.mp isOpen
    rw [same, sameKind]
    exact absent old member
  intro first member second present isOpen also
  rcases mem_append.mp member with old | new
  · rcases mem_append.mp present with older | newer
    · exact single first old second older isOpen also
    · obtain rfl := mem_singleton.mp newer
      rw [alone first old _ rfl rfl also] at isOpen
      cases isOpen
  · obtain rfl := mem_singleton.mp new
    rcases mem_append.mp present with older | newer
    · rw [alone second older _ rfl rfl isOpen] at also
      cases also
    · exact (mem_singleton.mp newer).symm

theorem EventTable.AtMostOne.changes (single : table.AtMostOne device kind)
    (changes : Changes table next) : next.AtMostOne device kind := by
  refine @keeps_of_changes _ _ (fun table => table.AtMostOne device kind) ?_ ?_ changes single
  · intro table now other otherKind single
    exact single.forceClose now other otherKind
  · intro table cleared scan now other otherKind _ single admitted startDate releaseDate status
    exact single.insert (absent_of_admission admitted)

/-- The actions of the kind close its events, whatever is found outside. -/
def Classes.closesItself (classes : Classes) (kind : Nat) : Prop :=
  ¬ classes.leavesOpen kind ∨
    (.close ∈ classes.actions kind ∧ (classes kind).bind vclose = some kind)

instance (classes : Classes) (kind : Nat) : Decidable (classes.closesItself kind) :=
  inferInstanceAs (Decidable (_ ∨ _))

section Actions

variable {classes : Classes} {add : World → Request → EventTable → Option (EventTable × Added)}
  {action : Action} {actions : List Action}

theorem mem_sortedActions_iff :
    action ∈ sortedActions classes kind ↔ action ∈ classes.actions kind := mem_insertionSort _

theorem atMostOne_of_close_mem (adds : AddsByChanges add)
    (itself : (classes kind).bind vclose = some kind)
    (closes : .close ∈ actions)
    (ran : actions.foldlM (executeAction classes now device add world kind) table = some next) :
    next.AtMostOne device kind := by
  induction actions generalizing table with
  | nil => cases closes
  | cons action rest ih =>
    obtain ⟨between, head, tail⟩ := bind_eq_some_iff.mp ran
    rcases mem_cons.mp closes with rfl | later
    · simp only [executeAction, itself] at head
      exact (atMostOne_forceClose table now device kind).changes
        ((changes_trigger adds head).trans (changes_executeActions adds tail))
    · exact ih later tail

theorem atMostOne_of_closesItself (adds : AddsByChanges add) (closes : classes.closesItself kind)
    (ran : actionExecute classes now device add world kind table = some next) :
    next.AtMostOne device kind := by
  obtain ⟨between, executed, rfl⟩ := map_eq_some_iff.mp ran
  rcases closes with closed | ⟨named, itself⟩
  · rw [if_neg closed]
    exact atMostOne_forceClose between now device kind
  · have single := atMostOne_of_close_mem adds itself (mem_sortedActions_iff.mpr named) executed
    split
    · exact single
    · exact single.forceClose now device kind

/-- Where nothing happens outside, an action that closes other kinds leaves the open events
of this one. -/
theorem executeAction_keeps (other : (classes kind).bind vclose ≠ some kind ∨
      .close ∉ classes.actions kind) (listed : action ∈ classes.actions kind) :
    ∃ next, executeAction classes now device add (fun _ => .idle) kind table action = some next ∧
      ∀ event ∈ table.events, event.opens device kind = true → event ∈ next.events := by
  unfold executeAction
  split
  · split
    · exact ⟨table, rfl, fun _ member _ => member⟩
    next closed named =>
      have different : closed ≠ kind := by
        rintro rfl
        rcases other with elsewhere | absent
        · exact elsewhere named
        · exact absent listed
      refine ⟨_, rfl, fun event member isOpen => ?_⟩
      refine mem_forceClose_iff.mpr ⟨event, member, ?_⟩
      have unconcerned : event.isOf device closed = false := by
        obtain ⟨_, same, _⟩ := opens_iff.mp isOpen
        simp [Event.isOf, same, different.symm]
      simp [closeRow, unconcerned]
  all_goals exact ⟨table, rfl, fun _ member _ => member⟩

theorem executeActions_keeps (other : (classes kind).bind vclose ≠ some kind ∨
      .close ∉ classes.actions kind) (listed : ∀ action ∈ actions, action ∈ classes.actions kind) :
    ∃ next, actions.foldlM (executeAction classes now device add (fun _ => .idle) kind) table =
      some next ∧ ∀ event ∈ table.events, event.opens device kind = true → event ∈ next.events := by
  induction actions generalizing table with
  | nil => exact ⟨table, rfl, fun _ member _ => member⟩
  | cons action rest ih =>
    obtain ⟨first, others⟩ := forall_mem_cons.mp listed
    obtain ⟨between, head, kept⟩ : ∃ between,
        executeAction classes now device add (fun _ => .idle) kind table action = some between ∧
          ∀ event ∈ table.events, event.opens device kind = true → event ∈ between.events :=
      executeAction_keeps other first
    obtain ⟨next, tail, remaining⟩ := @ih between others
    refine ⟨next, ?_, fun event member isOpen => ?_⟩
    · rw [foldlM_cons, head]
      exact tail
    · exact remaining event (kept event member isOpen) isOpen

theorem actionExecute_keeps (stays : ¬ classes.closesItself kind) :
    ∃ next, actionExecute classes now device add (fun _ => .idle) kind table = some next ∧
      ∀ event ∈ table.events, event.opens device kind = true → event ∈ next.events := by
  obtain ⟨left, notNamed⟩ := not_or.mp stays
  have other : (classes kind).bind vclose ≠ some kind ∨
      .close ∉ classes.actions kind := by
    by_contra both
    obtain ⟨named, listed⟩ := not_or.mp both
    exact notNamed ⟨not_not.mp listed, not_not.mp named⟩
  obtain ⟨next, executed, kept⟩ := executeActions_keeps other
    (fun _ listed => mem_sortedActions_iff.mp listed)
  refine ⟨next, ?_, kept⟩
  unfold actionExecute
  rw [executed, map_some, if_pos (not_not.mp left)]

end Actions

section RunDelayed

variable {classes : Classes} {depth : Nat} {id : Nat} {event : Event}

@[simp] theorem isOf_openRow :
    (openRow classes now id event).isOf device kind = event.isOf device kind := by
  unfold openRow
  split <;> rfl

theorem openRow_of_ne (other : event.id ≠ id) : openRow classes now id event = event := if_neg other

theorem opens_openRow (concerned : event.isOf device kind = true) (same : event.id = id) :
    (openRow classes now id event).opens device kind = true := by
  have opened : (openRow classes now id event).status = .opened := by rw [openRow, if_pos same]
  rw [Event.opens, isOf_openRow, concerned, opened]
  rfl

theorem isOf_of_opens (isOpen : event.opens device kind = true) :
    event.isOf device kind = true := (Bool.and_eq_true_iff.mp isOpen).1

theorem EventTable.AtMostOne.modify (single : table.AtMostOne device kind)
    (alone : ∀ event ∈ table.events, event.id = id → event.isOf device kind = true →
      ∀ other ∈ table.events, other.opens device kind = true → other.id = id) :
    (table.securityEventModify classes now id).AtMostOne device kind := by
  -- the row that is opened and an open row are never two
  have same : ∀ row ∈ table.events, row.id = id →
      (openRow classes now id row).opens device kind = true →
      ∀ other ∈ table.events, (openRow classes now id other).opens device kind = true →
        row = other := by
    intro row member isRow isOpen other present also
    by_cases isOther : other.id = id
    · exact table.eq_of_id member present (isRow.trans isOther.symm)
    · rw [openRow_of_ne isOther] at also
      have concerned := isOf_of_opens isOpen
      rw [isOf_openRow] at concerned
      exact absurd (alone row member isRow concerned other present also) isOther
  intro first member second present isOpen also
  obtain ⟨old, oldMember, rfl⟩ := mem_map.mp member
  obtain ⟨older, olderMember, rfl⟩ := mem_map.mp present
  by_cases isFirst : old.id = id
  · rw [same old oldMember isFirst isOpen older olderMember also]
  · by_cases isSecond : older.id = id
    · rw [same older olderMember isSecond also old oldMember isOpen]
    · rw [openRow_of_ne isFirst] at isOpen ⊢
      rw [openRow_of_ne isSecond] at also ⊢
      exact single old oldMember older olderMember isOpen also

/-- A row that waits may be opened: no other one of its kind is open, or its actions
close it again. -/
def EventTable.MayOpen (table : EventTable) (classes : Classes) (event : Event) : Prop :=
  classes.closesItself event.securityEventId ∨
    ∀ other ∈ table.events, other.opens event.device event.securityEventId = true →
      other.id = event.id

instance (table : EventTable) (classes : Classes) (event : Event) :
    Decidable (table.MayOpen classes event) :=
  inferInstanceAs (Decidable (_ ∨ _))

theorem atMostOne_runDelayedEvent (single : SingleOpen table) (member : event ∈ table.events)
    (may : table.MayOpen classes event)
    (ran : runDelayedEvent classes now depth world event table = some next) : SingleOpen next := by
  rw [singleOpen_iff] at single ⊢
  intro device kind
  have adds := addsByChanges_securityEventAdd classes now event.device depth
  by_cases concerned : event.isOf device kind = true
  · obtain ⟨rfl, rfl⟩ : event.device = device ∧ event.securityEventId = kind := by
      simpa [Event.isOf] using concerned
    rcases may with closes | alone
    · exact atMostOne_of_closesItself adds closes ran
    · refine ((single _ _).modify ?_).changes (changes_actionExecute adds ran)
      intro _ _ _ _ other present isOpen
      exact alone other present isOpen
  · refine ((single device kind).modify ?_).changes (changes_actionExecute adds ran)
    intro row present same isRow
    rw [table.eq_of_id present member same] at isRow
    exact absurd isRow concerned

theorem exists_not_singleOpen (now depth : Nat) (member : event ∈ table.events)
    (not : ¬ table.MayOpen classes event) :
    ∃ next, runDelayedEvent classes now depth (fun _ => .idle) event table = some next ∧
      ¬ SingleOpen next := by
  obtain ⟨stays, another⟩ := not_or.mp not
  obtain ⟨other, present, isOpen, different⟩ : ∃ other ∈ table.events,
      other.opens event.device event.securityEventId = true ∧ other.id ≠ event.id := by
    by_contra none
    refine another fun other present isOpen => ?_
    by_contra different
    exact none ⟨other, present, isOpen, different⟩
  obtain ⟨next, ran, kept⟩ : ∃ next,
      runDelayedEvent classes now depth (fun _ => .idle) event table = some next ∧
        ∀ row ∈ (table.securityEventModify classes now event.id).events,
          row.opens event.device event.securityEventId = true → row ∈ next.events :=
    actionExecute_keeps stays
  refine ⟨next, ran, fun single => ?_⟩
  have opened : (openRow classes now event.id event).opens event.device
      event.securityEventId = true := opens_openRow (by simp [Event.isOf]) rfl
  have first := kept _ (mem_map_of_mem member) opened
  have left : openRow classes now event.id other = other := openRow_of_ne different
  have second := kept _ (mem_map_of_mem present) (by rw [left]; exact isOpen)
  have equal := singleOpen_iff.mp single _ _ _ first _ second opened (by rw [left]; exact isOpen)
  have ids := congrArg Event.id equal
  rw [openRow_id, openRow_id] at ids
  exact different ids.symm

end RunDelayed

/-- A call opens no second event of a kind, whatever it finds outside. -/
def Harmless (classes : Classes) (table : EventTable) : Call → Prop
  | .runDelayed id => ∀ event ∈ table.events, event.id = id → table.MayOpen classes event
  | _ => True

instance (classes : Classes) (table : EventTable) (call : Call) :
    Decidable (Harmless classes table call) :=
  match call with
  | .runDelayed id =>
    inferInstanceAs (Decidable (∀ event ∈ table.events, event.id = id →
      table.MayOpen classes event))
  | .trigger _ _ | .add _ _ | .close _ _ | .forceClose _ _ | .maintenance _ _ =>
    inferInstanceAs (Decidable True)

section Runs

variable {classes : Classes} {surroundings : Surroundings} {call : Call}

theorem singleOpen_of_changes (single : SingleOpen table) (changes : Changes table next) :
    SingleOpen next := by
  rw [singleOpen_iff] at single ⊢
  intro device kind
  exact (single device kind).changes changes

theorem singleOpen_run (single : SingleOpen table) (harmless : Harmless classes table call)
    (ran : call.run classes surroundings table = some next) : SingleOpen next := by
  cases delayed : call.isRunDelayed with
  | false => exact singleOpen_of_changes single (changes_run delayed ran)
  | true =>
    cases call with
    | runDelayed id =>
      simp only [Call.run, securityEventRunDelayed] at ran
      split at ran
      · cases ran
        exact single
      next event found =>
        obtain ⟨member, same⟩ := find?_id_iff.mp found
        exact atMostOne_runDelayedEvent single member (harmless event member same) ran
    | _ => cases delayed

theorem exists_run_of_not_harmless (harmful : ¬ Harmless classes table call) :
    ∃ surroundings next, call.run classes surroundings table = some next ∧ ¬ SingleOpen next := by
  cases call with
  | runDelayed id =>
    obtain ⟨event, member, same, not⟩ : ∃ event ∈ table.events, event.id = id ∧
        ¬ table.MayOpen classes event := by simpa [Harmless] using harmful
    obtain ⟨next, ran, twice⟩ := exists_not_singleOpen 0 0 member not
    refine ⟨⟨0, 0, fun _ => .idle, []⟩, next, ?_, twice⟩
    have found : table.events.find? (·.id = id) = some event :=
      find?_id_iff.mpr ⟨member, same⟩
    simp only [Call.run, securityEventRunDelayed, found]
    exact ran
  | _ => exact absurd trivial harmful

end Runs

/-- As long as all calls were harmless the events are single, and the next call keeps them
so in all surroundings exactly if it is harmless. -/
theorem single_open_event_iff (classes : Classes) {first table : EventTable}
    (initially : SingleOpen first)
    (reached : (calls classes).Reaches (fun table event => Harmless classes table event.1)
      first table) :
    SingleOpen table ∧ ∀ call : Call,
      (∀ surroundings next, call.run classes surroundings table = some next → SingleOpen next) ↔
        Harmless classes table call := by
  have single : SingleOpen table :=
    reached.invariant initially fun _ _ _ single harmless ran => singleOpen_run single harmless ran
  refine ⟨single, fun call => ⟨fun kept => ?_, fun harmless surroundings next ran =>
    singleOpen_run single harmless ran⟩⟩
  by_contra harmful
  obtain ⟨surroundings, next, ran, twice⟩ := exists_run_of_not_harmless harmful
  exact twice (kept surroundings next ran)

namespace Scenario

def laptop : Device := ⟨1, ['a']⟩

def isolating : ClassSettings where
  autoEnable := true
  maxEnables := 0
  gracePeriod := 0
  window := .unlimited
  vclose := none
  delayBy := 10
  actions := [.reevaluateAccess]

def classes : Classes := fun kind => if kind = 3 then some isolating else none

def triggered : Call := .trigger laptop [⟨3, false, false, none⟩]

/-- Two triggers, and the runs of the two rows. -/
def twice : List (Call × Surroundings) :=
  [(triggered, .quiet 0), (triggered, .quiet 1), (.runDelayed 1, .quiet 12),
    (.runDelayed 2, .quiet 12)]

/-- The first row is closed before the second one is run. -/
def apart : List (Call × Surroundings) :=
  [(triggered, .quiet 0), (triggered, .quiet 1), (.runDelayed 1, .quiet 12),
    (.forceClose laptop 3, .quiet 13), (.runDelayed 2, .quiet 14)]

end Scenario

open Scenario

theorem single_open_event_apart :
    ∃ table, (calls classes).replay?
        (fun table event => decide (Harmless classes table event.1)) .empty apart =
          some table ∧
      SingleOpen table ∧ table.events.length = 2 := by
  obtain ⟨table, replayed, rows⟩ := map_eq_some_iff.mp
    (show ((calls classes).replay?
      (fun table event => decide (Harmless classes table event.1)) .empty apart).map
        (fun table => table.events.length) = some 2 by decide)
  have initially : SingleOpen empty := fun _ _ => Nat.zero_le 1
  have reached : (calls classes).Reaches
      (fun table event => Harmless classes table event.1) empty table :=
    Machine.reaches_of_checked (fun _ _ => of_decide_eq_true) replayed
  exact ⟨table, replayed, (single_open_event_iff classes initially reached).1, rows⟩

theorem delayed_events_open_twice :
    ∃ table, (calls classes).Reaches Machine.anyEvent empty table ∧
      table.events.countP (Event.opens laptop 3) = 2 := by
  obtain ⟨table, replayed, rows⟩ := map_eq_some_iff.mp
    (show ((calls classes).replay? (fun _ _ => true) empty twice).map
        (fun table => table.events.countP (Event.opens laptop 3)) = some 2 by decide)
  exact ⟨table, Machine.reaches_anyEvent_of_replay? replayed .refl, rows⟩

end PacketFence.SecurityEvent
