import Mathlib.Algebra.Order.Ring.Int
import PacketFence.Foundations.FirstMaximum
import PacketFence.Foundations.Lexing

/-!
# The tables of security events

An event of a device belongs to a class, which has a priority, a target role and
actions. The two queries behind the choice of a role read the open events of a
device: one joins them with the actions, the other with the classes.
-/

namespace PacketFence.SecurityEvent

open Foundations Lexing List

inductive EventStatus where
  | opened
  | closed
  | delayed
  deriving DecidableEq

structure Event where
  id : Nat
  tenantId : Nat
  mac : Text
  securityEventId : Nat
  startDate : Nat
  releaseDate : Option Nat
  status : EventStatus
  deriving DecidableEq

structure EventClass where
  securityEventId : Nat
  priority : Int
  vlan : Option Text
  deriving DecidableEq

structure EventAction where
  securityEventId : Nat
  action : Text
  deriving DecidableEq

/-- The tables, with the foreign key of the events. -/
structure Database where
  events : List Event
  classes : List EventClass
  actions : List EventAction
  eventClass : ∀ event ∈ events, ∃ eventClass ∈ classes,
    eventClass.securityEventId = event.securityEventId

def reevaluateAccess : Text := "reevaluate_access".toList

namespace Database

variable (database : Database) (tenant : Nat) (mac : Text)

/-- `status = "open"` for a device of the tenant of the session. -/
def openEvents : List Event :=
  database.events.filter fun event =>
    event.tenantId = tenant ∧ event.mac = mac ∧ event.status = .opened

def securityEventCountReevaluateAccess : Nat :=
  ((database.openEvents tenant mac).flatMap fun event =>
    database.actions.filter fun action =>
      action.action = reevaluateAccess ∧ event.securityEventId = action.securityEventId).length

def openClasses : List (Event × EventClass) :=
  (database.openEvents tenant mac).flatMap fun event =>
    (database.classes.filter fun eventClass =>
      event.securityEventId = eventClass.securityEventId).map fun eventClass => (event, eventClass)

/-- The rows come in any order; of those with the lowest number the first is taken. -/
def securityEventViewTop : Option Event :=
  ((database.openClasses tenant mac).minOn? (·.2.priority)).map (·.1)

def classView (id : Nat) : Option EventClass :=
  database.classes.find? (·.securityEventId = id)

end Database

/-- An event is the first of those with the lowest number. -/
def HighestPriority (rows : List (Event × EventClass)) (row : Event × EventClass) : Prop :=
  FirstMaximum (fun row => OrderDual.toDual row.2.priority) rows row

variable {database : Database} {tenant : Nat} {mac : Text} {event : Event}

@[simp] theorem mem_openEvents_iff : event ∈ database.openEvents tenant mac ↔
    event ∈ database.events ∧ event.tenantId = tenant ∧ event.mac = mac ∧
      event.status = .opened := by simp [Database.openEvents]

theorem countReevaluateAccess_eq_zero_iff :
    database.securityEventCountReevaluateAccess tenant mac = 0 ↔
      ∀ event ∈ database.openEvents tenant mac,
        ⟨event.securityEventId, reevaluateAccess⟩ ∉ database.actions := by
  unfold Database.securityEventCountReevaluateAccess
  rw [length_eq_zero_iff, flatMap_eq_nil_iff]
  refine forall₂_congr fun event _ => ?_
  rw [filter_eq_nil_iff]
  constructor
  · intro none member
    exact none _ member (by simp)
  · rintro absent ⟨id, action⟩ member taken
    obtain ⟨rfl, rfl⟩ := of_decide_eq_true taken
    exact absent member

theorem mem_openClasses_iff {row : Event × EventClass} :
    row ∈ database.openClasses tenant mac ↔
      row.1 ∈ database.openEvents tenant mac ∧ row.2 ∈ database.classes ∧
        row.1.securityEventId = row.2.securityEventId := by
  obtain ⟨event, eventClass⟩ := row
  simp only [Database.openClasses, mem_flatMap, mem_map, mem_filter,
    decide_eq_true_eq, Prod.mk.injEq]
  constructor
  · rintro ⟨_, present, _, ⟨known, same⟩, rfl, rfl⟩
    exact ⟨present, known, same⟩
  · rintro ⟨present, known, same⟩
    exact ⟨event, present, eventClass, ⟨known, same⟩, rfl, rfl⟩

theorem openClasses_ne_nil (present : event ∈ database.openEvents tenant mac) :
    database.openClasses tenant mac ≠ [] := by
  obtain ⟨eventClass, known, same⟩ := database.eventClass event (mem_openEvents_iff.mp present).1
  have joined : (event, eventClass) ∈ database.openClasses tenant mac :=
    mem_openClasses_iff.mpr ⟨present, known, same.symm⟩
  exact ne_nil_of_mem joined

theorem securityEventViewTop_eq_some_iff :
    database.securityEventViewTop tenant mac = some event ↔
      ∃ row, HighestPriority (database.openClasses tenant mac) row ∧ row.1 = event := by
  unfold Database.securityEventViewTop
  rw [Option.map_eq_some_iff]
  refine exists_congr fun row => and_congr_left fun _ => ?_
  exact FirstMaximum.minOn?_eq_some_iff

theorem exists_securityEventViewTop (present : event ∈ database.openEvents tenant mac) :
    ∃ top, database.securityEventViewTop tenant mac = some top := by
  rw [← Option.isSome_iff_exists, Database.securityEventViewTop, Option.isSome_map,
    List.isSome_minOn?_iff]
  exact openClasses_ne_nil present

theorem mem_openEvents_of_top {top : Event}
    (found : database.securityEventViewTop tenant mac = some top) :
    top ∈ database.openEvents tenant mac := by
  obtain ⟨row, highest, rfl⟩ := securityEventViewTop_eq_some_iff.mp found
  exact (mem_openClasses_iff.mp highest.mem).1

theorem classView_spec {id : Nat} {eventClass : EventClass}
    (found : database.classView id = some eventClass) :
    eventClass ∈ database.classes ∧ eventClass.securityEventId = id := by
  have matched := find?_some found
  exact ⟨mem_of_find?_eq_some found, of_decide_eq_true matched⟩

end PacketFence.SecurityEvent
