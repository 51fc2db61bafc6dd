import PacketFence.Foundations.Machine
import Mathlib.Data.List.Basic

/-!
# Executions of a scheduled job

Every tick of the timer and every `SkipWait` signal starts a goroutine of its own, which
reads the flag, asks whether to run, sets the flag and runs the function. The flag is read
and set under the lock, but not under one lock. So a second goroutine may read it before
the first one has set it, and a goroutine that was started during an execution may read it
after the end. Runs without such a reading keep the executions apart.
-/

namespace PacketFence.Interval

open Foundations List

inductive Point
  | isRunning
  | doRun
  | setRunning
  | running
  | clearRunning
  | ended
  deriving DecidableEq

structure Goroutine where
  point : Point
  /-- an execution was in progress when the tick came -/
  during : Bool

/-- The goroutines of a job share its flag `isRunning`. -/
abbrev Job := Pool Bool Goroutine

/-- A tick of the timer or a `SkipWait` signal, or the next step of a goroutine, for which
`doRun` returns the answer. -/
inductive Event
  | tick
  | advance (index : Nat) (answer : Bool)

def runJob (answer : Bool) : CallStep Bool Goroutine := fun isRunning goroutine =>
  let goto (isRunning : Bool) (point : Point) := some (isRunning, { goroutine with point })
  match goroutine.point with
  | .isRunning => goto isRunning (if isRunning then .ended else .doRun)
  | .doRun => goto isRunning (if answer then .setRunning else .ended)
  | .setRunning => goto true .running
  | .running => goto isRunning .clearRunning
  | .clearRunning => goto false .ended
  | .ended => none

/-- How many executions are in progress. -/
def executions (job : Job) : Nat :=
  job.places.countP (·.point = .running)

def step? (job : Job) : Event → Option Job
  | .tick => some { job with places := job.places ++ [⟨.isRunning, 0 < executions job⟩] }
  | .advance index answer => job.advance (runJob answer) index

def machine : Machine Job Event := ⟨step?⟩

def initial : Job := ⟨false, []⟩

structure Exclusive (job : Job) : Prop where
  executions : executions job ≤ 1
  /-- what came during an execution starts nothing -/
  during : ∀ goroutine ∈ job.places, goroutine.during = true → goroutine.point ≠ .running

/-- It has found the flag clear and has not set it yet. -/
def Point.tested (point : Point) : Bool := point = .doRun ∨ point = .setRunning

/-- It has set the flag and has not cleared it yet. -/
def Point.holds (point : Point) : Bool := point = .running ∨ point = .clearRunning

/-- The condition on a step: who finds the flag clear was not started during an execution,
and no goroutine is between its test and its set. -/
def Careful (job : Job) : Event → Prop
  | .tick => True
  | .advance index _ => ∀ goroutine ∈ job.places[index]?, goroutine.point = .isRunning →
      job.shared = false →
        goroutine.during = false ∧ job.places.countP (·.point.tested) = 0

instance (job : Job) (event : Event) : Decidable (Careful job event) := by
  cases event <;> unfold Careful <;> infer_instance

/-- At most one goroutine has passed the test, and the flag is set while it runs. -/
structure Ordered (job : Job) : Prop where
  alone : job.places.countP (·.point.tested) + job.places.countP (·.point.holds) ≤ 1
  flag : job.places.countP (·.point.holds) = job.shared.toNat
  early : ∀ goroutine ∈ job.places, goroutine.during = true →
    goroutine.point.tested = false ∧ goroutine.point.holds = false

theorem Ordered.exclusive {job : Job} (ordered : Ordered job) : Exclusive job := by
  constructor
  · have fewer : executions job ≤ job.places.countP (·.point.holds) := by
      apply countP_mono_left
      intro goroutine _ running
      rw [of_decide_eq_true running]
      rfl
    have alone := ordered.alone
    omega
  · intro goroutine member came running
    have ended := (ordered.early goroutine member came).2
    rw [running] at ended
    cases ended

/-- The one who finds the flag clear is the only one, and who sets or clears it stays so. -/
theorem Ordered.step {job next : Job} {event : Event} (ordered : Ordered job)
    (careful : Careful job event) (stepped : step? job event = some next) : Ordered next := by
  obtain ⟨alone, flag, early⟩ := ordered
  cases event with
  | tick =>
    cases stepped
    refine ⟨by simpa [Point.tested, Point.holds] using alone,
      by simpa [Point.holds] using flag, fun goroutine member came => ?_⟩
    obtain there | same := mem_append.mp member
    · exact early goroutine there came
    · rw [mem_singleton.mp same]
      exact ⟨rfl, rfl⟩
  | advance index answer =>
    obtain ⟨front, ⟨point, during⟩, back, shared, new, rfl, places, moved, rfl⟩ :=
      Pool.cases_of_advance stepped
    obtain ⟨isRunning, _⟩ := job
    subst places
    have test := careful ⟨point, during⟩ (by simp)
    -- The others stay where they are, so all is decided by the point that is reached.
    cases point <;> cases moved <;> constructor <;>
      simp only [countP_append, countP_cons, forall_mem_append, forall_mem_cons, Point.tested,
        Point.holds] at * <;>
      grind

/-- In a run of careful steps the executions are exclusive. -/
theorem exclusive_executions {job : Job} (reached : machine.Reaches Careful initial job) :
    Exclusive job := by
  have ordered : Ordered job :=
    reached.invariant ⟨Nat.zero_le _, rfl, nofun⟩ fun _ _ _ ordered => ordered.step
  exact ordered.exclusive

/-- The goroutine of a second tick tests the flag after the first execution. -/
theorem executions_in_turn :
    ∃ job, machine.Reaches Careful initial job ∧
      job.places = [⟨.ended, false⟩, ⟨.running, false⟩] ∧ Exclusive job := by
  have run : machine.replay? (fun job event => decide (Careful job event)) initial
      [.tick, .advance 0 true, .advance 0 true, .advance 0 true, .advance 0 true,
        .advance 0 true, .tick, .advance 1 true, .advance 1 true, .advance 1 true] =
      some ⟨true, [⟨.ended, false⟩, ⟨.running, false⟩]⟩ := rfl
  have reached : machine.Reaches Careful initial _ :=
    Machine.reaches_of_checked (fun _ _ => of_decide_eq_true) run
  exact ⟨_, reached, rfl, exclusive_executions reached⟩

/-- Two executions at once, and one that was started by a tick during another. -/
theorem executions_overlap :
    (∃ job, machine.Reaches Machine.anyEvent initial job ∧ executions job = 2) ∧
      machine.replay? (fun _ _ => true) initial
          [.tick, .advance 0 true, .advance 0 true, .advance 0 true, .tick, .advance 0 true,
            .advance 0 true, .advance 1 true, .advance 1 true, .advance 1 true] =
        some ⟨true, [⟨.ended, false⟩, ⟨.running, true⟩]⟩ := by
  refine ⟨⟨⟨true, [⟨.running, false⟩, ⟨.running, false⟩]⟩, ?_, rfl⟩, rfl⟩
  have run : machine.replay? (fun _ _ => true) initial
      [.tick, .tick, .advance 0 true, .advance 1 true, .advance 0 true, .advance 1 true,
        .advance 0 true, .advance 1 true] =
      some ⟨true, [⟨.running, false⟩, ⟨.running, false⟩]⟩ := rfl
  exact Machine.reaches_anyEvent_of_replay? run .refl

end PacketFence.Interval
