import Mathlib.Algebra.BigOperators.Group.List.Basic

/-!
# Machines, guarded runs and their invariants

A machine is a step function on an explicit state. Whatever the environment
decides (a schedule, a probe result, a random choice) is part of the event, so
one event has one outcome. `Reaches` collects the states of all runs whose
steps meet a condition, and `replay?` executes one such run.
-/

namespace PacketFence.Foundations

universe u v

structure Machine (State : Type u) (Event : Type v) where
  step? : State → Event → Option State

namespace Machine

variable {State : Type u} {Event : Type v}

/-- The states of the runs in which every accepted event is allowed in the
state it is taken from. -/
inductive Reaches (machine : Machine State Event)
    (allowed : State → Event → Prop) (first : State) : State → Prop where
  | refl : Reaches machine allowed first first
  | step {state next : State} {event : Event} :
      Reaches machine allowed first state →
      allowed state event →
      machine.step? state event = some next →
      Reaches machine allowed first next

def anyEvent : State → Event → Prop := fun _ _ => True

variable {machine : Machine State Event} {allowed : State → Event → Prop}
  {first state : State}

theorem Reaches.invariant {property : State → Prop} (reached : machine.Reaches allowed first state)
    (initially : property first)
    (preserved : ∀ state event next, property state → allowed state event →
      machine.step? state event = some next → property next) : property state := by
  induction reached with
  | refl => exact initially
  | step _ permitted stepped ih => exact preserved _ _ _ ih permitted stepped

def replay? (machine : Machine State Event) (check : State → Event → Bool) :
    State → List Event → Option State
  | state, [] => some state
  | state, event :: rest =>
    if check state event then
      (machine.step? state event).bind fun next =>
        replay? machine check next rest
    else
      none

variable {check : State → Event → Bool} {events : List Event} {last : State}

/-- A replayed run is a run: this is how a concrete execution is exhibited.
The check may rely on what it keeps true itself. -/
theorem reaches_of_replay? (property : State → Prop)
    (sound : ∀ state event, property state → check state event = true →
      allowed state event)
    (preserved : ∀ state event next, property state → check state event = true →
      machine.step? state event = some next → property next)
    (initially : property state) (replayed : machine.replay? check state events = some last)
    (reached : machine.Reaches allowed first state) : machine.Reaches allowed first last := by
  induction events generalizing state with
  | nil =>
    cases replayed
    exact reached
  | cons event rest ih =>
    simp only [replay?] at replayed
    split at replayed
    next checked =>
      rcases Option.bind_eq_some_iff.mp replayed with
        ⟨next, stepped, remaining⟩
      exact ih
        (preserved _ _ _ initially checked stepped) remaining
        (.step reached (sound _ _ initially checked) stepped)
    next unchecked => simp at replayed

theorem reaches_of_checked
    (sound : ∀ state event, check state event = true → allowed state event)
    (replayed : machine.replay? check state events = some last) :
    machine.Reaches allowed state last :=
  reaches_of_replay? (fun _ => True) (fun state event _ => sound state event)
    (fun _ _ _ _ _ _ => trivial) trivial replayed .refl

theorem reaches_anyEvent_of_replay? (replayed : machine.replay? check state events = some last)
    (reached : machine.Reaches anyEvent first state) : machine.Reaches anyEvent first last :=
  reaches_of_replay? (fun _ => True) (fun _ _ _ _ => trivial)
    (fun _ _ _ _ _ _ => trivial) trivial replayed reached

end Machine

/-! ### Interleaved calls

Calls share a state and each of them has a place of its own. A scheduler picks a
call, and the call takes its next step on the shared state, as one atomic action.
A run is any interleaving of the steps of the calls. -/

open List

/-- The shared state and the place of every call. -/
structure Pool (Shared : Type u) (Place : Type v) where
  shared : Shared
  places : List Place

abbrev CallStep (Shared : Type u) (Place : Type v) := Shared → Place → Option (Shared × Place)

namespace Pool

variable {Shared : Type u} {Place : Type v}

def advance (call : CallStep Shared Place) (pool : Pool Shared Place) (index : Nat) :
    Option (Pool Shared Place) :=
  (pool.places[index]?).bind fun place =>
    (call pool.shared place).map fun result =>
      ⟨result.1, pool.places.set index result.2⟩

def interleaving (call : CallStep Shared Place) : Machine (Pool Shared Place) Nat :=
  ⟨advance call⟩

variable {call : CallStep Shared Place} {pool next : Pool Shared Place} {index : Nat}

theorem advance_eq_some_iff : advance call pool index = some next ↔
    ∃ old shared new, pool.places[index]? = some old ∧
      call pool.shared old = some (shared, new) ∧
        next = ⟨shared, pool.places.set index new⟩ := by
  simp only [advance, Option.bind_eq_some_iff, Option.map_eq_some_iff, Prod.exists]
  grind

theorem cases_of_advance (stepped : advance call pool index = some next) :
    ∃ front old back shared new, front.length = index ∧
      pool.places = front ++ old :: back ∧ call pool.shared old = some (shared, new) ∧
        next = ⟨shared, front ++ new :: back⟩ := by
  obtain ⟨old, shared, new, found, called, rfl⟩ := advance_eq_some_iff.mp stepped
  obtain ⟨inside, rfl⟩ := List.getElem?_eq_some_iff.mp found
  refine ⟨pool.places.take index, _, pool.places.drop (index + 1), shared, new,
    length_take_of_le (Nat.le_of_lt inside), ?_, called, ?_⟩
  · rw [getElem_cons_drop, take_append_drop]
  · rw [set_eq_take_append_cons_drop, if_pos inside]

theorem exists_advance {front back : List Place} {old new : Place} {shared : Shared}
    (places : pool.places = front ++ old :: back)
    (called : call pool.shared old = some (shared, new)) :
    advance call pool front.length = some ⟨shared, front ++ new :: back⟩ := by
  simp [advance, places, called]

variable {cost : Place → Nat}

/-- As long as a call that has something left to do can do a part of it, every
run can be continued until no call has anything left to do. -/
theorem exists_completed (progress : ∀ shared place, cost place ≠ 0 →
      ∃ result, call shared place = some result ∧ cost result.2 < cost place)
    (pool : Pool Shared Place) :
    ∃ last, (interleaving call).Reaches Machine.anyEvent pool last ∧
      ∀ place ∈ last.places, cost place = 0 := by
  -- The continuation is built from its first state, whatever was reached so far.
  suffices continued : ∀ (total : Nat) (state : Pool Shared Place),
      (state.places.map cost).sum = total →
      (interleaving call).Reaches Machine.anyEvent pool state →
      ∃ last, (interleaving call).Reaches Machine.anyEvent pool last ∧
        ∀ place ∈ last.places, cost place = 0 from
    continued _ pool rfl .refl
  intro total
  induction total using Nat.strongRecOn with
  | ind total ih =>
    intro state totalled reached
    by_cases completed : ∀ place ∈ state.places, cost place = 0
    · exact ⟨state, reached, completed⟩
    · push Not at completed
      obtain ⟨old, present, unfinished⟩ := completed
      obtain ⟨front, back, places⟩ := append_of_mem present
      obtain ⟨⟨shared, new⟩, called, cheaper⟩ := progress state.shared old unfinished
      dsimp only at cheaper
      refine ih _ ?_ _ rfl (.step reached trivial (exists_advance places called))
      rw [← totalled, places]
      simp only [map_append, map_cons, sum_append, sum_cons]
      omega

end Pool

end PacketFence.Foundations
