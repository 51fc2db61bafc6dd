import Mathlib.Init

/-!
# Computations that can fail

`ok_of_bind` takes a successful sequence apart. `Succeeds` is the weakest
precondition of a computation: it returns a value, and the value meets a
condition.
-/

namespace PacketFence.Foundations

open List

universe u v

variable {Error : Type u} {First Second : Type v} {first : Except Error First}
  {next : First → Except Error Second} {value : First} {post : First → Prop}

theorem ok_of_bind {result : Second} (succeeds : first >>= next = .ok result) :
    ∃ value, first = .ok value ∧ next value = .ok result := by
  cases first with
  | error error => cases succeeds
  | ok value => exact ⟨value, rfl, succeeds⟩

@[simp]
theorem ok_bind (value : First) (next : First → Except Error Second) :
    (.ok value >>= next) = next value := rfl

def Succeeds (run : Except Error First) (post : First → Prop) : Prop :=
  ∃ value, run = .ok value ∧ post value

@[simp]
theorem succeeds_ok : Succeeds (.ok value : Except Error First) post ↔ post value := by
  constructor
  · rintro ⟨_, ⟨⟩, holds⟩
    exact holds
  · intro holds
    exact ⟨value, rfl, holds⟩

@[simp]
theorem succeeds_pure : Succeeds (pure value : Except Error First) post ↔ post value := succeeds_ok

@[simp]
theorem not_succeeds_error {error : Error} : ¬ Succeeds (.error error) post := by rintro ⟨_, ⟨⟩, _⟩

@[simp]
theorem succeeds_bind {post : Second → Prop} :
    Succeeds (first >>= next) post ↔ Succeeds first fun value => Succeeds (next value) post := by
  constructor
  · rintro ⟨result, run, holds⟩
    obtain ⟨value, ran, rest⟩ := ok_of_bind run
    exact ⟨value, ran, result, rest, holds⟩
  · rintro ⟨value, rfl, holds⟩
    exact holds

theorem mapM_eq_ok_iff {Input : Type u} {run : Input → Except Error First}
    {inputs : List Input} {outputs : List First} :
    inputs.mapM run = .ok outputs ↔ inputs.map run = outputs.map .ok := by
  induction inputs generalizing outputs with
  | nil => simp [pure, Except.pure, eq_comm]
  | cons input rest ih =>
    rw [mapM_cons, map_cons]
    constructor
    · intro mapped
      obtain ⟨output, first, mapped⟩ := ok_of_bind mapped
      obtain ⟨others, later, same⟩ := ok_of_bind mapped
      cases same
      rw [first, ih.mp later, map_cons]
    · intro mapped
      obtain ⟨output, others, rfl, first, later⟩ := map_eq_cons_iff.mp mapped.symm
      rw [← first, ih.mpr later.symm]
      rfl

variable {State Input : Type u} {step : State → Input → Except Error State}
  {safe : Input → Prop} {failure : Error} {inputs : List Input}

theorem foldlM_ok
    (succeeds : ∀ state, ∀ input ∈ inputs, safe input → ∃ next, step state input = .ok next)
    (all : ∀ input ∈ inputs, safe input) (state : State) :
    ∃ last, inputs.foldlM step state = .ok last := by
  induction inputs generalizing state with
  | nil => exact ⟨state, rfl⟩
  | cons input rest ih =>
    obtain ⟨first, others⟩ := forall_mem_cons.mp all
    obtain ⟨next, stepped⟩ := succeeds state input mem_cons_self first
    obtain ⟨last, folded⟩ := ih
      (fun state input later => succeeds state input (mem_cons_of_mem _ later)) others next
    exact ⟨last, by rw [foldlM_cons, stepped]; exact folded⟩

theorem foldlM_error
    (succeeds : ∀ state, ∀ input ∈ inputs, safe input → ∃ next, step state input = .ok next)
    (fails : ∀ state, ∀ input ∈ inputs, ¬ safe input → step state input = .error failure)
    (some : ¬ ∀ input ∈ inputs, safe input) (state : State) :
    inputs.foldlM step state = .error failure := by
  induction inputs generalizing state with
  | nil => exact absurd (fun _ member => absurd member not_mem_nil) some
  | cons input rest ih =>
    rw [foldlM_cons]
    by_cases first : safe input
    · obtain ⟨next, stepped⟩ := succeeds state input mem_cons_self first
      rw [stepped]
      exact ih
        (fun state input later => succeeds state input (mem_cons_of_mem _ later))
        (fun state input later => fails state input (mem_cons_of_mem _ later))
        (fun others => some (forall_mem_cons.mpr ⟨first, others⟩)) next
    · rw [fails state input mem_cons_self first]
      rfl

end PacketFence.Foundations
