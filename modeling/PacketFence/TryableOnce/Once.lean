import PacketFence.Foundations.Machine

/-!
# A function that is run until it succeeds

Callers of `Do` compete for a word. The one that changes it from 0 to 1 runs the function
and writes 2 if it has succeeded, or 0 again. So the word is 1 exactly while one caller is
between its exchange and its store, and that caller alone knows whether the function has
succeeded.
-/

namespace PacketFence.TryableOnce

open Foundations List

variable {Error : Type}

/-- The word, and how many executions of the function have returned no error. -/
structure Once where
  done : Nat
  succeeded : Nat

inductive Result (Error : Type)
  | nil
  | failed (error : Error)
  | retry

inductive Point (Error : Type)
  | check
  | swap
  | running
  | store (err : Option Error)
  | load
  | returned (result : Result Error)

/-- The next step of a caller, which may call `Do` again. A function that is running returns
`err`. -/
def step (err : Option Error) : CallStep Once (Point Error) := fun once point =>
  match point with
  | .check => some (once, if once.done = 2 then .returned .nil else .swap)
  | .swap =>
    if once.done = 0 then some ({ once with done := 1 }, .running) else some (once, .load)
  | .running =>
    some ({ once with succeeded := once.succeeded + if err.isNone then 1 else 0 }, .store err)
  | .store (some error) => some ({ once with done := 0 }, .returned (.failed error))
  | .store none => some ({ once with done := 2 }, .returned .nil)
  | .load =>
    match once.done with
    | 0 => some (once, .returned .retry)
    | 2 => some (once, .returned .nil)
    | _ => some (once, .check)
  | .returned _ => some (once, .check)

abbrev Callers (Error : Type) := Pool Once (Point Error)

def initial (count : Nat) : Callers Error := ⟨⟨0, 0⟩, replicate count .check⟩

def scheduler : Machine (Callers Error) (Nat × Option Error) :=
  ⟨fun callers event => callers.advance (step event.2) event.1⟩

def Point.inside : Point Error → Bool
  | .running | .store _ => true
  | _ => false

def Point.Sound (succeeded : Nat) : Point Error → Prop
  | .running | .store (some _) => succeeded = 0
  | .store none | .returned .nil => succeeded = 1
  | _ => True

structure Safe (callers : Callers Error) : Prop where
  apart : callers.places.countP Point.inside ≤ 1
  once : callers.shared.succeeded ≤ 1
  /-- nobody runs the function after it has succeeded, and only then `Do` returns no error -/
  sound : ∀ point ∈ callers.places, point.Sound callers.shared.succeeded

structure Invariant (callers : Callers Error) : Prop where
  inside : callers.places.countP Point.inside = if callers.shared.done = 1 then 1 else 0
  settled : callers.shared.done ≠ 1 →
    callers.shared.succeeded = if callers.shared.done = 2 then 1 else 0
  sound : ∀ point ∈ callers.places, point.Sound callers.shared.succeeded

variable {point : Point Error}

theorem invariant_iff {once : Once} {front back : List (Point Error)} :
    Invariant ⟨once, front ++ point :: back⟩ ↔
      (front ++ back).countP Point.inside + [point].countP Point.inside =
          (if once.done = 1 then 1 else 0) ∧
        (once.done ≠ 1 → once.succeeded = if once.done = 2 then 1 else 0) ∧
        point.Sound once.succeeded ∧ ∀ other ∈ front ++ back, other.Sound once.succeeded := by
  have order : (front ++ point :: back).Perm (front ++ back ++ [point]) :=
    perm_middle.trans (perm_append_singleton _ _).symm
  constructor
  · rintro ⟨inside, settled, sound⟩
    rw [order.countP_eq, countP_append] at inside
    simp only [order.mem_iff, forall_mem_append, forall_mem_singleton] at sound
    exact ⟨inside, settled, sound.2, forall_mem_append.mpr sound.1⟩
  · rintro ⟨inside, settled, own, others⟩
    refine ⟨?_, settled, ?_⟩
    · rwa [order.countP_eq, countP_append]
    · simp only [order.mem_iff]
      exact forall_mem_append.mpr ⟨others, forall_mem_singleton.mpr own⟩

/-- A success is no news to those that are not inside. -/
theorem Point.Sound.succeed (sound : point.Sound 0)
    (outside : point.inside = false) : point.Sound 1 := by
  cases point with
  | running | store err => cases outside
  | returned result =>
    cases result with
    | nil => cases sound
    | _ => trivial
  | _ => trivial

theorem Invariant.step {callers next : Callers Error} {event : Nat × Option Error}
    (invariant : Invariant callers) (stepped : scheduler.step? callers event = some next) :
    Invariant next := by
  obtain ⟨front, old, back, once, new, -, places, moved, rfl⟩ := Pool.cases_of_advance stepped
  obtain ⟨⟨done, succeeded⟩, _⟩ := callers
  subst places
  obtain ⟨inside, settled, own, others⟩ := invariant_iff.mp invariant
  rw [invariant_iff]
  cases old with
  | check =>
    cases moved
    refine ⟨?_, settled, ?_, others⟩
    · split <;> exact inside
    · split
      next two =>
        cases two
        exact settled nofun
      · trivial
  | swap =>
    obtain ⟨free, same⟩ | ⟨_, same⟩ := ite_eq_iff.mp moved
    · cases same
      dsimp only at free
      subst free
      exact ⟨by simpa [Point.inside] using inside, nofun, settled nofun, others⟩
    · cases same
      exact ⟨inside, settled, trivial, others⟩
  | running =>
    cases moved
    cases own
    -- the word is 1, and nobody else is inside
    have taken : done = 1 := by
      by_contra other
      simp [Point.inside, other] at inside
    have alone : (front ++ back).countP Point.inside = 0 := by
      simpa [Point.inside, taken] using inside
    refine ⟨inside, fun other => absurd taken other, ?_⟩
    cases event.2 with
    | some error => exact ⟨rfl, others⟩
    | none =>
      refine ⟨rfl, fun other member => (others other member).succeed ?_⟩
      exact Bool.not_eq_true _ ▸ countP_eq_zero.mp alone other member
  | store err =>
    have alone : (front ++ back).countP Point.inside = 0 := by
      by_contra several
      simp only [countP_singleton, Point.inside, if_true] at inside
      split at inside <;> omega
    cases err with
    | some error =>
      cases moved
      exact ⟨by simpa [Point.inside] using alone, fun _ => own, trivial, others⟩
    | none =>
      cases moved
      exact ⟨by simpa [Point.inside] using alone, fun _ => own, own, others⟩
  | load =>
    match done, moved with
    | 0, moved | 1, moved =>
      cases moved
      exact ⟨inside, settled, trivial, others⟩
    | 2, moved =>
      cases moved
      exact ⟨inside, settled, settled nofun, others⟩
    | done + 3, moved =>
      cases moved
      exact ⟨inside, settled, trivial, others⟩
  | returned result =>
    cases moved
    exact ⟨inside, settled, trivial, others⟩

/-- In every run of any number of callers, executions of the function do not overlap, one at
most succeeds, none runs after it, and `Do` returns no error only after it. -/
theorem safe_of_reaches {count : Nat} {callers : Callers Error}
    (reached : scheduler.Reaches Machine.anyEvent (initial count) callers) : Safe callers := by
  have invariant : Invariant callers := by
    refine reached.invariant ⟨?_, fun _ => rfl, ?_⟩ fun _ _ _ holds _ => holds.step
    · simp [initial, Point.inside]
    · intro point member
      rw [eq_of_mem_replicate member]
      trivial
  refine ⟨?_, ?_, invariant.sound⟩
  · rw [invariant.inside]
    split <;> omega
  · by_cases taken : callers.shared.done = 1
    · have one := invariant.inside
      rw [if_pos taken] at one
      obtain ⟨point, member, inside⟩ := countP_pos_iff.mp (one ▸ Nat.one_pos)
      have sound := invariant.sound point member
      match point with
      | .running | .store (some _) => exact sound.symm ▸ Nat.zero_le 1
      | .store none => exact Nat.le_of_eq sound
    · rw [invariant.settled taken]
      split <;> omega

/-- The first caller fails, the second one succeeds, and the first one is told so. -/
theorem safe_of_second_try :
    let told : Callers String := ⟨⟨2, 1⟩, [.returned .nil, .returned .nil]⟩
    let events := [(0, none), (0, none), (1, none), (1, none), (0, some "refused"), (1, none),
      (0, none), (1, none), (1, none), (1, none), (1, none), (0, none), (0, none)]
    scheduler.replay? (fun _ _ => true) (initial 2) events = some told ∧ Safe told := by
  intro told events
  have replayed : scheduler.replay? (fun _ _ => true) (initial 2) events = some told := rfl
  exact ⟨replayed, safe_of_reaches (Machine.reaches_anyEvent_of_replay? replayed .refl)⟩

end PacketFence.TryableOnce
