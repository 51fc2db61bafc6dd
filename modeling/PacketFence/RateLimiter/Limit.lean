import Mathlib.Algebra.Order.Ring.Int
import PacketFence.Foundations.Machine

/-!
# The limit of traps

`is_pass_limit` reads the counter of its key with one command and increments it with a
script. Between the two, other callers read the same counter, or it expires. The script is
atomic, so a key always expires, but the calls that pass are bounded only as long as those
in progress are counted when another one is let through.

The commands of a call concern its own key, so one key is looked at. It expires some time
after it was created.
-/

namespace PacketFence.RateLimiter

open Foundations List

/-- The counter, whether it expires, and how many calls have returned 0 since it was
created. -/
structure Entry where
  count : Nat
  expires : Bool
  passed : Nat

inductive Point
  | get
  | evalsha
  | pass
  deriving DecidableEq

/-- The script: `incr`, and `expire` for a counter that was not there. -/
def incrRateLimiter (key : Option Entry) : Entry :=
  let entry := key.getD ⟨0, false, 0⟩
  let count := entry.count + 1
  { entry with count := count, expires := entry.expires || count == 1 }

def isPassLimit (limit : Int) : CallStep (Option Entry) Point := fun key point =>
  match point with
  | .get => some (key, if key.any (limit ≤ ·.count) then .get else .evalsha)
  | .evalsha => some (some (incrRateLimiter key), .pass)
  | .pass => some (key.map fun entry => { entry with passed := entry.passed + 1 }, .get)

abbrev Callers := Pool (Option Entry) Point

inductive Event
  | advance (index : Nat)
  | expire

def step? (limit : Int) (callers : Callers) : Event → Option Callers
  | .advance index => callers.advance (isPassLimit limit) index
  | .expire => if callers.shared.any Entry.expires then some ⟨none, callers.places⟩ else none

def machine (limit : Int) : Machine Callers Event := ⟨step? limit⟩

def initial (count : Nat) : Callers := ⟨none, replicate count .get⟩

structure Limited (limit : Int) (callers : Callers) : Prop where
  passed : ∀ entry ∈ callers.shared, entry.passed ≤ limit
  expires : ∀ entry ∈ callers.shared, entry.expires = true

/-- The calls that have returned 0 since the key was created and those that are still going
to, among them calls that were let through before an expiration. -/
def committed (callers : Callers) : Nat :=
  callers.shared.elim 0 Entry.passed + callers.places.countP (· ≠ .get)

/-- The condition on a step: a call is let through only while fewer than `limit` are
committed. -/
def Careful (limit : Int) (callers : Callers) : Event → Prop
  | .expire => True
  | .advance index => callers.places[index]? = some .get →
      callers.shared.all (·.count < limit) → committed callers < limit

instance (limit : Int) (callers : Callers) (event : Event) :
    Decidable (Careful limit callers event) := by
  cases event <;> unfold Careful <;> infer_instance

structure Bounded (limit : Int) (callers : Callers) : Prop where
  committed : committed callers = 0 ∨ committed callers ≤ limit
  created : callers.shared.isSome → 1 ≤ limit
  expires : ∀ entry ∈ callers.shared, entry.expires = true

variable {limit : Int} {callers next : Callers} {event : Event}

theorem Bounded.limited (bounded : Bounded limit callers) : Limited limit callers := by
  refine ⟨fun entry found => ?_, bounded.expires⟩
  have positive := bounded.created (by simp [Option.mem_def.mp found])
  have within := bounded.committed
  simp only [RateLimiter.committed, Option.mem_def.mp found, Option.elim_some] at within
  omega

/-- A call that goes on is committed all the time: what it adds to the key it takes from the
calls in progress. -/
theorem Bounded.step (bounded : Bounded limit callers) (careful : Careful limit callers event)
    (stepped : step? limit callers event = some next) : Bounded limit next := by
  obtain ⟨within, created, expires⟩ := bounded
  cases event with
  | expire =>
    obtain ⟨_, same⟩ := Option.ite_none_right_eq_some.mp stepped
    cases same
    refine ⟨?_, nofun, nofun⟩
    simp only [RateLimiter.committed, Option.elim_none] at within ⊢
    omega
  | advance index =>
    obtain ⟨front, old, back, key, new, rfl, places, moved, rfl⟩ := Pool.cases_of_advance stepped
    obtain ⟨shared, _⟩ := callers
    subst places
    simp only [RateLimiter.committed, countP_append, countP_cons] at within
    cases old with
    | get =>
      cases moved
      refine ⟨?_, created, expires⟩
      have below := careful (by simp)
      simp only [RateLimiter.committed, countP_append, countP_cons] at below ⊢
      by_cases refused : shared.any (limit ≤ ·.count) = true
      · simpa [refused] using within
      · have below := below (by cases shared <;> simp_all)
        simp only [refused]
        simp at below ⊢
        omega
    | evalsha =>
      cases moved
      simp at within
      have positive : 1 ≤ limit := by omega
      refine ⟨?_, fun _ => positive, ?_⟩
      · cases shared <;> simpa [RateLimiter.committed, incrRateLimiter] using within
      · rintro entry ⟨⟩
        cases shared with
        | none => rfl
        | some old => simp [incrRateLimiter, expires old rfl]
    | pass =>
      cases moved
      refine ⟨?_, by simpa using created, ?_⟩
      · cases shared <;> simp [RateLimiter.committed] at within ⊢ <;> omega
      · intro entry found
        obtain ⟨old, there, rfl⟩ := Option.map_eq_some_iff.mp found
        exact expires old there

end PacketFence.RateLimiter
