import PacketFence.Dhcp.Allocator
import PacketFence.Dhcp.Server

/-!
# What the two algorithms of the memory pool allocate

With the random algorithm the pool is an exact allocator in every run. With
`OldestReleased` the index is chosen from the release times alone, which bound
indices keep; the choice is right exactly when a free index was released before
every bound one.
-/

namespace PacketFence.Dhcp

open Foundations Finset Machine Scenario

namespace DHCPPool

/-- What an allocator of the indices below `capacity` owes its callers. -/
structure ExactAllocator (capacity : Nat) (pool : DHCPPool) : Prop where
  domain : ∀ index, index ∈ pool.bound ↔ (pool.mac index).isSome
  covers : pool.free ∪ pool.bound = range capacity
  disjoint : Disjoint pool.free pool.bound
  remaining : pool.freeIPsRemaining = capacity - pool.bound.card
  answered : ∀ now draw call, draw.Possible pool → (pool.answer? now draw call).isSome
  unchanged : ∀ now draw call next reply,
    pool.answer? now draw call = some (next, reply) → reply.error ≠ none → next = pool
  full : ∀ now draw mac next reply,
    pool.answer? now draw (.getFreeIPIndex mac) = some (next, reply) →
    reply.error ≠ none → pool.free = ∅
  takes : ∀ now draw mac next reply,
    pool.answer? now draw (.getFreeIPIndex mac) = some (next, reply) →
    reply.error = none → ∃ index ∈ pool.free, reply = .taken index mac none ∧
      next.mac = Function.update pool.mac index (some mac)
  once : ∀ now draw call next reply index,
    pool.answer? now draw call = some (next, reply) → call.HandsOut reply index →
    ∀ later, poolMachine.Reaches (Spares index) next later →
    ∀ now draw call next reply, later.answer? now draw call = some (next, reply) →
      ¬call.HandsOut reply index

variable {pool next : DHCPPool} {now : Int} {call : PoolCall} {reply : PoolReply}

theorem Answers.unchanged (answers : pool.Answers now call next reply)
    (failed : reply.error ≠ none) : next = pool := by
  cases answers with
  | reserved | freed | taken => exact absurd rfl failed
  | _ => rfl

theorem Answers.full_of_error {mac : Mac}
    (answers : pool.Answers now (.getFreeIPIndex mac) next reply)
    (failed : reply.error ≠ none) : pool.free = ∅ := by
  cases answers with
  | taken => exact absurd rfl failed
  | full full => exact card_eq_zero.mp full

theorem Answers.takes {mac : Mac} (answers : pool.Answers now (.getFreeIPIndex mac) next reply)
    (random : pool.algorithm ≠ OldestReleased) (accepted : reply.error = none) :
    ∃ index ∈ pool.free, reply = .taken index mac none ∧
      next.mac = Function.update pool.mac index (some mac) := by
  cases answers with
  | taken notFull pickable => exact ⟨_, mem_free_of_pickable random pickable, rfl, rfl⟩
  | full => cases accepted

/-- In every run the pool with the random algorithm is an exact allocator. -/
theorem random_pool_exact {capacity : Nat} {algorithm : Int} {created : Nat → Int}
    (random : algorithm ≠ OldestReleased) (reached : poolMachine.Reaches anyEvent
      (newDHCPPool capacity algorithm created) pool) : pool.ExactAllocator capacity := by
  rcases same_settings_of_reaches reached with ⟨sameCapacity, sameAlgorithm⟩
  have notOldest : pool.algorithm ≠ OldestReleased := sameAlgorithm ▸ random
  have size : pool.capacity = capacity := sameCapacity
  constructor
  case domain => exact fun index => mem_bound
  case covers => rw [bound_eq_sdiff, union_sdiff_of_subset pool.free_subset, size]
  case disjoint =>
    rw [bound_eq_sdiff]
    exact disjoint_sdiff
  case remaining => rw [freeIPsRemaining_eq, size]
  case answered => exact fun now draw call possible => isSome_answer? possible now call
  case unchanged => exact fun _ _ _ _ _ answered => (answers_of_answer? answered).unchanged
  case full => exact fun _ _ _ _ _ answered => (answers_of_answer? answered).full_of_error
  case takes => exact fun _ _ _ _ _ answered => (answers_of_answer? answered).takes notOldest
  case once =>
    intro now draw call next reply index answered handed later run _ _ _ _ _ again handedAgain
    have answers := answers_of_answer? answered
    have taken := taken_of_reaches run (answers.taken_of_handsOut handed)
    -- The algorithm is the same in every state of the run.
    have stillRandom : later.algorithm ≠ OldestReleased := by
      rw [(same_settings_of_reaches run).2, answers.same_settings.2]
      exact notOldest
    exact taken ((answers_of_answer? again).free_of_handsOut stillRandom handedAgain)

/-- Alice has been given the index that the walk through the free ones meets first. -/
theorem random_pool_of_two_exact :
    ∃ pool, poolMachine.Reaches anyEvent (newDHCPPool 2 1 fun _ => 0) pool ∧
      pool.mac 1 = some alice ∧ pool.ExactAllocator 2 := by
  obtain ⟨pool, replayed, bound⟩ := Option.map_eq_some_iff.mp
    (show (poolMachine.replay? (fun _ _ => true) (newDHCPPool 2 1 fun _ => 0)
        [⟨.getFreeIPIndex alice, 0, ⟨[(0, 0), (1, 0)], [1, 0], 0⟩⟩]).map
          (fun pool => pool.mac 1) = some (some alice) by decide +kernel)
  have reached := reaches_anyEvent_of_replay? replayed .refl
  exact ⟨pool, reached, bound, random_pool_exact (by decide) reached⟩

def releasedAt (pool : DHCPPool) (index : Nat) : Int := (pool.released index).getD 0

/-- Whatever `GetFreeIPIndex` succeeds with was free, and no free index was
released earlier. -/
def TakesOldestFree (pool : DHCPPool) : Prop :=
  ∀ now draw mac next index holder,
    pool.answer? now draw (.getFreeIPIndex mac) = some (next, .taken index holder none) →
    index ∈ pool.free ∧ ∀ other ∈ pool.free, pool.releasedAt index ≤ pool.releasedAt other

def FreeReleasedFirst (pool : DHCPPool) : Prop :=
  pool.free.Nonempty →
    ∃ oldest ∈ pool.free, ∀ index ∈ pool.bound, pool.releasedAt oldest < pool.releasedAt index

section

variable (oldest : pool.algorithm = OldestReleased)

include oldest

theorem pickable_iff_of_oldest {index : Nat} : pool.Pickable index ↔ index < pool.capacity ∧
      ∀ other < pool.capacity, pool.releasedAt index ≤ pool.releasedAt other := by
  simp [Pickable, oldest, releasedAt]

theorem freeReleasedFirst_iff : pool.FreeReleasedFirst ↔
      (pool.free.Nonempty → ∀ index, pool.Pickable index → index ∈ pool.free) := by
  simp only [pickable_iff_of_oldest oldest]
  constructor
  · rintro releasedFirst nonempty index ⟨inside, least⟩
    rcases releasedFirst nonempty with ⟨first, membership, earlier⟩
    by_contra taken
    have bound : index ∈ pool.bound :=
      bound_eq_sdiff ▸ mem_sdiff.mpr ⟨mem_range.mpr inside, taken⟩
    exact absurd (earlier index bound) (not_lt.mpr (least first (pool.free_lt first membership)))
  · rintro free ⟨member, membership⟩
    have pickedFree := free ⟨member, membership⟩
    rcases exists_min_image (range pool.capacity) pool.releasedAt
      ⟨member, pool.free_subset membership⟩ with ⟨first, inside, least⟩
    have isLeast : ∀ other < pool.capacity, pool.releasedAt first ≤ pool.releasedAt other :=
      fun other within => least other (mem_range.mpr within)
    refine ⟨first, pickedFree first ⟨mem_range.mp inside, isLeast⟩, fun index bound => ?_⟩
    rcases mem_sdiff.mp (bound_eq_sdiff ▸ bound) with ⟨within, taken⟩
    -- A bound index released no later could be picked just as well.
    by_contra notLater
    apply taken
    apply pickedFree index
    exact ⟨mem_range.mp within, fun other below =>
      le_trans (not_lt.mp notLater) (isLeast other below)⟩

theorem takesOldestFree_iff : pool.TakesOldestFree ↔
      (pool.free.Nonempty → ∀ index, pool.Pickable index → index ∈ pool.free) := by
  constructor
  · intro takes nonempty index pickable
    have notFull := nonempty.card_ne_zero
    rcases exists_available_eq pickable notFull with ⟨draw, possible, rfl⟩
    exact (takes _ _ _ _ _ _ (answer?_getFreeIPIndex possible notFull 0 FreeMac)).1
  · intro free now draw mac next index holder answered
    cases answers_of_answer? answered with
    | taken notFull pickable =>
      refine ⟨free (card_ne_zero.mp notFull) index pickable, fun other member => ?_⟩
      exact ((pickable_iff_of_oldest oldest).mp pickable).2 other (pool.free_lt other member)

end

theorem available_mem_free {draw : Draw} (possible : draw.Possible pool)
    (notFull : pool.free.card ≠ 0)
    (releasedFirst : pool.algorithm = OldestReleased → pool.FreeReleasedFirst) :
    pool.available draw ∈ pool.free := by
  have pickable := possible.pickable notFull
  by_cases oldest : pool.algorithm = OldestReleased
  · exact (freeReleasedFirst_iff oldest).mp (releasedFirst oldest)
      (card_ne_zero.mp notFull) _ pickable
  · exact mem_free_of_pickable oldest pickable

/-- `OldestReleased` allocates as it should exactly in the states in which some
free index was released before every bound index. -/
theorem oldest_released_exact_iff {capacity : Nat} {created : Nat → Int}
    (reached : poolMachine.Reaches anyEvent
      (newDHCPPool capacity OldestReleased created) pool) :
    pool.TakesOldestFree ↔ pool.FreeReleasedFirst := by
  have oldest : pool.algorithm = OldestReleased := (same_settings_of_reaches reached).2
  rw [takesOldestFree_iff oldest, freeReleasedFirst_iff oldest]

/-- Alice has reserved the index that was released last. -/
theorem new_pool_takes_oldest_free :
    ∃ pool, poolMachine.Reaches anyEvent
        (newDHCPPool 2 OldestReleased fun index => index) pool ∧
      pool.mac 1 = some alice ∧ pool.TakesOldestFree := by
  obtain ⟨pool, replayed, view⟩ := Option.map_eq_some_iff.mp
    (show (poolMachine.replay? (fun _ _ => true) (newDHCPPool 2 OldestReleased fun index => index)
        [⟨.reserveIPIndex 1 alice, 0, ⟨[], [], 0⟩⟩]).map (fun pool => (pool.mac 1, decide
          (0 ∈ pool.free ∧ ∀ index ∈ pool.bound, pool.releasedAt 0 < pool.releasedAt index))) =
      some (some alice, true) by decide +kernel)
  obtain ⟨bound, releasedFirst⟩ := Prod.mk.inj view
  have reached := reaches_anyEvent_of_replay? replayed .refl
  exact ⟨pool, reached, bound, (oldest_released_exact_iff reached).mpr fun _ =>
    ⟨0, of_decide_eq_true releasedFirst⟩⟩

end DHCPPool

namespace Scenario

def twoOldest : DHCPPool := .newDHCPPool 2 OldestReleased fun index => index

/-- `OldestReleased` looks at the release times only: 0 is the older index. -/
def olderFirst (keys : List Nat) : DHCPPool.Draw := ⟨[(0, 0), (1, 1)], keys, 0⟩

/-- The second client is given the index the first one holds. -/
theorem oldest_released_taken_twice :
    ∃ pool next, poolMachine.Reaches anyEvent twoOldest pool ∧
      pool.mac 0 = some alice ∧ 1 ∈ pool.free ∧
      pool.answer? 0 (olderFirst [1]) (.getFreeIPIndex bob) = some (next, .taken 0 bob none) := by
  have replayed : (poolMachine.replay? (fun _ _ => true) twoOldest
      [⟨.getFreeIPIndex alice, 0, olderFirst [0, 1]⟩]).map (fun pool =>
        (pool.mac 0, decide (1 ∈ pool.free),
          (pool.answer? 0 (olderFirst [1]) (.getFreeIPIndex bob)).map Prod.snd)) =
      some (some alice, true, some (.taken 0 bob none)) := by decide +kernel
  rcases Option.map_eq_some_iff.mp replayed with ⟨pool, run, view⟩
  simp only [Prod.mk.injEq, decide_eq_true_eq] at view
  rcases Option.map_eq_some_iff.mp view.2.2 with ⟨⟨next, reply⟩, answered, rfl⟩
  exact ⟨pool, next, reaches_anyEvent_of_replay? run .refl, view.1, view.2.1, answered⟩

end Scenario

end PacketFence.Dhcp
