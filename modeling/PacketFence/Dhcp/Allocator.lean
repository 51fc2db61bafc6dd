import Mathlib.Data.Finset.Sort
import PacketFence.Dhcp.Pool
import PacketFence.Foundations.Machine

/-!
# The memory backend as an allocator

The calls of the `Backend` interface, answered by the memory pool. What Go
leaves open in `GetFreeIPIndex` (the order `range` walks a map in, the number
`rand.Intn` draws, the order `sort.Slice` leaves equal release times in) is a
`Draw`; the loops that turn a draw into an index are followed as they are
written.
-/

namespace PacketFence.Dhcp

open Foundations List

/-- The calls of the `Backend` interface that look at single indices. -/
inductive PoolCall where
  | reserveIPIndex (index : Nat) (mac : Mac)
  | freeIPIndex (index : Nat)
  | isFreeIPAtIndex (index : Nat)
  | getMACIndex (index : Nat)
  | getFreeIPIndex (mac : Mac)
  | freeIPsRemaining

/-- What a call returns, with the error next to the values. -/
inductive PoolReply where
  | reserved (mac : Mac) (error : Option String)
  | freed (error : Option String)
  | isFree (free : Bool)
  | holder (index : Nat) (mac : Mac) (error : Option String)
  | taken (index : Nat) (mac : Mac) (error : Option String)
  | remaining (count : Nat)
  deriving DecidableEq

/-- The error of a reply; the last two calls cannot report any. -/
def PoolReply.error : PoolReply → Option String
  | .reserved _ error | .freed error | .holder _ _ error | .taken _ _ error => error
  | .isFree _ | .remaining _ => none

def PoolCall.HandsOut (call : PoolCall) (reply : PoolReply) (index : Nat) : Prop :=
  reply.error = none ∧
    ((∃ mac, call = .reserveIPIndex index mac) ∨ ∃ mac, reply = .taken index mac none)

/-- The call is a successful `FreeIPIndex` of the index. -/
def PoolCall.Frees (call : PoolCall) (reply : PoolReply) (index : Nat) : Prop :=
  call = .freeIPIndex index ∧ reply.error = none

variable {index : Nat} {pool next : DHCPPool} {draw : Draw}

namespace DHCPPool

def releasedEntries (pool : DHCPPool) : List (Nat × Int) :=
  (List.range pool.capacity).map fun index => (index, (pool.released index).getD 0)

def bound (pool : DHCPPool) : Finset Nat :=
  (Finset.range pool.capacity).filter fun index => (pool.mac index).isSome

/-- What is left open in one call of `GetFreeIPIndex`. -/
structure Draw where
  ss : List (Nat × Int)
  /-- the keys of `free` in the order `range` visits them -/
  keys : List Nat
  index : Nat

/-- The draws Go can make on a pool. -/
structure Draw.Possible (draw : Draw) (pool : DHCPPool) : Prop where
  ss_perm : draw.ss.Perm pool.releasedEntries
  ss_sorted : draw.ss.Pairwise fun earlier later => earlier.2 ≤ later.2
  keys_eq : (draw.keys : Multiset Nat) = pool.free.val
  index_lt : pool.free.card ≠ 0 → draw.index < pool.free.card

instance (draw : Draw) (pool : DHCPPool) : Decidable (draw.Possible pool) :=
  decidable_of_iff
    (draw.ss.Perm pool.releasedEntries ∧
      draw.ss.Pairwise (fun earlier later => earlier.2 ≤ later.2) ∧
      (draw.keys : Multiset Nat) = pool.free.val ∧
      (pool.free.card ≠ 0 → draw.index < pool.free.card))
    ⟨fun ⟨perm, sorted, keys, index⟩ => ⟨perm, sorted, keys, index⟩,
      fun ⟨perm, sorted, keys, index⟩ => ⟨perm, sorted, keys, index⟩⟩

/-- The loop over the free map: `available` is the key it stops at when the
count has come down to 0. -/
def countDown : List Nat → Nat → Nat → Nat
  | [], _, available => available
  | key :: _, 0, _ => key
  | key :: rest, index + 1, _ => countDown rest index key

def available (pool : DHCPPool) (draw : Draw) : Nat :=
  if pool.algorithm = OldestReleased then
    match draw.ss with
    | [] => 0
    | entry :: _ => entry.1
  else
    countDown draw.keys draw.index 0

theorem countDown_mem {keys : List Nat} (inside : index < keys.length)
    (available : Nat) : countDown keys index available ∈ keys := by
  induction keys generalizing index available with
  | nil => simp at inside
  | cons key rest ih =>
    cases index with
    | zero => exact mem_cons_self
    | succ index =>
      apply mem_cons_of_mem
      apply ih
      simpa using inside

theorem mem_releasedEntries {entry : Nat × Int} :
    entry ∈ pool.releasedEntries ↔
      entry.1 < pool.capacity ∧ entry.2 = (pool.released entry.1).getD 0 := by
  simp only [releasedEntries, mem_map, mem_range]
  constructor
  · rintro ⟨index, inside, rfl⟩
    exact ⟨inside, rfl⟩
  · rintro ⟨inside, time⟩
    exact ⟨entry.1, inside, Prod.ext rfl time.symm⟩

@[simp] theorem Draw.Possible.keys_mem (possible : draw.Possible pool) :
    index ∈ draw.keys ↔ index ∈ pool.free := by
  rw [← Multiset.mem_coe, possible.keys_eq, Finset.mem_val]

@[simp] theorem Draw.Possible.keys_length (possible : draw.Possible pool) :
    draw.keys.length = pool.free.card := by
  rw [← Multiset.coe_card, possible.keys_eq, Finset.card_val]

theorem Draw.Possible.pickable (possible : draw.Possible pool)
    (nonempty : pool.free.card ≠ 0) : pool.Pickable (pool.available draw) := by
  unfold Pickable available
  split
  · have entries : ∀ index, index < pool.capacity →
        (index, (pool.released index).getD 0) ∈ draw.ss := fun index inside =>
      possible.ss_perm.mem_iff.mpr (mem_releasedEntries.mpr ⟨inside, rfl⟩)
    rcases Finset.card_ne_zero.mp nonempty with ⟨member, membership⟩
    have sorted := possible.ss_sorted
    cases listed : draw.ss with
    | nil => simpa [listed] using entries member (pool.free_lt member membership)
    | cons entry rest =>
      rw [listed] at sorted entries
      have isEntry := mem_releasedEntries.mp (possible.ss_perm.mem_iff.mp (listed ▸ mem_cons_self))
      refine ⟨isEntry.1, fun other inside => ?_⟩
      rw [← isEntry.2]
      rcases mem_cons.mp (entries other (Finset.mem_range.mp inside)) with same | later
      · rw [← same]
      · exact rel_of_pairwise_cons sorted later
  · apply possible.keys_mem.mp
    apply countDown_mem
    rw [possible.keys_length]
    exact possible.index_lt nonempty

def releasedBefore (earlier later : Nat × Int) : Bool := decide (earlier.2 ≤ later.2)

theorem exists_sorted (entries : List (Nat × Int)) :
    ∃ ss : List (Nat × Int), ss.Perm entries ∧
      ss.Pairwise fun earlier later => earlier.2 ≤ later.2 := by
  have transitive : ∀ a b c, releasedBefore a b = true → releasedBefore b c = true →
      releasedBefore a c = true := fun a b c first second =>
    decide_eq_true (le_trans (of_decide_eq_true first) (of_decide_eq_true second))
  have total : ∀ a b, (releasedBefore a b || releasedBefore b a) = true := fun a b => by
    simpa [releasedBefore] using le_total a.2 b.2
  exact ⟨entries.mergeSort releasedBefore, mergeSort_perm _ _,
    (pairwise_mergeSort transitive total entries).imp of_decide_eq_true⟩

theorem exists_available_eq (pickable : pool.Pickable index) (nonempty : pool.free.card ≠ 0) :
    ∃ draw : Draw, draw.Possible pool ∧ pool.available draw = index := by
  have positive := Nat.pos_of_ne_zero nonempty
  unfold Pickable at pickable
  split at pickable
  next oldest =>
    let entry := (index, (pool.released index).getD 0)
    have listed : entry ∈ pool.releasedEntries := mem_releasedEntries.mpr ⟨pickable.1, rfl⟩
    rcases exists_sorted (pool.releasedEntries.erase entry) with ⟨later, perm, sorted⟩
    refine ⟨⟨entry :: later, pool.free.val.toList, 0⟩, ⟨?_, ?_, ?_, fun _ => positive⟩, ?_⟩
    · exact (perm.cons entry).trans (perm_cons_erase listed).symm
    · refine pairwise_cons.mpr ⟨fun other member => ?_, sorted⟩
      have isEntry := mem_releasedEntries.mp (mem_of_mem_erase (perm.mem_iff.mp member))
      rw [isEntry.2]
      exact pickable.2 other.1 (Finset.mem_range.mpr isEntry.1)
    · exact Multiset.coe_toList _
    · simp [available, oldest, entry]
  next random =>
    rcases exists_sorted pool.releasedEntries with ⟨ss, perm, sorted⟩
    refine ⟨⟨ss, index :: (pool.free.erase index).val.toList, 0⟩,
      ⟨perm, sorted, ?_, fun _ => positive⟩, ?_⟩
    · rw [← Multiset.cons_coe, Multiset.coe_toList, Finset.erase_val]
      exact Multiset.cons_erase pickable
    · simp [available, random, countDown]

theorem exists_pickable (nonempty : pool.free.Nonempty) : ∃ index, pool.Pickable index := by
  rcases nonempty with ⟨member, membership⟩
  unfold Pickable
  split
  · rcases Finset.exists_min_image (Finset.range pool.capacity)
      (fun index => (pool.released index).getD 0)
      ⟨member, Finset.mem_range.mpr (pool.free_lt member membership)⟩ with ⟨first, inside, least⟩
    exact ⟨first, Finset.mem_range.mp inside, least⟩
  · exact ⟨member, membership⟩

/-- `GetFreeIPIndex` with everything Go leaves open. -/
def getFreeIPIndexDrawn (pool : DHCPPool) (draw : Draw) (possible : draw.Possible pool)
    (mac : Mac) : DHCPPool × Nat × Mac × Option String :=
  if full : pool.free.card = 0 then
    (pool, 0, FreeMac, some "DHCP pool is full")
  else
    pool.getFreeIPIndex (pool.available draw) mac (possible.pickable full)

def answer? (pool : DHCPPool) (now : Int) (draw : Draw) :
    PoolCall → Option (DHCPPool × PoolReply)
  | .reserveIPIndex index mac =>
    let result := pool.reserveIPIndex index mac
    some (result.1, .reserved result.2.1 result.2.2)
  | .freeIPIndex index =>
    let result := pool.freeIPIndex now index
    some (result.1, .freed result.2)
  | .isFreeIPAtIndex index => some (pool, .isFree (pool.isFreeIPAtIndex index))
  | .getMACIndex index =>
    let result := pool.getMACIndex index
    some (pool, .holder result.1 result.2.1 result.2.2)
  | .getFreeIPIndex mac =>
    if possible : draw.Possible pool then
      let result := pool.getFreeIPIndexDrawn draw possible mac
      some (result.1, .taken result.2.1 result.2.2.1 result.2.2.2)
    else
      none
  | .freeIPsRemaining => some (pool, .remaining pool.freeIPsRemaining)

end DHCPPool

structure PoolEvent where
  call : PoolCall
  now : Int := 0
  draw : DHCPPool.Draw := ⟨[], [], 0⟩

def poolMachine : Machine DHCPPool PoolEvent where
  step? pool event := (pool.answer? event.now event.draw event.call).map Prod.fst

namespace DHCPPool

variable {now : Int} {call : PoolCall} {reply : PoolReply}

@[simp] theorem mem_bound : index ∈ pool.bound ↔ (pool.mac index).isSome := by
  simp only [bound, Finset.mem_filter, Finset.mem_range, and_iff_right_iff_imp]
  exact fun taken => ((pool.mac_isSome_iff index).mp taken).1

theorem bound_eq_sdiff : pool.bound = Finset.range pool.capacity \ pool.free := by
  ext index
  rw [mem_bound, pool.mac_isSome_iff, Finset.mem_sdiff, Finset.mem_range]

theorem free_subset (pool : DHCPPool) : pool.free ⊆ Finset.range pool.capacity :=
  fun index member => Finset.mem_range.mpr (pool.free_lt index member)

theorem freeIPsRemaining_eq : pool.freeIPsRemaining = pool.capacity - pool.bound.card := by
  have bounded := Finset.card_le_card pool.free_subset
  rw [Finset.card_range] at bounded
  rw [bound_eq_sdiff, Finset.card_sdiff_of_subset pool.free_subset, Finset.card_range,
    freeIPsRemaining, Nat.sub_sub_self bounded]

variable (possible : draw.Possible pool)

theorem getFreeIPIndexDrawn_of_full (mac : Mac) (full : pool.free.card = 0) :
    pool.getFreeIPIndexDrawn draw possible mac =
      (pool, 0, FreeMac, some "DHCP pool is full") := dif_pos full

theorem getFreeIPIndexDrawn_of_not_full (mac : Mac) (notFull : pool.free.card ≠ 0) :
    pool.getFreeIPIndexDrawn draw possible mac =
      (pool.assign (pool.available draw) mac (possible.pickable notFull).lt_capacity,
        pool.available draw, mac, none) := by
  rw [getFreeIPIndexDrawn, dif_neg notFull, getFreeIPIndex, if_neg notFull]

/-- Everything a call can do to the pool and say about it. -/
inductive Answers (pool : DHCPPool) (now : Int) :
    PoolCall → DHCPPool → PoolReply → Prop where
  | reserved {index : Nat} {mac : Mac} (inside : index < pool.capacity)
      (member : index ∈ pool.free) :
      Answers pool now (.reserveIPIndex index mac) (pool.assign index mac inside)
        (.reserved mac none)
  | notReserved {index : Nat} {mac : Mac} (error : String) (taken : index ∉ pool.free) :
      Answers pool now (.reserveIPIndex index mac) pool (.reserved FreeMac (some error))
  | freed {index : Nat} (inside : index < pool.capacity) (taken : index ∉ pool.free) :
      Answers pool now (.freeIPIndex index) (pool.unassign index now inside) (.freed none)
  | notFreed {index : Nat} (error : String) (unbound : index ∉ pool.bound) :
      Answers pool now (.freeIPIndex index) pool (.freed (some error))
  | isFree {index : Nat} :
      Answers pool now (.isFreeIPAtIndex index) pool (.isFree (pool.isFreeIPAtIndex index))
  | holder {index : Nat} :
      Answers pool now (.getMACIndex index) pool
        (.holder (pool.getMACIndex index).1 (pool.getMACIndex index).2.1
          (pool.getMACIndex index).2.2)
  | taken {index : Nat} {mac : Mac} (notFull : pool.free.card ≠ 0)
      (pickable : pool.Pickable index) :
      Answers pool now (.getFreeIPIndex mac) (pool.assign index mac pickable.lt_capacity)
        (.taken index mac none)
  | full {mac : Mac} (full : pool.free.card = 0) :
      Answers pool now (.getFreeIPIndex mac) pool
        (.taken 0 FreeMac (some "DHCP pool is full"))
  | remaining :
      Answers pool now .freeIPsRemaining pool (.remaining pool.freeIPsRemaining)

theorem answers_of_answer? (answered : pool.answer? now draw call = some (next, reply)) :
    pool.Answers now call next reply := by
  cases call with
  | reserveIPIndex index mac =>
    cases answered
    unfold reserveIPIndex
    split
    next inside =>
      split
      next member => exact .reserved inside member
      next taken => exact .notReserved _ taken
    next outside => exact .notReserved _ fun member => outside (pool.free_lt _ member)
  | freeIPIndex index =>
    cases answered
    unfold freeIPIndex
    split
    next inside =>
      split
      next member =>
        apply Answers.notFreed
        rw [mem_bound, pool.mac_isSome_iff]
        exact fun both => both.2 member
      next taken => exact .freed inside taken
    next outside =>
      apply Answers.notFreed
      rw [mem_bound, pool.mac_isSome_iff]
      exact fun both => outside both.1
  | isFreeIPAtIndex index =>
    cases answered
    exact .isFree
  | getMACIndex index =>
    cases answered
    exact .holder
  | getFreeIPIndex mac =>
    simp only [answer?] at answered
    split at answered
    next possible =>
      by_cases full : pool.free.card = 0
      · rw [getFreeIPIndexDrawn_of_full possible mac full] at answered
        cases answered
        exact .full full
      · rw [getFreeIPIndexDrawn_of_not_full possible mac full] at answered
        cases answered
        exact .taken full (possible.pickable full)
    · cases answered
  | freeIPsRemaining =>
    cases answered
    exact .remaining

theorem isSome_answer? (possible : draw.Possible pool) (now : Int) (call : PoolCall) :
    (pool.answer? now draw call).isSome := by
  cases call with
  | getFreeIPIndex mac => simp [answer?, possible]
  | _ => rfl

theorem answer?_getFreeIPIndex (notFull : pool.free.card ≠ 0) (now : Int) (mac : Mac) :
    pool.answer? now draw (.getFreeIPIndex mac) =
      some (pool.assign (pool.available draw) mac (possible.pickable notFull).lt_capacity,
        .taken (pool.available draw) mac none) := by
  simp [answer?, dif_pos possible, getFreeIPIndexDrawn_of_not_full possible mac notFull]

section

variable (answers : pool.Answers now call next reply)

include answers

theorem Answers.same_settings :
    next.capacity = pool.capacity ∧ next.algorithm = pool.algorithm := by
  cases answers <;> exact ⟨rfl, rfl⟩

theorem Answers.taken_of_taken
    (taken : index ∉ pool.free) (spared : ¬call.Frees reply index) : index ∉ next.free := by
  cases answers with
  | reserved | taken => exact fun member => taken (Finset.mem_of_mem_erase member)
  | freed inside =>
    intro member
    rcases Finset.mem_insert.mp member with rfl | older
    · exact spared ⟨rfl, rfl⟩
    · exact taken older
  | _ => exact taken

theorem Answers.taken_of_handsOut (handed : call.HandsOut reply index) : index ∉ next.free := by
  rcases handed with ⟨accepted, ⟨mac, rfl⟩ | ⟨mac, rfl⟩⟩
  · cases answers with
    | reserved => exact Finset.notMem_erase _ _
    | notReserved => cases accepted
  · cases answers
    exact Finset.notMem_erase _ _

end

theorem mem_free_of_pickable (random : pool.algorithm ≠ OldestReleased)
    (pickable : pool.Pickable index) : index ∈ pool.free := by
  simpa [Pickable, random] using pickable

theorem Answers.free_of_handsOut (answers : pool.Answers now call next reply)
    (random : pool.algorithm ≠ OldestReleased)
    (handed : call.HandsOut reply index) : index ∈ pool.free := by
  rcases handed with ⟨accepted, ⟨mac, rfl⟩ | ⟨mac, rfl⟩⟩
  · cases answers with
    | reserved _ member => exact member
    | notReserved => cases accepted
  · cases answers with
    | taken _ pickable => exact mem_free_of_pickable random pickable

end DHCPPool

def Spares (index : Nat) (pool : DHCPPool) (event : PoolEvent) : Prop :=
  ∀ next reply, pool.answer? event.now event.draw event.call = some (next, reply) →
    ¬event.call.Frees reply index

namespace DHCPPool

theorem answers_of_step {event : PoolEvent} (stepped : poolMachine.step? pool event = some next) :
    ∃ reply, pool.answer? event.now event.draw event.call = some (next, reply) := by
  rcases Option.map_eq_some_iff.mp stepped with ⟨⟨after, reply⟩, answered, rfl⟩
  exact ⟨reply, answered⟩

theorem same_settings_of_reaches {allowed : DHCPPool → PoolEvent → Prop}
    (reached : poolMachine.Reaches allowed pool next) :
    next.capacity = pool.capacity ∧ next.algorithm = pool.algorithm := by
  apply reached.invariant
  · exact ⟨rfl, rfl⟩
  · intro state event after same _ stepped
    rcases answers_of_step stepped with ⟨reply, answered⟩
    rcases (answers_of_answer? answered).same_settings with ⟨capacity, algorithm⟩
    exact ⟨capacity.trans same.1, algorithm.trans same.2⟩

theorem taken_of_reaches (reached : poolMachine.Reaches (Spares index) pool next)
    (taken : index ∉ pool.free) : index ∉ next.free := by
  apply reached.invariant taken
  intro state event after untouched spared stepped
  rcases answers_of_step stepped with ⟨reply, answered⟩
  exact (answers_of_answer? answered).taken_of_taken untouched (spared _ _ answered)

end DHCPPool

end PacketFence.Dhcp
