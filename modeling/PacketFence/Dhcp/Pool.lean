import Mathlib.Data.Finset.Card

/-!
# The in-memory DHCP pool

`DHCPPool` keeps the three Go maps of the memory backend: the set of free
indices, the MAC bound to each taken index and the time each index was last
released. The backend's lock makes every operation one atomic step. Errors
are returned next to the result, as in Go, because some callers read the result
without looking at the error.
-/

namespace PacketFence.Dhcp

open Function

abbrev Mac := String

def FreeMac : Mac := "00:00:00:00:00:00"

def FakeMac : Mac := "ff:ff:ff:ff:ff:ff"

/-- The algorithm number of `OldestReleased`; every other number picks at
random among the free indices. -/
def OldestReleased : Int := 2

structure DHCPPool where
  free : Finset Nat
  mac : Nat → Option Mac
  capacity : Nat
  released : Nat → Option Int
  algorithm : Int
  free_lt : ∀ index ∈ free, index < capacity
  mac_isSome_iff : ∀ index, (mac index).isSome ↔ index < capacity ∧ index ∉ free
  released_isSome_iff : ∀ index, (released index).isSome ↔ index < capacity

namespace DHCPPool

/-- A new pool: every index is free. The loop that fills the maps reads the
clock for each index. -/
def newDHCPPool (capacity : Nat) (algorithm : Int) (now : Nat → Int) : DHCPPool where
  free := Finset.range capacity
  mac := fun _ => none
  capacity := capacity
  released := fun index => if index < capacity then some (now index) else none
  algorithm := algorithm
  free_lt := by simp
  mac_isSome_iff := by simp
  released_isSome_iff := by
    intro index
    by_cases inside : index < capacity <;> simp [inside]

variable (pool : DHCPPool)

def indexInPool (index : Nat) : Bool :=
  decide (index < pool.capacity)

def isFreeIPAtIndex (index : Nat) : Bool :=
  pool.indexInPool index && decide (index ∈ pool.free)

def freeIPsRemaining : Nat := pool.free.card

/-- `delete(free, index)` followed by `mac[index] = mac`. -/
def assign (index : Nat) (mac : Mac) (inside : index < pool.capacity) : DHCPPool where
  free := pool.free.erase index
  mac := update pool.mac index (some mac)
  capacity := pool.capacity
  released := pool.released
  algorithm := pool.algorithm
  free_lt := fun other member =>
    pool.free_lt other (Finset.mem_of_mem_erase member)
  mac_isSome_iff := by
    intro other
    by_cases same : other = index
    · subst other
      simp [inside]
    · simp [pool.mac_isSome_iff, same]
  released_isSome_iff := pool.released_isSome_iff

/-- `free[index] = true`, `released[index] = now`, `delete(mac, index)`. -/
def unassign (index : Nat) (now : Int) (inside : index < pool.capacity) : DHCPPool where
  free := insert index pool.free
  mac := update pool.mac index none
  capacity := pool.capacity
  released := update pool.released index (some now)
  algorithm := pool.algorithm
  free_lt := by
    intro other member
    rcases Finset.mem_insert.mp member with same | older
    · exact same ▸ inside
    · exact pool.free_lt other older
  mac_isSome_iff := by
    intro other
    by_cases same : other = index
    · subst other
      simp
    · simp [pool.mac_isSome_iff, same]
  released_isSome_iff := by
    intro other
    by_cases same : other = index
    · subst other
      simp [inside]
    · simp [update_of_ne same, pool.released_isSome_iff]

def reserveIPIndex (index : Nat) (mac : Mac) : DHCPPool × Mac × Option String :=
  if inside : index < pool.capacity then
    if index ∈ pool.free then
      (pool.assign index mac inside, mac, none)
    else
      (pool, FreeMac, some "IP is already reserved")
  else
    (pool, FreeMac,
      some "Trying to reserve an IP that is outside the capacity of this pool")

def freeIPIndex (now : Int) (index : Nat) : DHCPPool × Option String :=
  if inside : index < pool.capacity then
    if index ∈ pool.free then
      (pool, some "IP is already free")
    else
      (pool.unassign index now inside, none)
  else
    (pool, some "Trying to free an IP that is outside the capacity of this pool")

def getMACIndex (index : Nat) : Nat × Mac × Option String :=
  if pool.indexInPool index then
    if index ∈ pool.free then
      (index, FreeMac, none)
    else
      (index, (pool.mac index).getD "", none)
  else
    (index, FreeMac, some "The index is not part of the pool")

/-- The indices `GetFreeIPIndex` may take. `OldestReleased` sorts the release
times of all indices, bound ones included, and takes the head; the order among
equal times is not determined. The other algorithms walk the free map from a
random start. -/
def Pickable (index : Nat) : Prop :=
  if pool.algorithm = OldestReleased then
    index < pool.capacity ∧
      ∀ other ∈ Finset.range pool.capacity,
        (pool.released index).getD 0 ≤ (pool.released other).getD 0
  else
    index ∈ pool.free

instance (pool : DHCPPool) (index : Nat) : Decidable (pool.Pickable index) := by
  unfold Pickable
  infer_instance

variable {index : Nat} {mac : Mac}

theorem Pickable.lt_capacity {pool : DHCPPool}
    (pickable : pool.Pickable index) : index < pool.capacity := by
  unfold Pickable at pickable
  split at pickable
  · exact pickable.1
  · exact pool.free_lt index pickable

/-- `GetFreeIPIndex` with the index the algorithm settles on. -/
def getFreeIPIndex (pool : DHCPPool) (available : Nat) (mac : Mac)
    (pickable : pool.Pickable available) : DHCPPool × Nat × Mac × Option String :=
  if pool.free.card = 0 then
    (pool, 0, FreeMac, some "DHCP pool is full")
  else
    (pool.assign available mac pickable.lt_capacity, available, mac, none)

variable (pool : DHCPPool)

theorem mac_eq_none_of_mem_free (member : index ∈ pool.free) : pool.mac index = none := by
  have unbound := (pool.mac_isSome_iff index).not.mpr (fun bound => bound.2 member)
  simpa using unbound

theorem lt_capacity_of_mac (bound : pool.mac index = some mac) : index < pool.capacity :=
  ((pool.mac_isSome_iff index).mp (by simp [bound])).1

theorem not_mem_free_of_mac (bound : pool.mac index = some mac) : index ∉ pool.free :=
  ((pool.mac_isSome_iff index).mp (by simp [bound])).2

@[simp]
theorem assign_mac (index : Nat) (mac : Mac) (inside : index < pool.capacity) :
    (pool.assign index mac inside).mac = update pool.mac index (some mac) := rfl

@[simp]
theorem assign_free (index : Nat) (mac : Mac) (inside : index < pool.capacity) :
    (pool.assign index mac inside).free = pool.free.erase index := rfl

@[simp]
theorem unassign_mac (index : Nat) (now : Int) (inside : index < pool.capacity) :
    (pool.unassign index now inside).mac = update pool.mac index none := rfl

@[simp]
theorem isFreeIPAtIndex_iff (index : Nat) :
    pool.isFreeIPAtIndex index = true ↔ index ∈ pool.free := by
  simp only [isFreeIPAtIndex, indexInPool, Bool.and_eq_true, decide_eq_true_eq]
  exact ⟨fun both => both.2, fun member => ⟨pool.free_lt index member, member⟩⟩

@[simp] theorem reserveIPIndex_of_not_mem (mac : Mac)
    (taken : index ∉ pool.free) : (pool.reserveIPIndex index mac).1 = pool := by
  unfold reserveIPIndex
  by_cases inside : index < pool.capacity <;> simp [inside, taken]

@[simp] theorem reserveIPIndex_mac (index : Nat) (mac : Mac) :
    (pool.reserveIPIndex index mac).1.mac =
      if index ∈ pool.free then update pool.mac index (some mac)
      else pool.mac := by
  unfold reserveIPIndex
  by_cases member : index ∈ pool.free
  · simp [member, pool.free_lt index member]
  · by_cases inside : index < pool.capacity <;> simp [member, inside]

theorem reserveIPIndex_free (index : Nat) (mac : Mac) :
    (pool.reserveIPIndex index mac).1.free = pool.free.erase index := by
  unfold reserveIPIndex
  by_cases member : index ∈ pool.free
  · simp [member, pool.free_lt index member]
  · by_cases inside : index < pool.capacity <;> simp [member, inside]

theorem reserveIPIndex_error_eq_none_iff (index : Nat) (mac : Mac) :
    (pool.reserveIPIndex index mac).2.2 = none ↔ index ∈ pool.free := by
  unfold reserveIPIndex
  by_cases member : index ∈ pool.free
  · simp [member, pool.free_lt index member]
  · by_cases inside : index < pool.capacity <;> simp [member, inside]

theorem reserveIPIndex_returned (accepted : (pool.reserveIPIndex index mac).2.2 = none) :
    (pool.reserveIPIndex index mac).2.1 = mac := by
  have member := (pool.reserveIPIndex_error_eq_none_iff index mac).mp accepted
  simp [reserveIPIndex, member, pool.free_lt index member]

theorem reserveIPIndex_mac_of_bound {other : Nat} {holder : Mac}
    (bound : pool.mac other = some holder) :
    (pool.reserveIPIndex index mac).1.mac other = some holder := by
  rw [reserveIPIndex_mac]
  split
  next member =>
    have distinct : other ≠ index := by
      rintro rfl
      exact pool.not_mem_free_of_mac bound member
    rw [update_of_ne distinct, bound]
  · exact bound

@[simp]
theorem freeIPIndex_mac (now : Int) (index : Nat) :
    (pool.freeIPIndex now index).1.mac = update pool.mac index none := by
  unfold freeIPIndex
  by_cases inside : index < pool.capacity
  · by_cases member : index ∈ pool.free
    · simp [inside, member, pool.mac_eq_none_of_mem_free member]
    · simp [inside, member]
  · have unbound : pool.mac index = none := by
      by_contra bound
      rcases Option.ne_none_iff_exists'.mp bound with ⟨mac, holds⟩
      exact inside (pool.lt_capacity_of_mac holds)
    simp [inside, unbound]

theorem mac_of_getMACIndex (read : (pool.getMACIndex index).2.1 = mac) (real : mac ≠ FreeMac) :
    pool.mac index = some mac := by
  unfold getMACIndex at read
  split at read
  next inside =>
    split at read
    · exact absurd read.symm real
    next taken =>
      have bound := (pool.mac_isSome_iff index).mpr ⟨of_decide_eq_true inside, taken⟩
      rcases Option.isSome_iff_exists.mp bound with ⟨holder, holds⟩
      simpa [holds] using read
  · exact absurd read.symm real

theorem getFreeIPIndex_accepted {available : Nat} {pickable : pool.Pickable available}
    (accepted : (pool.getFreeIPIndex available mac pickable).2.2.2 = none) :
    pool.getFreeIPIndex available mac pickable =
      (pool.assign available mac pickable.lt_capacity, available, mac, none) := by
  unfold getFreeIPIndex at accepted ⊢
  split at accepted
  · simp at accepted
  next nonempty => simp [nonempty]

end DHCPPool

end PacketFence.Dhcp
