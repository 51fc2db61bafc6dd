import PacketFence.Dhcp.Allocator
import PacketFence.Dhcp.Server
import PacketFence.Foundations.Latch

/-!
# Restoring the leases at start-up

`initiaLease` takes the excluded addresses out of the pool, gives the statically
assigned ones to their MACs, and then restores the leases of the `ip4log` rows
in the order the database returns them. The flag that skips a row is declared
outside the loop over the rows.
-/

namespace PacketFence.Dhcp

open Foundations List Function DHCPPool

/-- What Go's libraries make of the configured texts. -/
structure AddressTexts where
  /-- `net.ParseIP`, where nil is `none` -/
  parseIP : List Char → Option UInt32
  /-- the MAC and the address the regular expression finds in one static
  assignment; on `none` the code panics -/
  couple? : List Char → Option (Mac × UInt32)

def addressesFrom (start : UInt32) : Nat → List UInt32
  | 0 => [start]
  | more + 1 => start :: addressesFrom (start + 1) more

/-- One part of a list of ranges. The loop over a range ends when both ends are
equal, so it does not return if the last address is not reached. -/
def AddressTexts.rangeAddresses? (texts : AddressTexts) (rangeip : List Char) :
    Option (List (Option UInt32)) :=
  match rangeip.splitOn '-' with
  | first :: last :: _ =>
    match texts.parseIP first, texts.parseIP last with
    | some start, some stop =>
      if start ≤ stop then
        some ((addressesFrom start (stop - start).toNat).map some)
      else
        none
    | none, none => some [none]
    | _, _ => none
  | ips => some (ips.map texts.parseIP)

def AddressTexts.ipsFromRange? (texts : AddressTexts) (iPrange : List Char) :
    Option (List (Option UInt32)) :=
  ((iPrange.splitOn ',').mapM texts.rangeAddresses?).map List.flatten

def AddressTexts.couples? (texts : AddressTexts) (ipRange : List Char) :
    Option (List (Mac × UInt32)) :=
  if ipRange = [] then some [] else (ipRange.splitOn ',').mapM texts.couple?

structure LogRow where
  ip : UInt32
  mac : Mac
  endTime : Option Int

structure Stored (Value : Type) where
  value : Value
  leaseDuration : Int
  deriving DecidableEq

structure LeaseNetwork where
  start : UInt32
  leaseRange : Nat
  leaseDuration : Int
  ipReserved : List Char
  ipAssigned : List Char

/-- What `initiaLease` writes: the pool and the caches of the handler, and the
caches all handlers share. -/
structure LeaseState where
  available : DHCPPool
  hwcache : Mac → Option (Stored Nat)
  ipAssigned : Mac → Option Nat
  globalIPCache : UInt32 → Option (Stored Mac)
  globalMacCache : Mac → Option (Stored UInt32)

namespace LeaseNetwork

variable (network : LeaseNetwork)

def position (ip : UInt32) : Nat := (ip - network.start).toNat

def fresh (algorithm : Int) (created : Nat → Int) (globalIPCache : UInt32 → Option (Stored Mac))
    (globalMacCache : Mac → Option (Stored UInt32)) : LeaseState where
  available := .newDHCPPool network.leaseRange algorithm created
  hwcache := fun _ => none
  ipAssigned := fun _ => none
  globalIPCache := globalIPCache
  globalMacCache := globalMacCache

def excludeIP (pool : DHCPPool) (excludeIPs : List (Option UInt32)) : DHCPPool :=
  excludeIPs.foldl (fun pool excludeIP =>
    match excludeIP with
    | none => pool
    | some ip => (pool.reserveIPIndex (network.position ip) FakeMac).1) pool

def assignIP (pool : DHCPPool) (couples : List (Mac × UInt32)) : DHCPPool :=
  couples.foldl (fun pool couple =>
    (pool.reserveIPIndex (network.position couple.2) couple.1).1) pool

/-- The map `couple` of `AssignIP`. -/
def assignedPositions (couples : List (Mac × UInt32)) : Mac → Option Nat :=
  couples.foldl (fun assigned couple =>
    Function.update assigned couple.1 (some (network.position couple.2))) fun _ => none

def leaseTime (now : Int) (row : LogRow) : Int :=
  match row.endTime with
  | none => network.leaseDuration
  | some endTime => endTime - now

def restoreRow (now : Int) (state : LeaseState) (row : LogRow) : LeaseState :=
  let leaseDuration := network.leaseTime now row
  let position := network.position row.ip
  { state with
    available := (state.available.reserveIPIndex position row.mac).1
    hwcache := Function.update state.hwcache row.mac (some ⟨position, leaseDuration⟩)
    globalIPCache := Function.update state.globalIPCache row.ip (some ⟨row.mac, leaseDuration⟩)
    globalMacCache :=
      Function.update state.globalMacCache row.mac (some ⟨row.ip, leaseDuration⟩) }

/-- One round of the loop over the rows, with the flag `found`. -/
def rowStep (now : Int) (reserved : List (Option UInt32))
    (state : Bool × LeaseState) (row : LogRow) : Bool × LeaseState :=
  let found := if reserved.any (fun ans => some row.ip == ans) then true else state.1
  (found, if found = false then network.restoreRow now state.2 row else state.2)

/-- `initiaLease` with the rows the database returned. -/
def initiaLease? (texts : AddressTexts) (now : Int)
    (rows : List LogRow) (state : LeaseState) : Option LeaseState := do
  let excludeIPs ← texts.ipsFromRange? network.ipReserved
  let couples ← texts.couples? network.ipAssigned
  let reserved := excludeIPs ++ couples.map fun couple => some couple.2
  let prepared := { state with
    available := network.assignIP (network.excludeIP state.available excludeIPs) couples
    ipAssigned := network.assignedPositions couples }
  some (rows.foldl (network.rowStep now reserved) (false, prepared)).2

end LeaseNetwork

variable {index : Nat} {mac : Mac}

namespace DHCPPool

/-- Reservations made one after the other, their errors ignored. -/
def reserveAll (pool : DHCPPool) (requests : List (Nat × Mac)) : DHCPPool :=
  requests.foldl (fun pool request => (pool.reserveIPIndex request.1 request.2).1) pool

variable {pool : DHCPPool} {requests : List (Nat × Mac)}

theorem reserveIPIndex_capacity : (pool.reserveIPIndex index mac).1.capacity = pool.capacity := by
  unfold reserveIPIndex
  split
  · split <;> rfl
  · rfl

theorem reserveAll_capacity (pool : DHCPPool) (requests : List (Nat × Mac)) :
    (pool.reserveAll requests).capacity = pool.capacity := by
  induction requests generalizing pool with
  | nil => rfl
  | cons request rest ih => exact (ih _).trans reserveIPIndex_capacity

theorem mem_reserveAll_free :
    index ∈ (pool.reserveAll requests).free ↔
      index ∈ pool.free ∧ index ∉ requests.map Prod.fst := by
  induction requests generalizing pool with
  | nil => simp [reserveAll]
  | cons request rest ih =>
    rw [reserveAll, foldl_cons, ← reserveAll, ih, reserveIPIndex_free,
      Finset.mem_erase, map_cons, mem_cons]
    tauto

theorem reserveAll_mac_of_bound (bound : pool.mac index = some mac) :
    (pool.reserveAll requests).mac index = some mac := by
  induction requests generalizing pool with
  | nil => exact bound
  | cons request rest ih =>
    apply ih
    exact pool.reserveIPIndex_mac_of_bound bound

theorem request_of_reserveAll_mac (bound : (pool.reserveAll requests).mac index = some mac) :
    pool.mac index = some mac ∨ (index, mac) ∈ requests := by
  induction requests generalizing pool with
  | nil => exact .inl bound
  | cons request rest ih =>
    rcases ih bound with held | requested
    · rw [reserveIPIndex_mac] at held
      split at held
      next free =>
        by_cases same : index = request.1
        · subst same
          rw [update_self] at held
          cases held
          exact .inr mem_cons_self
        · rw [update_of_ne same] at held
          exact .inl held
      · exact .inl held
    · exact .inr (mem_cons_of_mem _ requested)

theorem reserveAll_mac_of_mem (distinct : (requests.map Prod.fst).Nodup)
    (requested : (index, mac) ∈ requests) (free : index ∈ pool.free) :
    (pool.reserveAll requests).mac index = some mac := by
  have taken : index ∉ (pool.reserveAll requests).free := fun still =>
    (mem_reserveAll_free.mp still).2 (mem_map.mpr ⟨_, requested, rfl⟩)
  have bound := ((pool.reserveAll requests).mac_isSome_iff index).mpr
    ⟨reserveAll_capacity pool requests ▸ pool.free_lt index free, taken⟩
  rcases Option.isSome_iff_exists.mp bound with ⟨holder, holds⟩
  rcases request_of_reserveAll_mac holds with before | alsoRequested
  · rw [pool.mac_eq_none_of_mem_free free] at before
    cases before
  · have same := inj_on_of_nodup_map distinct requested alsoRequested rfl
    cases same
    exact holds

end DHCPPool

namespace LeaseNetwork

variable (network : LeaseNetwork)

def exclusions (excludeIPs : List (Option UInt32)) : List (Nat × Mac) :=
  excludeIPs.filterMap fun excludeIP =>
    excludeIP.map fun ip => (network.position ip, FakeMac)

def assignments (couples : List (Mac × UInt32)) : List (Nat × Mac) :=
  couples.map fun couple => (network.position couple.2, couple.1)

def restorations (rows : List LogRow) : List (Nat × Mac) :=
  rows.map fun row => (network.position row.ip, row.mac)

variable {network : LeaseNetwork} {now : Int} {rows : List LogRow} {row : LogRow}
  {excludeIPs : List (Option UInt32)} {couples : List (Mac × UInt32)}

theorem excludeIP_eq (pool : DHCPPool) :
    network.excludeIP pool excludeIPs = pool.reserveAll (network.exclusions excludeIPs) := by
  induction excludeIPs generalizing pool with
  | nil => rfl
  | cons excludeIP rest ih =>
    cases excludeIP with
    | none => exact ih pool
    | some ip => exact ih _

theorem assignIP_eq (pool : DHCPPool) :
    network.assignIP pool couples = pool.reserveAll (network.assignments couples) := by
  rw [reserveAll, assignments, foldl_map]
  rfl

variable (state : LeaseState)

theorem available_restored : (rows.foldl (network.restoreRow now) state).available =
      state.available.reserveAll (network.restorations rows) := by
  induction rows generalizing state with
  | nil => rfl
  | cons row rest ih => exact ih _

theorem hwcache_restored_of_notMem (absent : mac ∉ rows.map LogRow.mac) :
    (rows.foldl (network.restoreRow now) state).hwcache mac = state.hwcache mac := by
  induction rows generalizing state with
  | nil => rfl
  | cons row rest ih =>
    rw [map_cons, mem_cons, not_or] at absent
    rw [foldl_cons, ih _ absent.2]
    exact update_of_ne absent.1 _ _

theorem hwcache_restored_of_mem (distinct : (rows.map LogRow.mac).Nodup) (listed : row ∈ rows) :
    (rows.foldl (network.restoreRow now) state).hwcache row.mac =
      some ⟨network.position row.ip, network.leaseTime now row⟩ := by
  induction rows generalizing state with
  | nil => cases listed
  | cons first rest ih =>
    rcases nodup_cons.mp distinct with ⟨fresh, restDistinct⟩
    rcases mem_cons.mp listed with rfl | inRest
    · rw [foldl_cons, hwcache_restored_of_notMem _ fresh]
      exact update_self _ _ _
    · exact ih _ restDistinct inRest

def Withheld (excludeIPs : List (Option UInt32)) (couples : List (Mac × UInt32))
    (ip : UInt32) : Prop :=
  some ip ∈ excludeIPs ∨ ∃ mac, (mac, ip) ∈ couples

structure Restored (network : LeaseNetwork) (excludeIPs : List (Option UInt32))
    (couples : List (Mac × UInt32)) (rows : List LogRow) (state : LeaseState) : Prop where
  leases : ∀ row ∈ rows, network.position row.ip < network.leaseRange →
    ¬Withheld excludeIPs couples row.ip →
    state.available.mac (network.position row.ip) = some row.mac ∧
      ∃ entry, state.hwcache row.mac = some entry
  withheld : ∀ ip, Withheld excludeIPs couples ip →
    network.position ip < network.leaseRange →
    state.available.mac (network.position ip) = some FakeMac ∨
      ∃ mac, (mac, ip) ∈ couples ∧ state.available.mac (network.position ip) = some mac

def WithheldLast (network : LeaseNetwork) (excludeIPs : List (Option UInt32))
    (couples : List (Mac × UInt32)) (rows : List LogRow) : Prop :=
  rows.Pairwise fun earlier later => network.position later.ip < network.leaseRange →
    ¬Withheld excludeIPs couples later.ip → ¬Withheld excludeIPs couples earlier.ip

variable {ip : UInt32}

theorem position_injective {other : UInt32}
    (same : network.position ip = network.position other) : ip = other :=
  (UInt32.sub_left_inj _).mp (UInt32.toNat_inj.mp same)

def isReserved (excludeIPs : List (Option UInt32)) (couples : List (Mac × UInt32))
    (row : LogRow) : Bool :=
  (excludeIPs ++ couples.map fun couple => some couple.2).any fun ans => some row.ip == ans

@[simp] theorem isReserved_iff :
    isReserved excludeIPs couples row = true ↔ Withheld excludeIPs couples row.ip := by
  simp [isReserved, Withheld]

def prepared (network : LeaseNetwork) (excludeIPs : List (Option UInt32))
    (couples : List (Mac × UInt32)) (state : LeaseState) : LeaseState :=
  { state with
    available := network.assignIP (network.excludeIP state.available excludeIPs) couples
    ipAssigned := network.assignedPositions couples }

def earlyRows (excludeIPs : List (Option UInt32)) (couples : List (Mac × UInt32))
    (rows : List LogRow) : List LogRow :=
  rows.takeWhile fun row => !isReserved excludeIPs couples row

theorem rowStep_eq (state : Bool × LeaseState) (row : LogRow) :
    network.rowStep now (excludeIPs ++ couples.map fun couple => some couple.2) state row =
      latched (isReserved excludeIPs couples) (network.restoreRow now) state row := by
  change (let found := if isReserved excludeIPs couples row then true else state.1
    (found, if found = false then network.restoreRow now state.2 row else state.2)) = _
  cases reserved : isReserved excludeIPs couples row <;> cases found : state.1 <;>
    simp [latched, reserved, found]

theorem initiaLease?_eq {texts : AddressTexts}
    (excluded : texts.ipsFromRange? network.ipReserved = some excludeIPs)
    (assigned : texts.couples? network.ipAssigned = some couples) (state : LeaseState) :
    network.initiaLease? texts now rows state =
      some ((earlyRows excludeIPs couples rows).foldl (network.restoreRow now)
        (network.prepared excludeIPs couples state)) := by
  have rounds : network.rowStep now (excludeIPs ++ couples.map fun couple => some couple.2) =
      latched (isReserved excludeIPs couples) (network.restoreRow now) :=
    funext fun state => funext fun row => rowStep_eq state row
  simp only [initiaLease?, excluded, assigned, Option.bind_eq_bind, Option.bind_some, rounds,
    foldl_latched]
  rfl

def reservedPool (network : LeaseNetwork) (excludeIPs : List (Option UInt32))
    (couples : List (Mac × UInt32)) (algorithm : Int) (created : Nat → Int) : DHCPPool :=
  (newDHCPPool network.leaseRange algorithm created).reserveAll
    (network.exclusions excludeIPs ++ network.assignments couples)

variable {algorithm : Int} {created : Nat → Int}

theorem available_prepared (globalIPCache : UInt32 → Option (Stored Mac))
    (globalMacCache : Mac → Option (Stored UInt32)) :
    (network.prepared excludeIPs couples
        (network.fresh algorithm created globalIPCache globalMacCache)).available =
      network.reservedPool excludeIPs couples algorithm created := by
  rw [prepared, excludeIP_eq, assignIP_eq, reservedPool, reserveAll,
    reserveAll, reserveAll, foldl_append]
  rfl

theorem mem_requests_iff :
    (index, mac) ∈ network.exclusions excludeIPs ++ network.assignments couples ↔
      ∃ ip, network.position ip = index ∧
        (some ip ∈ excludeIPs ∧ mac = FakeMac ∨ (mac, ip) ∈ couples) := by
  simp only [exclusions, assignments, mem_append, mem_filterMap, mem_map]
  constructor
  · rintro (⟨excludeIP, listed, requested⟩ | ⟨couple, listed, requested⟩)
    · cases excludeIP with
      | none => cases requested
      | some ip =>
        cases requested
        exact ⟨ip, rfl, .inl ⟨listed, rfl⟩⟩
    · cases requested
      exact ⟨couple.2, rfl, .inr listed⟩
  · rintro ⟨ip, rfl, ⟨listed, rfl⟩ | listed⟩
    · exact .inl ⟨some ip, listed, rfl⟩
    · exact .inr ⟨_, listed, rfl⟩

theorem position_mem_requests_iff : network.position ip ∈
        (network.exclusions excludeIPs ++ network.assignments couples).map Prod.fst ↔
      Withheld excludeIPs couples ip := by
  constructor
  · intro requested
    rcases mem_map.mp requested with ⟨⟨index, mac⟩, listed, same⟩
    rcases mem_requests_iff.mp listed with ⟨other, atIndex, ⟨excluded, -⟩ | assigned⟩
    · exact .inl (position_injective (same.symm.trans atIndex.symm |>.symm) ▸ excluded)
    · exact .inr ⟨mac, position_injective (same.symm.trans atIndex.symm |>.symm) ▸ assigned⟩
  · rintro (excluded | ⟨mac, assigned⟩)
    · exact mem_map.mpr ⟨_, mem_requests_iff.mpr ⟨ip, rfl, .inl ⟨excluded, rfl⟩⟩, rfl⟩
    · exact mem_map.mpr ⟨_, mem_requests_iff.mpr ⟨ip, rfl, .inr assigned⟩, rfl⟩

@[simp] theorem mem_reservedPool_free_iff :
    network.position ip ∈ (network.reservedPool excludeIPs couples algorithm created).free ↔
      network.position ip < network.leaseRange ∧ ¬Withheld excludeIPs couples ip := by
  rw [reservedPool, mem_reserveAll_free, position_mem_requests_iff]
  simp [newDHCPPool]

theorem reservedPool_withheld (algorithm : Int) (created : Nat → Int)
    (isWithheld : Withheld excludeIPs couples ip)
    (inside : network.position ip < network.leaseRange) :
    ∃ holder, (network.reservedPool excludeIPs couples algorithm created).mac
        (network.position ip) = some holder ∧
      (holder = FakeMac ∨ (holder, ip) ∈ couples) := by
  let pool := network.reservedPool excludeIPs couples algorithm created
  have taken : network.position ip ∉ pool.free := fun free =>
    (mem_reservedPool_free_iff.mp free).2 isWithheld
  have size : pool.capacity = network.leaseRange := reserveAll_capacity _ _
  rcases Option.isSome_iff_exists.mp ((pool.mac_isSome_iff _).mpr ⟨size ▸ inside, taken⟩) with
    ⟨holder, holds⟩
  refine ⟨holder, holds, ?_⟩
  rcases request_of_reserveAll_mac holds with before | requested
  · cases before
  · rcases mem_requests_iff.mp requested with ⟨other, same, ⟨-, isFake⟩ | assigned⟩
    · exact .inl isFake
    · exact .inr (position_injective same ▸ assigned)

theorem nodup_restorations (distinct : (rows.map LogRow.ip).Nodup) :
    ((network.restorations rows).map Prod.fst).Nodup := by
  have positions : (network.restorations rows).map Prod.fst =
      (rows.map LogRow.ip).map network.position := by
    rw [restorations, map_map, map_map]
    rfl
  rw [positions]
  exact distinct.map fun _ _ same => position_injective same

theorem earlyRows_sublist : (earlyRows excludeIPs couples rows).Sublist rows :=
  takeWhile_sublist _

/-- The rows to restore all come before the first reserved address exactly when
no reserved address comes before one of them. -/
theorem early_iff_withheldLast (distinct : rows.Nodup) :
    (∀ row ∈ rows, network.position row.ip < network.leaseRange →
      ¬Withheld excludeIPs couples row.ip → row ∈ earlyRows excludeIPs couples rows) ↔
      network.WithheldLast excludeIPs couples rows := by
  have passing : ∀ row ∈ rows, (network.position row.ip < network.leaseRange ∧
      ¬Withheld excludeIPs couples row.ip) → (!isReserved excludeIPs couples row) = true := by
    simp [← isReserved_iff]
  have order := mem_takeWhile_iff_pairwise distinct passing
  simp only [and_imp, Bool.not_eq_true', Bool.eq_false_iff, ne_eq, isReserved_iff] at order
  simpa only [earlyRows, WithheldLast, Bool.not_eq_true', Bool.eq_false_iff, ne_eq] using order

def restored (network : LeaseNetwork) (excludeIPs : List (Option UInt32))
    (couples : List (Mac × UInt32)) (now : Int) (rows : List LogRow) (first : LeaseState) :
    LeaseState :=
  (earlyRows excludeIPs couples rows).foldl (network.restoreRow now)
    (network.prepared excludeIPs couples first)

section Outcome

variable (algorithm created) (globalIPCache : UInt32 → Option (Stored Mac))
  (globalMacCache : Mac → Option (Stored UInt32))

theorem restored_of_early (now : Int) (distinctIPs : (rows.map LogRow.ip).Nodup)
    (distinctMacs : (rows.map LogRow.mac).Nodup) (early : row ∈ earlyRows excludeIPs couples rows)
    (inside : network.position row.ip < network.leaseRange)
    (notWithheld : ¬Withheld excludeIPs couples row.ip) :
    (network.restored excludeIPs couples now rows
        (network.fresh algorithm created globalIPCache globalMacCache)).available.mac
        (network.position row.ip) = some row.mac ∧
      ∃ entry, (network.restored excludeIPs couples now rows
        (network.fresh algorithm created globalIPCache globalMacCache)).hwcache row.mac =
          some entry := by
  constructor
  · rw [restored, available_restored, available_prepared]
    apply reserveAll_mac_of_mem
    · exact nodup_restorations (distinctIPs.sublist (earlyRows_sublist.map _))
    · exact mem_map.mpr ⟨row, early, rfl⟩
    · exact mem_reservedPool_free_iff.mpr ⟨inside, notWithheld⟩
  · exact ⟨_, hwcache_restored_of_mem _ (distinctMacs.sublist (earlyRows_sublist.map _)) early⟩

theorem early_of_hwcache (now : Int) (distinctMacs : (rows.map LogRow.mac).Nodup)
    (listed : row ∈ rows) {entry : Stored Nat}
    (cached : (network.restored excludeIPs couples now rows
      (network.fresh algorithm created globalIPCache globalMacCache)).hwcache row.mac =
        some entry) : row ∈ earlyRows excludeIPs couples rows := by
  by_contra skipped
  have absent : row.mac ∉ (earlyRows excludeIPs couples rows).map LogRow.mac := by
    intro found
    rcases mem_map.mp found with ⟨other, early, same⟩
    have isRow := inj_on_of_nodup_map distinctMacs (earlyRows_sublist.mem early) listed same
    exact skipped (isRow ▸ early)
  rw [restored, hwcache_restored_of_notMem _ absent] at cached
  cases cached

theorem restored_withheld (now : Int) (isWithheld : Withheld excludeIPs couples ip)
    (inside : network.position ip < network.leaseRange) :
    let state := network.restored excludeIPs couples now rows
      (network.fresh algorithm created globalIPCache globalMacCache)
    state.available.mac (network.position ip) = some FakeMac ∨
      ∃ mac, (mac, ip) ∈ couples ∧ state.available.mac (network.position ip) = some mac := by
  rcases reservedPool_withheld algorithm created isWithheld inside with ⟨holder, holds, reason⟩
  have kept : (network.restored excludeIPs couples now rows
      (network.fresh algorithm created globalIPCache globalMacCache)).available.mac
        (network.position ip) = some holder := by
    rw [restored, available_restored, available_prepared]
    exact reserveAll_mac_of_bound holds
  rcases reason with rfl | assigned
  · exact .inl kept
  · exact .inr ⟨holder, assigned, kept⟩

end Outcome

/-- The leases are restored exactly when no row with an excluded or statically
assigned address comes before a row to restore. -/
theorem leases_restored_iff {texts : AddressTexts} (network : LeaseNetwork) (algorithm : Int)
    (created : Nat → Int) (globalIPCache : UInt32 → Option (Stored Mac))
    (globalMacCache : Mac → Option (Stored UInt32)) (now : Int)
    (excluded : texts.ipsFromRange? network.ipReserved = some excludeIPs)
    (assigned : texts.couples? network.ipAssigned = some couples)
    (distinctIPs : (rows.map LogRow.ip).Nodup) (distinctMacs : (rows.map LogRow.mac).Nodup) :
    ∃ state, network.initiaLease? texts now rows
        (network.fresh algorithm created globalIPCache globalMacCache) = some state ∧
      (network.Restored excludeIPs couples rows state ↔
        network.WithheldLast excludeIPs couples rows) := by
  refine ⟨_, initiaLease?_eq excluded assigned _, ?_⟩
  rw [← early_iff_withheldLast (distinctIPs.of_map _)]
  constructor
  · intro isRestored row listed inside notWithheld
    rcases (isRestored.leases row listed inside notWithheld).2 with ⟨entry, cached⟩
    exact early_of_hwcache algorithm created globalIPCache globalMacCache now distinctMacs
      listed cached
  · intro early
    refine ⟨fun row listed inside notWithheld => ?_, fun ip isWithheld inside => ?_⟩
    · exact restored_of_early algorithm created globalIPCache globalMacCache now distinctIPs
        distinctMacs (early row listed inside notWithheld) inside notWithheld
    · exact restored_withheld algorithm created globalIPCache globalMacCache now isWithheld inside

end LeaseNetwork

namespace Scenario

def texts : AddressTexts where
  parseIP text :=
    if text = ['a'] then some 0x0a000001 else if text = ['b'] then some 0x0a000002 else none
  couple? text := if text = ['a'] then some (alice, 0x0a000001) else none

def network : LeaseNetwork where
  start := 0x0a000001
  leaseRange := 3
  leaseDuration := 3600
  ipReserved := ['a']
  ipAssigned := []

def freshHandler : LeaseState := network.fresh 1 (fun _ => 0) (fun _ => none) fun _ => none

end Scenario

open Scenario

/-- A lease on the excluded address comes last. -/
theorem lease_before_exclusion_restored :
    ∃ state, network.initiaLease? texts 0
        [⟨0x0a000002, bob, none⟩, ⟨0x0a000001, alice, none⟩] freshHandler = some state ∧
      (network.Restored [some 0x0a000001] []
          [⟨0x0a000002, bob, none⟩, ⟨0x0a000001, alice, none⟩] state ↔
        network.WithheldLast [some 0x0a000001] []
          [⟨0x0a000002, bob, none⟩, ⟨0x0a000001, alice, none⟩]) :=
  LeaseNetwork.leases_restored_iff network 1 _ _ _ 0 rfl rfl (by decide) (by decide)

/-- Behind a lease on the excluded address nothing is restored. -/
theorem lease_behind_exclusion_lost :
    texts.ipsFromRange? network.ipReserved = some [some 0x0a000001] ∧
      network.position 0x0a000002 = 1 ∧
      (network.initiaLease? texts 0
          [⟨0x0a000001, alice, none⟩, ⟨0x0a000002, bob, none⟩] freshHandler).map
        (fun state => (state.available.mac 1, state.hwcache bob)) = some (none, none) := by
  decide +kernel

end PacketFence.Dhcp
