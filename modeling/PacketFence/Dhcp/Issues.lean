import PacketFence.Dhcp.Allocator
import PacketFence.Dhcp.Server
import PacketFence.Foundations.Latch
import PacketFence.Foundations.Strconv

/-!
# `GetIssues`: what the pool holds and the cache does not

Both reports come from loops over the indices of the pool. The first one keeps
its flag `found` from index to index; the second one starts its counter anew for
every MAC.
-/

namespace PacketFence.Dhcp

open Foundations List Function

namespace DHCPPool

variable (pool : DHCPPool)

def macAt (index : Nat) : Mac := (pool.mac index).getD ""

/-- The line of the first report for an index. -/
def issueEntry (index : Nat) : String :=
  pool.macAt index ++ ", " ++ itoa (Int64.ofNat index)

variable (macs : List Mac)

/-- One round of the first loop, on `found` and `inPoolNotInCache`. -/
def reportStep (state : Bool × List String) (index : Nat) : Bool × List String :=
  if index ∈ pool.free then
    state
  else
    let found := macs.foldl
      (fun found mac => if pool.macAt index = mac then true else found) state.1
    (found, if found then state.2 else state.2 ++ [pool.issueEntry index])

/-- The variables of the second loop while it looks for one MAC. -/
structure DuplicateScan where
  count : Nat
  saveindex : Nat
  duplicateInPool : Nat → Option Mac

def duplicateStep (mac : Mac) (scan : DuplicateScan) (index : Nat) : DuplicateScan :=
  if index ∈ pool.free then
    scan
  else if pool.macAt index = mac then
    let saveindex := if scan.count = 0 then index else scan.saveindex
    { count := scan.count + 1
      saveindex := saveindex
      duplicateInPool :=
        if scan.count = 1 then
          update (update scan.duplicateInPool saveindex (some mac))
            index (some mac)
        else if 1 < scan.count then
          update scan.duplicateInPool index (some mac)
        else
          scan.duplicateInPool }
  else
    scan

def scanFor (mac : Mac) (duplicateInPool : Nat → Option Mac) (below : Nat) : DuplicateScan :=
  (List.range below).foldl (pool.duplicateStep mac) ⟨0, 0, duplicateInPool⟩

/-- The second loop, from the entries made so far. -/
def scanAll (duplicateInPool : Nat → Option Mac) : Nat → Option Mac :=
  macs.foldl (fun duplicateInPool mac =>
    (pool.scanFor mac duplicateInPool pool.capacity).duplicateInPool) duplicateInPool

def getIssues : List String × (Nat → Option Mac) :=
  (((List.range pool.capacity).foldl (pool.reportStep macs) (false, [])).2,
    pool.scanAll macs fun _ => none)

def ReportsStrangers : Prop :=
  ∃ indices : List Nat, indices.Nodup ∧
    (∀ index, index ∈ indices ↔ ∃ mac, pool.mac index = some mac ∧ mac ∉ macs) ∧
    (pool.getIssues macs).1 = indices.map pool.issueEntry

/-- The second report has the indices of every listed MAC that holds several. -/
def ReportsDuplicates : Prop :=
  ∀ index mac, (pool.getIssues macs).2 index = some mac ↔
    mac ∈ macs ∧ pool.mac index = some mac ∧
      ∃ other, other ≠ index ∧ pool.mac other = some mac

def StrangersFirst : Prop :=
  ∀ index later known stranger, index < later → pool.mac index = some known →
    pool.mac later = some stranger → known ∈ macs → stranger ∈ macs

variable {index : Nat} {pool : DHCPPool} {macs : List Mac} {mac : Mac}

def boundIndices (pool : DHCPPool) : List Nat :=
  (List.range pool.capacity).filter fun index => decide (index ∉ pool.free)

@[simp] theorem mem_boundIndices :
    index ∈ pool.boundIndices ↔ pool.mac index = some (pool.macAt index) := by
  rw [boundIndices, mem_filter, mem_range, decide_eq_true_eq, ← pool.mac_isSome_iff, macAt]
  cases pool.mac index <;> simp

theorem macAt_of_mac (bound : pool.mac index = some mac) :
    pool.macAt index = mac := by simp [macAt, bound]

theorem mem_boundIndices_of_mac
    (bound : pool.mac index = some mac) : index ∈ pool.boundIndices := by
  rw [mem_boundIndices, macAt_of_mac bound, bound]

theorem pairwise_boundIndices : pool.boundIndices.Pairwise (· < ·) :=
  pairwise_lt_range.filter _

theorem nodup_boundIndices : pool.boundIndices.Nodup := nodup_range.filter _

theorem foldl_found (mac : Mac) (macs : List Mac) (found : Bool) :
    macs.foldl (fun found other => if mac = other then true else found) found =
      (found || decide (mac ∈ macs)) := by
  induction macs generalizing found with
  | nil => simp
  | cons other rest ih =>
    rw [foldl_cons, ih]
    by_cases same : mac = other
    · simp [same]
    · simp [same]

theorem reportStep_eq (state : Bool × List String) (index : Nat) :
    pool.reportStep macs state index =
      if decide (index ∉ pool.free) = true then
        latched (fun index => decide (pool.macAt index ∈ macs))
          (fun lines index => lines ++ [pool.issueEntry index]) state index
      else
        state := by
  by_cases free : index ∈ pool.free
  · simp [reportStep, free]
  · rw [reportStep, if_neg free, foldl_found, if_pos (decide_eq_true free), latched]

theorem getIssues_fst :
    (pool.getIssues macs).1 =
      (pool.boundIndices.takeWhile fun index => !decide (pool.macAt index ∈ macs)).map
        pool.issueEntry := by
  have collect : ∀ (indices : List Nat) (lines : List String),
      indices.foldl (fun lines index => lines ++ [pool.issueEntry index]) lines =
        lines ++ indices.map pool.issueEntry := by
    intro indices
    induction indices with
    | nil => simp
    | cons index rest ih =>
      intro lines
      rw [foldl_cons, ih, map_cons, append_assoc, singleton_append]
  have rounds : pool.reportStep macs = fun state index => _ :=
    funext fun state => funext fun index => reportStep_eq state index
  rw [getIssues, rounds, ← foldl_filter, foldl_latched, collect, nil_append]
  rfl

theorem strangersFirst_iff_pairwise :
    pool.StrangersFirst macs ↔ pool.boundIndices.Pairwise fun earlier later =>
      pool.macAt later ∉ macs → (!decide (pool.macAt earlier ∈ macs)) = true := by
  simp only [Bool.not_eq_true', decide_eq_false_iff_not, not_imp_not]
  constructor
  · intro ordered
    refine List.Pairwise.imp_of_mem ?_ pairwise_boundIndices
    intro earlier later isEarlier isLater before known
    exact ordered earlier later _ _ before
      (mem_boundIndices.mp isEarlier) (mem_boundIndices.mp isLater) known
  · intro ordered index later known stranger before bound boundLater listed
    have related := rel_of_lt pairwise_boundIndices ordered
      (mem_boundIndices_of_mac bound) (mem_boundIndices_of_mac boundLater) before
    rw [macAt_of_mac bound, macAt_of_mac boundLater] at related
    exact related listed

theorem reportsStrangers_iff : pool.ReportsStrangers macs ↔ pool.StrangersFirst macs := by
  rw [strangersFirst_iff_pairwise, ← mem_takeWhile_iff_pairwise nodup_boundIndices (by simp)]
  have wanted : ∀ index, (∃ mac, pool.mac index = some mac ∧ mac ∉ macs) ↔
      index ∈ pool.boundIndices ∧ pool.macAt index ∉ macs := by
    intro index
    constructor
    · rintro ⟨mac, bound, unlisted⟩
      exact ⟨mem_boundIndices_of_mac bound, macAt_of_mac bound ▸ unlisted⟩
    · exact fun both => ⟨_, mem_boundIndices.mp both.1, both.2⟩
  simp only [ReportsStrangers, wanted, getIssues_fst]
  constructor
  · rintro ⟨indices, distinct, exactly, lines⟩ index bound unlisted
    -- The report names no wrong index, so its length decides.
    have early : (pool.boundIndices.takeWhile fun index =>
        !decide (pool.macAt index ∈ macs)).Subperm indices := by
      apply subperm_of_subset ((takeWhile_sublist _).nodup nodup_boundIndices)
      intro other isEarly
      exact (exactly other).mpr ⟨(takeWhile_sublist _).mem isEarly, by
        simpa using mem_takeWhile_imp isEarly⟩
    have size := congrArg List.length lines
    rw [length_map, length_map] at size
    exact (early.perm_of_length_le size.ge).mem_iff.mpr ((exactly index).mpr ⟨bound, unlisted⟩)
  · intro complete
    refine ⟨_, (takeWhile_sublist _).nodup nodup_boundIndices, fun index => ?_, rfl⟩
    constructor
    · intro early
      exact ⟨(takeWhile_sublist _).mem early, by simpa using mem_takeWhile_imp early⟩
    · exact fun both => complete index both.1 both.2

section Duplicates

def holders (pool : DHCPPool) (mac : Mac) (below : Nat) : List Nat :=
  (List.range below).filter fun index => decide (pool.mac index = some mac)

variable {below : Nat}

theorem mem_holders :
    index ∈ pool.holders mac below ↔ index < below ∧ pool.mac index = some mac := by simp [holders]

theorem holders_succ (below : Nat) :
    pool.holders mac (below + 1) =
      pool.holders mac below ++ if pool.mac below = some mac then [below] else [] := by
  simp only [holders, range_succ, filter_append]
  split <;> simp [*]

variable (scan : DuplicateScan)

theorem duplicateStep_of_holder (bound : pool.mac index = some mac) :
    pool.duplicateStep mac scan index =
      { count := scan.count + 1
        saveindex := if scan.count = 0 then index else scan.saveindex
        duplicateInPool :=
          if scan.count = 1 then
            update (update scan.duplicateInPool scan.saveindex (some mac))
              index (some mac)
          else if 1 < scan.count then
            update scan.duplicateInPool index (some mac)
          else
            scan.duplicateInPool } := by
  rw [duplicateStep, if_neg (pool.not_mem_free_of_mac bound), if_pos (macAt_of_mac bound)]
  by_cases once : scan.count = 1
  · simp [once]
  · simp [once]

theorem duplicateStep_of_not_holder
    (inside : index < pool.capacity) (other : pool.mac index ≠ some mac) :
    pool.duplicateStep mac scan index = scan := by
  unfold duplicateStep
  by_cases free : index ∈ pool.free
  · rw [if_pos free]
  · have bound : pool.mac index = some (pool.macAt index) :=
      mem_boundIndices.mp (by simp [boundIndices, inside, free])
    rw [if_neg free, if_neg]
    rintro rfl
    exact other bound

variable (duplicateInPool : Nat → Option Mac)

/-- What the scan knows at an index: how often it met the MAC, where it met it
first, and the entries it made once it met it again. -/
theorem scanFor_eq (inside : below ≤ pool.capacity) : pool.scanFor mac duplicateInPool below =
      { count := (pool.holders mac below).length
        saveindex := (pool.holders mac below).headD 0
        duplicateInPool := fun index =>
          if 2 ≤ (pool.holders mac below).length ∧ index ∈ pool.holders mac below then
            some mac
          else
            duplicateInPool index } := by
  induction below with
  | zero => simp [scanFor, holders]
  | succ below ih =>
    have earlier := ih (Nat.le_of_succ_le inside)
    rw [scanFor, range_succ, foldl_append, foldl_cons, foldl_nil]
    rw [scanFor] at earlier
    rw [earlier, holders_succ]
    by_cases bound : pool.mac below = some mac
    · rw [duplicateStep_of_holder _ bound, if_pos bound]
      -- The entries depend on how many holders came before: none, one, more.
      match before : pool.holders mac below with
      | [] => simp
      | [first] =>
        simp only [singleton_append, length_cons, length_nil, headD_cons, DuplicateScan.mk.injEq]
        refine ⟨trivial, rfl, funext fun index => ?_⟩
        by_cases last : index = below
        · simp [last]
        · by_cases isFirst : index = first
          · simp [isFirst, update_apply]
          · simp [last, isFirst]
      | first :: second :: rest =>
        simp only [cons_append, length_cons, headD_cons,
          DuplicateScan.mk.injEq, length_append, length_nil]
        refine ⟨trivial, by simp, funext fun index => ?_⟩
        by_cases last : index = below
        · simp [last]
        · simp [last]
    · rw [duplicateStep_of_not_holder _ inside bound, if_neg bound, append_nil]

theorem two_le_length_holders (holds : index ∈ pool.holders mac below) :
    2 ≤ (pool.holders mac below).length ↔ ∃ other ∈ pool.holders mac below, other ≠ index := by
  have distinct : (pool.holders mac below).Nodup := nodup_range.filter _
  have others := length_erase_of_mem holds
  rw [← Nat.lt_iff_add_one_le, ← Nat.sub_pos_iff_lt, ← others, length_pos_iff_exists_mem]
  apply exists_congr
  intro other
  rw [distinct.mem_erase_iff, and_comm]

theorem mem_holders_capacity : index ∈ pool.holders mac pool.capacity ↔ pool.mac index = some mac :=
  mem_holders.trans (and_iff_right_of_imp pool.lt_capacity_of_mac)

def HoldsSeveral (pool : DHCPPool) (mac : Mac) (index : Nat) : Prop :=
  pool.mac index = some mac ∧ ∃ other, other ≠ index ∧ pool.mac other = some mac

theorem holdsSeveral_iff :
    2 ≤ (pool.holders mac pool.capacity).length ∧ index ∈ pool.holders mac pool.capacity ↔
      pool.HoldsSeveral mac index := by
  rw [and_comm, and_congr_right two_le_length_holders, mem_holders_capacity, HoldsSeveral]
  simp [mem_holders_capacity, and_comm]

theorem scanFor_of_holdsSeveral (several : pool.HoldsSeveral mac index) :
    (pool.scanFor mac duplicateInPool pool.capacity).duplicateInPool index = some mac := by
  rw [scanFor_eq _ (Nat.le_refl _)]
  exact if_pos (holdsSeveral_iff.mpr several)

theorem scanFor_of_not_holdsSeveral (single : ¬pool.HoldsSeveral mac index) :
    (pool.scanFor mac duplicateInPool pool.capacity).duplicateInPool index =
      duplicateInPool index := by
  rw [scanFor_eq _ (Nat.le_refl _)]
  exact if_neg fun marked => single (holdsSeveral_iff.mp marked)

theorem scanAll_of_holdsSeveral (several : pool.HoldsSeveral mac index)
    {duplicateInPool : Nat → Option Mac} (found : mac ∈ macs ∨ duplicateInPool index = some mac) :
    pool.scanAll macs duplicateInPool index = some mac := by
  induction macs generalizing duplicateInPool with
  | nil => simpa [scanAll] using found
  | cons head rest ih =>
    apply ih
    by_cases same : head = mac
    · subst same
      exact .inr (scanFor_of_holdsSeveral _ several)
    · have single : ¬pool.HoldsSeveral head index := fun holds =>
        same (Option.some.inj (holds.1.symm.trans several.1))
      refine found.imp (fun listed => ?_) fun marked =>
        (scanFor_of_not_holdsSeveral _ single).trans marked
      exact (mem_cons.mp listed).resolve_left fun isHead => same isHead.symm

theorem scanAll_of_not_holdsSeveral
    (single : ∀ mac ∈ macs, ¬pool.HoldsSeveral mac index) (duplicateInPool : Nat → Option Mac) :
    pool.scanAll macs duplicateInPool index = duplicateInPool index := by
  induction macs generalizing duplicateInPool with
  | nil => rfl
  | cons head rest ih =>
    have later := ih
      (fun mac listed => single mac (mem_cons_of_mem _ listed))
      (pool.scanFor head duplicateInPool pool.capacity).duplicateInPool
    exact later.trans (scanFor_of_not_holdsSeveral _ (single head mem_cons_self))

theorem reportsDuplicates (pool : DHCPPool) (macs : List Mac) : pool.ReportsDuplicates macs := by
  intro index mac
  change pool.scanAll macs (fun _ => none) index = some mac ↔
    mac ∈ macs ∧ pool.HoldsSeveral mac index
  constructor
  · intro reported
    by_cases several : ∃ holder ∈ macs, pool.HoldsSeveral holder index
    · rcases several with ⟨holder, listed, holds⟩
      rw [scanAll_of_holdsSeveral holds (.inl listed)] at reported
      cases reported
      exact ⟨listed, holds⟩
    · rw [scanAll_of_not_holdsSeveral fun holder listed holds =>
        several ⟨holder, listed, holds⟩] at reported
      cases reported
  · exact fun both => scanAll_of_holdsSeveral both.2 (.inl both.1)

end Duplicates

/-- `GetIssues` reports what it should exactly when no unlisted MAC holds an
index behind a listed one. -/
theorem issues_exact_iff (pool : DHCPPool) (macs : List Mac) :
    pool.ReportsStrangers macs ∧ pool.ReportsDuplicates macs ↔ pool.StrangersFirst macs := by
  rw [reportsStrangers_iff]
  exact and_iff_left (pool.reportsDuplicates macs)

end DHCPPool

namespace Scenario

def twoHolders : DHCPPool :=
  (((DHCPPool.newDHCPPool 2 1 fun _ => 0).reserveIPIndex 0 alice).1.reserveIPIndex 1 bob).1

/-- The client the cache does not know is left out of the report. -/
theorem stranger_not_reported :
    twoHolders.mac 1 = some bob ∧ bob ∉ [alice] ∧ (twoHolders.getIssues [alice]).1 = [] := by
  decide +kernel

end Scenario

end PacketFence.Dhcp
