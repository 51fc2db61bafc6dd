import Mathlib.Order.Lattice.Nat

/-!
# Time balances

A session is charged when it stops. What it lasted while its node was not
registered is not charged: an unregistered packet leaves `-1` as the baseline of
the session, and the next registered one puts its session time there.

If that next packet is the Stop itself, the baseline is still `-1`, and the time
of the whole session is charged, and a second more.
-/

namespace PacketFence.Pfacct

open List Option

inductive NodeStatus where
  | reg
  | unreg
  | pending
  deriving DecidableEq

structure Node where
  status : NodeStatus
  /-- in seconds -/
  regdate : Int
  timeBalance : Option Nat

/-- The types that are handled; a packet without a type has the first one. -/
inductive AcctStatusType where
  | unset
  | start
  | stop
  | interimUpdate
  deriving DecidableEq

/-- A packet of a session, with the node as it is when the packet arrives. -/
structure TimeReport where
  status : AcctStatusType
  acctSessionTime : BitVec 32
  node : Option Node
  /-- in seconds -/
  now : Int

def TimeReport.isUnreg (report : TimeReport) : Bool :=
  report.node.any fun node => node.status == .unreg

/-- `status = "reg" || DATE_SUB(NOW(), INTERVAL 5 MINUTE) > regdate` -/
def Node.settled (now : Int) (node : Node) : Bool :=
  node.status == .reg || now - 300 > node.regdate

def nodeTimeBalanceSubtract (now timebalance : Int) (node : Node) : Node :=
  match node.timeBalance with
  | some balance =>
    if node.settled now then
      { node with timeBalance := some (max (balance - timebalance) 0).toNat }
    else
      node
  | none => node

def softNodeTimeBalanceUpdate (now timebalance : Int) (node : Node) : Node :=
  match node.timeBalance with
  | some balance =>
    if balance ≤ timebalance ∧ node.settled now = true then
      { node with timeBalance := some 0 }
    else
      node
  | none => node

/-- What is left of a session time from its baseline on. -/
def sinceBaseline (timebalance baseline : Int) : Int :=
  if timebalance - baseline < 0 then 0 else timebalance - baseline

def handleTimeBalance (ns : Option Int) (report : TimeReport) : Option Int × Option Node :=
  let timebalance : Int := report.acctSessionTime.toNat
  if timebalance = 0 then
    (ns, report.node)
  else if report.status = .stop then
    if report.isUnreg then
      (none, report.node)
    else
      let timebalance := match ns with
        | some baseline => sinceBaseline timebalance baseline
        | none => timebalance
      (none, report.node.map (nodeTimeBalanceSubtract report.now timebalance))
  else if report.isUnreg then
    (some (-1), report.node)
  else
    match ns with
    | none =>
      (none, report.node.map (softNodeTimeBalanceUpdate report.now timebalance))
    | some baseline =>
      if baseline = -1 then
        (some timebalance, report.node.map (softNodeTimeBalanceUpdate report.now timebalance))
      else
        let timebalance := sinceBaseline timebalance baseline
        (some baseline,
          if timebalance > 0 then
            report.node.map (softNodeTimeBalanceUpdate report.now timebalance)
          else
            report.node)

variable (reports : List TimeReport)

/-- The baseline of a new session after its packets. -/
def baselineAfter : Option Int :=
  reports.foldl (fun ns report => (handleTimeBalance ns report).1) none

def balanceOf (node : Option Node) : Nat :=
  (node.bind Node.timeBalance).getD 0

/-- The amount that a packet takes from the balance. -/
def charged (ns : Option Int) (report : TimeReport) : Nat :=
  balanceOf report.node - balanceOf (handleTimeBalance ns report).2

def TimeReport.time (report : TimeReport) : Nat :=
  report.acctSessionTime.toNat

/-- The session time of the last packet that arrived while the node was unregistered. -/
def lastUnregistered? : Option Nat :=
  (reports.filter TimeReport.isUnreg).getLast?.map TimeReport.time

/-- The last packet with a session time arrived while the node was unregistered. -/
def leftUnregistered : Bool :=
  (reports.filter fun report => 0 < report.time).getLast?.any TimeReport.isUnreg

/-- The balance that a registered Stop can be charged to. -/
def TimeReport.chargeable? (report : TimeReport) : Option Nat :=
  report.node.bind fun node =>
    if node.status ≠ .unreg ∧ node.settled report.now = true then node.timeBalance else none

/-- The Stop that is charged too much: the last packet before it that had a session
time arrived while the node was unregistered, and the balance is larger than what
has elapsed since. -/
def Overcharged (earlier : List TimeReport) (stop : TimeReport) : Prop :=
  0 < stop.time ∧ leftUnregistered earlier = true ∧
    ∃ balance unregistered, stop.chargeable? = some balance ∧
      lastUnregistered? earlier = some unregistered ∧ stop.time - unregistered < balance

variable (ns : Option Int) {reports : List TimeReport} {report stop : TimeReport} {balance : Nat}

@[simp] theorem baselineAfter_concat :
    baselineAfter (reports ++ [report]) = (handleTimeBalance (baselineAfter reports) report).1 := by
  rw [baselineAfter, foldl_append]
  rfl

@[simp] theorem lastUnregistered?_concat :
    lastUnregistered? (reports ++ [report]) =
      if report.isUnreg then some report.time else lastUnregistered? reports := by
  unfold lastUnregistered?
  split <;> simp_all

@[simp] theorem leftUnregistered_concat :
    leftUnregistered (reports ++ [report]) =
      if 0 < report.time then report.isUnreg else leftUnregistered reports := by
  unfold leftUnregistered
  split <;> simp_all

theorem handleTimeBalance_baseline (running : report.status ≠ .stop) :
    (handleTimeBalance ns report).1 =
      if report.time = 0 then ns
      else if report.isUnreg then some (-1)
      else if ns = some (-1) then some (report.time : Int)
      else ns := by
  unfold handleTimeBalance TimeReport.time
  by_cases silent : report.acctSessionTime.toNat = 0
  · simp [silent]
  · rw [if_neg (by omega), if_neg running, if_neg silent]
    by_cases unreg : report.isUnreg = true
    · rw [if_pos unreg, if_pos unreg]
    · rw [if_neg unreg, if_neg unreg]
      cases ns with
      | none => simp
      | some baseline => by_cases fresh : baseline = -1 <;> simp [fresh]

structure Tracks (reports : List TimeReport) : Prop where
  unregistered : baselineAfter reports = some (-1) ↔ leftUnregistered reports = true
  absent : baselineAfter reports = none → ∀ time ∈ lastUnregistered? reports, time = 0
  present : ∀ baseline ∈ baselineAfter reports, baseline ≠ -1 →
    0 ≤ baseline ∧ ∀ time ∈ lastUnregistered? reports, (time : Int) ≤ baseline

theorem lastUnregistered?_le (report : TimeReport) {time : Nat}
    (increasing : ((reports ++ [report]).map TimeReport.time).Pairwise (· ≤ ·))
    (last : time ∈ lastUnregistered? reports) : time ≤ report.time := by
  obtain ⟨other, isLast, rfl⟩ := map_eq_some_iff.mp last
  rw [map_append, pairwise_append] at increasing
  have member := mem_of_mem_filter (mem_of_getLast? isLast)
  exact increasing.2.2 _ (mem_map_of_mem member) _ (by simp)

theorem Tracks.concat (tracks : Tracks reports) (running : report.status ≠ .stop)
    (increasing : ((reports ++ [report]).map TimeReport.time).Pairwise (· ≤ ·)) :
    Tracks (reports ++ [report]) := by
  have step := handleTimeBalance_baseline (baselineAfter reports) running
  have before : ∀ time ∈ lastUnregistered? reports, time ≤ report.time :=
    fun time last => lastUnregistered?_le report increasing last
  by_cases silent : report.time = 0
  · -- nothing is learned, and the session has not lasted so far
    rw [if_pos silent] at step
    have none : ∀ time ∈ lastUnregistered? (reports ++ [report]), time = 0 := by
      intro time last
      rw [lastUnregistered?_concat] at last
      split at last
      · rw [← Option.some.inj last]; exact silent
      · exact Nat.eq_zero_of_le_zero (silent ▸ before time last)
    refine ⟨?_, fun _ => none, ?_⟩
    · rw [baselineAfter_concat, step, leftUnregistered_concat, if_neg (by omega)]
      exact tracks.unregistered
    · rw [baselineAfter_concat, step]
      intro baseline known different
      have positive := (tracks.present baseline known different).1
      exact ⟨positive, fun time last => (none time last).symm ▸ positive⟩
  · rw [if_neg silent] at step
    have positive : 0 < report.time := Nat.pos_of_ne_zero silent
    by_cases unreg : report.isUnreg = true
    · rw [if_pos unreg] at step
      refine ⟨?_, ?_, ?_⟩ <;> rw [baselineAfter_concat, step]
      · rw [leftUnregistered_concat, if_pos positive, unreg]
        simp
      · simp
      · intro baseline known different
        exact absurd (Option.some.inj known).symm different
    · rw [if_neg unreg] at step
      have left : leftUnregistered (reports ++ [report]) = false := by
        rw [leftUnregistered_concat, if_pos positive]
        simpa using unreg
      have last : lastUnregistered? (reports ++ [report]) = lastUnregistered? reports := by
        rw [lastUnregistered?_concat, if_neg unreg]
      -- a baseline of `-1` is replaced by the time of this packet
      by_cases fresh : baselineAfter reports = some (-1)
      · rw [if_pos fresh] at step
        refine ⟨?_, ?_, ?_⟩ <;> rw [baselineAfter_concat, step]
        · rw [left]
          simp
        · simp
        · intro baseline known _
          obtain rfl := Option.some.inj known
          rw [last]
          exact ⟨by omega, fun time member => by exact_mod_cast before time member⟩
      · rw [if_neg fresh] at step
        refine ⟨?_, ?_, ?_⟩ <;> rw [baselineAfter_concat, step]
        · rw [left]
          simpa using fresh
        · rw [last]
          exact tracks.absent
        · rw [last]
          exact tracks.present

theorem tracks (running : ∀ report ∈ reports, report.status ≠ .stop)
    (increasing : (reports.map TimeReport.time).Pairwise (· ≤ ·)) : Tracks reports := by
  induction reports using List.reverseRecOn with
  | nil => exact ⟨by decide, by simp [lastUnregistered?], by simp [baselineAfter]⟩
  | append_singleton reports report ih =>
    refine Tracks.concat (ih ?_ ?_) (running report (by simp)) increasing
    · exact fun report member => running report (mem_append_left _ member)
    · rw [map_append, pairwise_append] at increasing
      exact increasing.1

def chargedTime (ns : Option Int) (time : Nat) : Nat :=
  match ns with
  | some baseline => (time - baseline).toNat
  | none => time

theorem sinceBaseline_eq (time : Nat) (baseline : Int) :
    sinceBaseline time baseline = ((time - baseline).toNat : Int) := by
  unfold sinceBaseline
  split <;> omega

theorem balance_nodeTimeBalanceSubtract (now : Int) (time : Nat) (node : Node) :
    balanceOf (some node) - balanceOf (some (nodeTimeBalanceSubtract now time node)) =
      if node.settled now then min (node.timeBalance.getD 0) time else 0 := by
  unfold nodeTimeBalanceSubtract balanceOf
  cases balance : node.timeBalance with
  | none => simp [balance]
  | some amount =>
    dsimp only
    split
    next settled =>
      simp only [bind_some, getD_some, balance]
      omega
    · simp

theorem charged_stop (isStop : stop.status = .stop) (lasted : 0 < stop.time) :
    charged ns stop = min (stop.chargeable?.getD 0) (chargedTime ns stop.time) := by
  have time : ((match ns with
      | some baseline => sinceBaseline (stop.acctSessionTime.toNat : Int) baseline
      | none => (stop.acctSessionTime.toNat : Int)) : Int) = (chargedTime ns stop.time : Int) := by
    cases ns with
    | none => rfl
    | some baseline => exact sinceBaseline_eq _ baseline
  have positive : (stop.acctSessionTime.toNat : Int) ≠ 0 := by
    unfold TimeReport.time at lasted
    omega
  unfold charged handleTimeBalance
  dsimp only
  rw [if_neg positive, if_pos isStop, time]
  cases node : stop.node with
  | none => simp [TimeReport.chargeable?, TimeReport.isUnreg, node, balanceOf]
  | some row =>
    by_cases unreg : row.status = .unreg
    · simp [TimeReport.chargeable?, TimeReport.isUnreg, node, unreg]
    · have registered : stop.isUnreg = false := by
        simp [TimeReport.isUnreg, node, unreg]
      rw [registered, if_neg Bool.false_ne_true, map_some, balance_nodeTimeBalanceSubtract]
      by_cases settled : row.settled stop.now = true <;>
        simp [TimeReport.chargeable?, node, unreg, settled]

theorem charged_of_silent (silent : stop.time = 0) : charged ns stop = 0 := by
  unfold charged handleTimeBalance
  rw [if_pos (by exact_mod_cast silent), Nat.sub_self]

theorem isUnreg_of_chargeable?
    (chargeable : report.chargeable? = some balance) : report.isUnreg = false := by
  obtain ⟨node, found, rest⟩ := bind_eq_some_iff.mp chargeable
  obtain ⟨⟨registered, _⟩, _⟩ := ite_none_right_eq_some.mp rest
  simp [TimeReport.isUnreg, found, registered]

theorem exists_lastUnregistered? (left : leftUnregistered reports = true) :
    ∃ unregistered, lastUnregistered? reports = some unregistered := by
  unfold leftUnregistered at left
  cases last : (reports.filter fun report => 0 < report.time).getLast? with
  | none =>
    rw [last] at left
    exact absurd left Bool.false_ne_true
  | some report =>
    rw [last] at left
    have member := mem_of_mem_filter (mem_of_getLast? last)
    have nonempty : reports.filter TimeReport.isUnreg ≠ [] :=
      ne_nil_of_mem (mem_filter.mpr ⟨member, left⟩)
    exact ⟨_, by rw [lastUnregistered?, getLast?_eq_some_getLast nonempty]; rfl⟩

section Stop

variable {earlier : List TimeReport} {time unregistered : Nat}

theorem Tracks.chargedTime_of_left (tracked : Tracks earlier)
    (left : leftUnregistered earlier = true) :
    chargedTime (baselineAfter earlier) time = time + 1 := by
  rw [tracked.unregistered.mpr left, chargedTime]
  omega

theorem Tracks.chargedTime_le (tracked : Tracks earlier)
    (known : leftUnregistered earlier = false) : chargedTime (baselineAfter earlier) time ≤ time ∧
      ∀ seen, lastUnregistered? earlier = some seen →
        chargedTime (baselineAfter earlier) time ≤ time - seen := by
  cases baseline : baselineAfter earlier with
  | none =>
    refine ⟨le_rfl, fun seen last => ?_⟩
    rw [tracked.absent baseline seen last, chargedTime, Nat.sub_zero]
  | some start =>
    have different : start ≠ -1 := by
      rintro rfl
      rw [tracked.unregistered.mp baseline] at known
      cases known
    obtain ⟨positive, after⟩ := tracked.present start baseline different
    rw [chargedTime]
    refine ⟨by omega, fun seen last => ?_⟩
    have later := after seen last
    omega

theorem overcharged_iff (lasted : 0 < stop.time) (left : leftUnregistered earlier = true)
    (chargeable : stop.chargeable? = some balance)
    (seen : lastUnregistered? earlier = some unregistered) :
    Overcharged earlier stop ↔ stop.time - unregistered < balance := by
  constructor
  · rintro ⟨_, _, _, _, has, saw, excess⟩
    rw [chargeable] at has
    rw [seen] at saw
    cases has
    cases saw
    exact excess
  · intro excess
    exact ⟨lasted, left, balance, unregistered, chargeable, seen, excess⟩

end Stop

/-- For every session whose times do not decrease, the Stop takes at most the
session time, and at most what has elapsed since the session was last seen
unregistered, exactly if it is not one that is charged too much. -/
theorem time_balance_charged_within_bounds_iff (earlier : List TimeReport) (stop : TimeReport)
    (running : ∀ report ∈ earlier, report.status ≠ .stop) (isStop : stop.status = .stop)
    (increasing : ((earlier ++ [stop]).map TimeReport.time).Pairwise (· ≤ ·)) :
    (charged (baselineAfter earlier) stop ≤ stop.time ∧
      ∀ unregistered, lastUnregistered? (earlier ++ [stop]) = some unregistered →
        charged (baselineAfter earlier) stop ≤ stop.time - unregistered) ↔
      ¬ Overcharged earlier stop := by
  have tracked := tracks running (List.Pairwise.sublist
    ((sublist_append_left earlier [stop]).map _) increasing)
  have before : ∀ time ∈ lastUnregistered? earlier, time ≤ stop.time :=
    fun time last => lastUnregistered?_le stop increasing last
  rcases Nat.eq_zero_or_pos stop.time with silent | lasted
  · rw [charged_of_silent _ silent]
    simp [Overcharged, silent]
  · rw [charged_stop _ isStop lasted]
    cases chargeable : stop.chargeable? with
    | none => simp [Overcharged, chargeable]
    | some balance =>
      have last : lastUnregistered? (earlier ++ [stop]) = lastUnregistered? earlier := by
        rw [lastUnregistered?_concat, isUnreg_of_chargeable? chargeable]
        rfl
      rw [last, getD_some]
      cases left : leftUnregistered earlier with
      | true =>
        obtain ⟨unregistered, seen⟩ := exists_lastUnregistered? left
        rw [overcharged_iff lasted left chargeable seen, tracked.chargedTime_of_left left,
          Nat.not_lt]
        constructor
        · rintro ⟨_, bounded⟩
          have elapsed := bounded unregistered seen
          omega
        · intro covered
          refine ⟨by omega, fun other saw => ?_⟩
          rw [seen] at saw
          cases saw
          omega
      | false =>
        obtain ⟨whole, within⟩ := tracked.chargedTime_le left
        refine iff_of_true ⟨(min_le_right _ _).trans whole, fun unregistered seen =>
          (min_le_right _ _).trans (within unregistered seen)⟩ fun excess => ?_
        rw [excess.2.1] at left
        cases left

namespace Scenario

def registered : Node := ⟨.reg, 0, some 1000⟩

def unregistered : Node := { registered with status := .unreg }

def timeReport (status : AcctStatusType) (node : Node) (time : BitVec 32) : TimeReport :=
  ⟨status, time, some node, 0⟩

end Scenario

open Scenario

/-- Registered again before the Stop: what it lasted since is charged. -/
theorem time_balance_charged_from_registration :
    charged (baselineAfter [timeReport .interimUpdate unregistered 60,
      timeReport .interimUpdate registered 90]) (timeReport .stop registered 100) ≤ 100 - 60 := by
  have bounds := time_balance_charged_within_bounds_iff
    [timeReport .interimUpdate unregistered 60, timeReport .interimUpdate registered 90]
    (timeReport .stop registered 100) (by simp [timeReport]) rfl (by decide)
  exact (bounds.mpr fun excess => absurd excess.2.1 (by decide)).2 60 (by decide)

/-- Unregistered until the Stop: the whole session is charged, and a second more. -/
theorem time_balance_charges_whole_session :
    charged (baselineAfter [timeReport .interimUpdate unregistered 60])
      (timeReport .stop registered 100) = 101 ∧
    lastUnregistered? [timeReport .interimUpdate unregistered 60,
      timeReport .stop registered 100] = some 60 := by decide

end PacketFence.Pfacct
