import PacketFence.Bandwidth.Accounting
import PacketFence.Foundations.Machine
import Mathlib.Algebra.Group.Prod
import Mathlib.Algebra.Order.Ring.Int
import Mathlib.Tactic.Abel

/-!
# No byte is lost or counted twice

An aggregation merges rows into rounded rows of the table it then deletes from.
Rounding a rounded bucket changes nothing, so the rows that are deleted are
never the ones that were merged into, and what is deleted is what was merged.
The same argument, with another weight, counts the rows that are still due.
-/

namespace PacketFence.Bandwidth

open Foundations Accounting Table

variable {time rounded : DateTime}

theorem DateTime.roundToHour_idempotent
    (rounds : time.roundToHour = some rounded) : rounded.roundToHour = some rounded := by
  simp only [roundToHour, addHours, Option.ite_none_right_eq_some, Option.some.injEq] at rounds
  obtain ⟨valid, rfl⟩ := rounds
  simp only [date, isDate] at valid
  simp [roundToHour, addHours, date, isDate, valid]

theorem DateTime.roundToMonth_idempotent
    (rounds : time.roundToMonth = some rounded) : rounded.roundToMonth = some rounded := by
  simp only [roundToMonth, addDays, Option.ite_none_right_eq_some, Option.some.injEq] at rounds
  obtain ⟨valid, rfl⟩ := rounds
  have month : time.month ≠ 0 := by
    simp only [date, isDate, Bool.and_eq_true, bne_iff_ne] at valid
    exact valid.1
  simp [roundToMonth, addDays, date, isDate, month]

theorem BucketSize.dateRounding_idempotent {bucketSize : BucketSize}
    (rounds : bucketSize.dateRounding time = some rounded) :
    bucketSize.dateRounding rounded = some rounded := by
  cases bucketSize with
  | monthly => exact DateTime.roundToMonth_idempotent rounds
  | daily =>
    cases rounds
    rfl
  | hourly => exact DateTime.roundToHour_idempotent rounds

theorem BucketSize.unrounded_newTimeBucket {bucketSize : BucketSize}
    (due : unrounded bucketSize.dateRounding time = true) :
    unrounded bucketSize.dateRounding (newTimeBucket bucketSize.dateRounding time) = false := by
  unfold unrounded newTimeBucket at *
  cases rounds : bucketSize.dateRounding time with
  | none => simp [rounds] at due
  | some rounded => simp [dateRounding_idempotent rounds]

def Accounting.bytes (nodeId : Nat) (row : Accounting) : Int × Int :=
  if row.nodeId = nodeId then (row.inBytes, row.outBytes) else 0

def History.bytes (nodeId : Nat) (row : History) : Int × Int :=
  if row.nodeId = nodeId then (row.inBytes, row.outBytes) else 0

def Database.bytes (database : Database) (nodeId : Nat) : Int × Int :=
  database.accounting.total (Accounting.bytes nodeId) +
    database.history.total (History.bytes nodeId)

theorem additiveAt_accounting (nodeId : Nat) (key : Nat × DateTime × Nat) :
    accountingSchema.AdditiveAt (bytes nodeId) key := by
  rintro old new rfl same
  have node : new.nodeId = old.nodeId := congrArg Prod.fst same
  by_cases counted : old.nodeId = nodeId <;>
    simp [bytes, accountingSchema, node, counted]

theorem additiveAt_history (nodeId : Nat) (key : Nat × DateTime) :
    historySchema.AdditiveAt (History.bytes nodeId) key := by
  rintro old new rfl same
  have node : new.nodeId = old.nodeId := congrArg Prod.fst same
  by_cases counted : old.nodeId = nodeId <;>
    simp [History.bytes, historySchema, node, counted]

def Settled (bucketSize : BucketSize) (time : DateTime) : Prop :=
  unrounded bucketSize.dateRounding time = false

theorem not_settled {bucketSize : BucketSize}
    (due : unrounded bucketSize.dateRounding time = true) : ¬ Settled bucketSize time := by
  simp [Settled, due]

theorem not_settled_of_aggregates {bucketSize : BucketSize} {endBucket : DateTime}
    (row : Accounting) (wanted : aggregates bucketSize endBucket row = true) :
    ¬ Settled bucketSize row.timeBucket := not_settled (Bool.and_eq_true_iff.mp wanted).2

theorem not_settled_of_aggregatesHistory {bucketSize : BucketSize} {endBucket : DateTime}
    (row : History) (wanted : aggregatesHistory bucketSize endBucket row = true) :
    ¬ Settled bucketSize row.timeBucket := not_settled (Bool.and_eq_true_iff.mp wanted).2

theorem settled_aggregated {bucketSize : BucketSize} {endBucket : DateTime} (row : Accounting)
    (wanted : aggregates bucketSize endBucket row = true) :
    Settled bucketSize (row.aggregated bucketSize).timeBucket :=
  BucketSize.unrounded_newTimeBucket (Bool.and_eq_true_iff.mp wanted).2

theorem settled_aggregatedHistory {bucketSize : BucketSize} {endBucket : DateTime} (row : History)
    (wanted : aggregatesHistory bucketSize endBucket row = true) :
    Settled bucketSize (row.aggregated bucketSize).timeBucket :=
  BucketSize.unrounded_newTimeBucket (Bool.and_eq_true_iff.mp wanted).2

theorem bytes_moveToHistory {database : Database} {picked : List Accounting}
    (present : ∀ row ∈ picked, row ∈ database.accounting.rows)
    (distinct : (picked.map accountingSchema.key).Nodup) (nodeId : Nat) :
    (database.moveToHistory picked).bytes nodeId = database.bytes nodeId := by
  have left : (database.accounting.delete (picked.map accountingSchema.key)).total
        (Accounting.bytes nodeId) + (picked.map (Accounting.bytes nodeId)).sum =
      database.accounting.total (Accounting.bytes nodeId) := total_delete present distinct
  have arrived : (database.history.insertGrouped (picked.map Accounting.toHistory)).total
        (History.bytes nodeId) =
      database.history.total (History.bytes nodeId) +
        (picked.map (Accounting.bytes nodeId)).sum := by
    rw [total_insertGrouped fun key _ => additiveAt_history nodeId key, List.map_map]
    rfl
  rw [Database.bytes, Database.moveToHistory, arrived, Database.bytes, ← left]
  abel

section Procedures

variable (scans : Scans) (bucketSize : BucketSize) (endBucket : DateTime) (batch : Nat)
  (database : Database) (nodeId : Nat)

/-- An aggregation keeps the total of what merging adds and rounding leaves alone. -/
theorem total_bandwidthAggregation {Weight : Type} [AddCommGroup Weight]
    {weight : Accounting → Weight} (additive : ∀ key, accountingSchema.AdditiveAt weight key)
    (kept : ∀ row : Accounting, weight (row.aggregated bucketSize) = weight row) :
    (bandwidthAggregation scans bucketSize endBucket batch database).1.accounting.total weight =
      database.accounting.total weight := by
  unfold bandwidthAggregation
  dsimp only
  split
  · have replaced := total_settle (aggregated bucketSize)
      (fun key => Settled bucketSize key.2.1)
      not_settled_of_aggregates settled_aggregated
      (fun key _ => additive key)
      (rfl : database.accounting.select (scans.accounting.sortedBy latestFirst)
        (aggregates bucketSize endBucket) batch = _)
    have same : weight ∘ aggregated bucketSize = weight := funext kept
    rw [List.map_map, same] at replaced
    exact add_right_cancel replaced
  · rfl

theorem bytes_bandwidthAggregation :
    (bandwidthAggregation scans bucketSize endBucket batch database).1.bytes nodeId =
      database.bytes nodeId := by
  have accounting := total_bandwidthAggregation scans bucketSize endBucket batch database
    (additiveAt_accounting nodeId) fun _ => rfl
  have history : (bandwidthAggregation scans bucketSize endBucket batch database).1.history =
      database.history := by
    unfold bandwidthAggregation
    dsimp only
    split <;> rfl
  rw [Database.bytes, accounting, history, Database.bytes]

theorem bytes_bandwidthAggregationHistory :
    (bandwidthAggregationHistory scans bucketSize endBucket batch database).1.bytes nodeId =
      database.bytes nodeId := by
  unfold bandwidthAggregationHistory
  dsimp only
  split
  · have replaced := total_settle (History.aggregated bucketSize)
      (fun key => Settled bucketSize key.2)
      not_settled_of_aggregatesHistory settled_aggregatedHistory
      (fun key _ => additiveAt_history nodeId key)
      (rfl : database.history.select scans.history
        (aggregatesHistory bucketSize endBucket) batch = _)
    rw [List.map_map] at replaced
    exact congrArg (_ + ·) (add_right_cancel replaced)
  · rfl

end Procedures

namespace Call

def batch : Call → Nat
  | .bandwidthAggregation _ _ batch => batch
  | .processBandwidthAccountingNetflow _ batch => batch
  | .bandwidthAccountingRadiusToHistory _ batch => batch
  | .bandwidthAggregationHistory _ _ batch => batch

/-- The number of rows the call would take without a limit. -/
def due (database : Database) : Call → Nat
  | .bandwidthAggregation bucketSize endBucket _ =>
    database.accounting.rows.countP (aggregates bucketSize endBucket)
  | .processBandwidthAccountingNetflow endBucket _ =>
    database.accounting.rows.countP (processes endBucket)
  | .bandwidthAccountingRadiusToHistory endBucket _ =>
    database.accounting.rows.countP (archives endBucket)
  | .bandwidthAggregationHistory bucketSize endBucket _ =>
    database.history.rows.countP (aggregatesHistory bucketSize endBucket)

theorem bytes_execute (scans : Scans) (database : Database) (call : Call) (nodeId : Nat) :
    (call.execute scans database).1.bytes nodeId = database.bytes nodeId := by
  cases call with
  | bandwidthAggregation bucketSize endBucket batch =>
    exact bytes_bandwidthAggregation scans bucketSize endBucket batch database nodeId
  | processBandwidthAccountingNetflow endBucket batch
  | bandwidthAccountingRadiusToHistory endBucket batch =>
    simp only [execute, Bandwidth.processBandwidthAccountingNetflow,
      Bandwidth.bandwidthAccountingRadiusToHistory]
    split
    · exact bytes_moveToHistory (fun row chosen => (mem_of_mem_select chosen).1)
        distinct_select nodeId
    · rfl
  | bandwidthAggregationHistory bucketSize endBucket batch =>
    exact bytes_bandwidthAggregationHistory scans bucketSize endBucket batch database nodeId

theorem count_execute (scans : Scans) (database : Database) (call : Call) :
    (call.execute scans database).2 = min call.batch (call.due database) := by
  cases call
  all_goals
    simp only [execute, Bandwidth.bandwidthAggregation, Bandwidth.bandwidthAggregationHistory,
      Bandwidth.processBandwidthAccountingNetflow, Bandwidth.bandwidthAccountingRadiusToHistory]
    split <;> exact length_select

theorem due_execute (scans : Scans) (database : Database) (call : Call) :
    call.due (call.execute scans database).1 + (call.execute scans database).2 =
      call.due database := by
  cases call with
  | bandwidthAggregation bucketSize endBucket batch =>
    simp only [execute, Bandwidth.bandwidthAggregation]
    split
    · exact countP_settle (aggregated bucketSize)
        (fun key => Settled bucketSize key.2.1)
        not_settled_of_aggregates settled_aggregated rfl
    next none => simp_all
  | processBandwidthAccountingNetflow endBucket batch
  | bandwidthAccountingRadiusToHistory endBucket batch =>
    simp only [execute, Bandwidth.processBandwidthAccountingNetflow,
      Bandwidth.bandwidthAccountingRadiusToHistory]
    split
    · exact countP_delete rfl
    next none => simp_all
  | bandwidthAggregationHistory bucketSize endBucket batch =>
    simp only [execute, Bandwidth.bandwidthAggregationHistory]
    split
    · exact countP_settle (History.aggregated bucketSize)
        (fun key => Settled bucketSize key.2)
        not_settled_of_aggregatesHistory settled_aggregatedHistory rfl
    next none => simp_all

/-- The database after so many calls of the same procedure. -/
def repeated (call : Call) (scans : Nat → Scans) (database : Database) : Nat → Database
  | 0 => database
  | count + 1 => (call.execute (scans count) (repeated call scans database count)).1

def reported (call : Call) (scans : Nat → Scans) (database : Database) (count : Nat) : Nat :=
  (call.execute (scans count) (call.repeated scans database count)).2

theorem due_repeated_le (call : Call) (scans : Nat → Scans) (database : Database)
    (count : Nat) (busy : ∀ earlier < count, call.reported scans database earlier ≠ 0) :
    call.due (call.repeated scans database count) + count ≤ call.due database := by
  induction count with
  | zero => exact le_rfl
  | succ count ih =>
    have before := ih fun earlier smaller => busy earlier (Nat.lt_succ_of_lt smaller)
    have reports := busy count (Nat.lt_succ_self count)
    have step := due_execute (scans count) (call.repeated scans database count) call
    unfold reported at reports
    rw [repeated]
    omega

theorem exists_reported_zero (call : Call) (scans : Nat → Scans) (database : Database)
    (positive : 0 < call.batch) :
    ∃ count ≤ call.due database, call.reported scans database count = 0 ∧
      call.due (call.repeated scans database count) = 0 := by
  have settled : ∀ count, call.reported scans database count = 0 →
      call.due (call.repeated scans database count) = 0 := by
    intro count nothing
    rw [reported, count_execute] at nothing
    omega
  by_contra busy
  have reports : ∀ earlier < call.due database + 1, call.reported scans database earlier ≠ 0 := by
    intro earlier smaller nothing
    exact busy ⟨earlier, Nat.le_of_lt_succ smaller, nothing, settled earlier nothing⟩
  have bound := call.due_repeated_le scans database _ reports
  omega

end Call

def machine : Machine Database (Call × Scans) where
  step? := fun database event => some (event.1.execute event.2 database).1

/-- Any sequence of calls keeps the bytes of every node, and from wherever it
has led, repeating one call comes to an end. -/
theorem bandwidth_conserved {first database : Database}
    (reached : machine.Reaches Machine.anyEvent first database) :
    (∀ nodeId, database.bytes nodeId = first.bytes nodeId) ∧
    ∀ call : Call, 0 < call.batch → ∀ scans : Nat → Scans,
      ∃ count, call.reported scans database count = 0 ∧
        call.due (call.repeated scans database count) = 0 := by
  constructor
  · intro nodeId
    induction reached with
    | refl => rfl
    | step _ _ stepped ih =>
      cases stepped
      rw [Call.bytes_execute, ih]
  · intro call positive scans
    obtain ⟨count, _, nothing, settled⟩ := call.exists_reported_zero scans database positive
    exact ⟨count, nothing, settled⟩

namespace Scenario

def at10 (minute : Nat) : DateTime := ⟨2021, 3, 14, 10, minute, 0⟩

def row (sourceType : SourceType) (minute : Nat) (inBytes outBytes : Int) : Accounting where
  nodeId := 1
  uniqueSessionId := 7
  timeBucket := at10 minute
  sourceType := sourceType
  inBytes := inBytes
  outBytes := outBytes
  mac := "02:00:00:00:00:0a"
  tenantId := 1
  lastUpdated := at10 minute

/-- Two unrounded rows and one that has the key they are rounded to. -/
def database : Database where
  accounting :=
    { rows := [row .radius 5 100 10, row .netFlow 0 30 3, row .radius 20 200 20]
      distinct := by decide }
  history := .empty historySchema
  bandwidthBalance := fun _ _ => none

def scans : Scans := ⟨.inOrder, .inOrder⟩

/-- The rows are aggregated one at a time; what has ended up in the row of the
flows goes to the history with it. -/
def calls : List (Call × Scans) :=
  [(.bandwidthAggregation .hourly (at10 30) 1, scans),
    (.bandwidthAggregation .hourly (at10 30) 1, scans),
    (.processBandwidthAccountingNetflow (at10 30) 5, scans)]

end Scenario

open Scenario

theorem bandwidth_conserved_through_history :
    ∃ last, machine.Reaches Machine.anyEvent database last ∧
      last.accounting.rows = [] ∧
      last.history.rows.map (fun row => (row.timeBucket, row.inBytes, row.outBytes)) =
        [(at10 0, 330, 33)] ∧
      (∀ nodeId, last.bytes nodeId = database.bytes nodeId) ∧
      ∃ count, (Call.bandwidthAggregationHistory .daily (at10 30) 1).reported
        (fun _ => scans) last count = 0 := by
  have replayed : (machine.replay? (fun _ _ => true) database calls).map
        (fun last => (last.accounting.rows,
          last.history.rows.map fun row => (row.timeBucket, row.inBytes, row.outBytes))) =
      some ([], [(at10 0, 330, 33)]) := by decide
  rcases Option.map_eq_some_iff.mp replayed with ⟨last, run, view⟩
  obtain ⟨moved, summed⟩ := Prod.mk.inj view
  have reached : machine.Reaches Machine.anyEvent database last :=
    Machine.reaches_anyEvent_of_replay? run .refl
  obtain ⟨conserved, ends⟩ := bandwidth_conserved reached
  obtain ⟨count, nothing, _⟩ := ends (.bandwidthAggregationHistory .daily (at10 30) 1)
    (by decide) fun _ => scans
  exact ⟨last, reached, moved, summed, conserved, count, nothing⟩

end PacketFence.Bandwidth
