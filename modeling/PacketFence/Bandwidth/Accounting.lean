import PacketFence.Foundations.KeyedTable

/-!
# Bandwidth accounting

The two accounting tables and the stored procedures that aggregate them and
move them to the history. Which rows a `LIMIT` leaves and which of several
rows a grouped column comes from is up to the scan of the table. Byte counts
are exact, as long as the sums fit the columns.
-/

namespace PacketFence.Bandwidth

open Foundations

/-- A `DATETIME`; a month or day of zero belongs to no date. -/
structure DateTime where
  year : Nat
  month : Nat
  day : Nat
  hour : Nat
  minute : Nat
  second : Nat
  deriving DecidableEq, Ord

namespace DateTime

def zero : DateTime := ⟨0, 0, 0, 0, 0, 0⟩

def isDate (time : DateTime) : Bool :=
  time.month != 0 && time.day != 0

def greatest (first second : DateTime) : DateTime :=
  if (compare first second).isLT then second else first

variable (time : DateTime)

def date : DateTime :=
  { time with hour := 0, minute := 0, second := 0 }

/-- `DATE_ADD` of hours to midnight, where they stay within the day. -/
def addHours (hours : Nat) : Option DateTime :=
  if time.isDate then some { time with hour := time.hour + hours } else none

/-- `DATE_ADD` of days, where they stay within the month. -/
def addDays (days : Int) : Option DateTime :=
  if time.isDate then some { time with day := (time.day + days).toNat } else none

def roundToHour : Option DateTime :=
  time.date.addHours time.hour

def roundToMonth : Option DateTime :=
  time.date.addDays (-time.day + 1)

end DateTime

inductive BucketSize where
  | monthly
  | daily
  | hourly

/-- `@date_rounding` -/
def BucketSize.dateRounding : BucketSize → DateTime → Option DateTime
  | .monthly => DateTime.roundToMonth
  | .daily => fun time => some time.date
  | .hourly => DateTime.roundToHour

/-- `time_bucket != rounding(time_bucket)`, which is not true of `NULL`. -/
def unrounded (rounding : DateTime → Option DateTime) (time : DateTime) : Bool :=
  (rounding time).any (time != ·)

inductive SourceType where
  | netFlow
  | radius
  deriving DecidableEq

structure Accounting where
  nodeId : Nat
  uniqueSessionId : Nat
  timeBucket : DateTime
  sourceType : SourceType
  inBytes : Int
  outBytes : Int
  mac : String
  tenantId : Int
  lastUpdated : DateTime
  deriving DecidableEq

def Accounting.totalBytes (row : Accounting) : Int :=
  row.inBytes + row.outBytes

structure History where
  nodeId : Nat
  timeBucket : DateTime
  inBytes : Int
  outBytes : Int
  mac : String
  tenantId : Int

def accountingSchema : Schema Accounting (Nat × DateTime × Nat) where
  key := fun row => (row.nodeId, row.timeBucket, row.uniqueSessionId)
  merge := fun old new =>
    { old with
      inBytes := old.inBytes + new.inBytes
      outBytes := old.outBytes + new.outBytes
      lastUpdated := old.lastUpdated.greatest new.lastUpdated }
  key_merge := fun _ _ => rfl

def historySchema : Schema History (Nat × DateTime) where
  key := fun row => (row.nodeId, row.timeBucket)
  merge := fun old new =>
    { old with
      inBytes := old.inBytes + new.inBytes
      outBytes := old.outBytes + new.outBytes }
  key_merge := fun _ _ => rfl

structure Database where
  accounting : Table accountingSchema
  history : Table historySchema
  /-- the balances that are not `NULL`, by tenant and MAC -/
  bandwidthBalance : Int → String → Option Int

structure Scans where
  accounting : Scan Accounting
  history : Scan History

def latestFirst (first second : Accounting) : Prop :=
  (compare second.timeBucket first.timeBucket).isLE = true

instance : DecidableRel latestFirst := fun first second =>
  inferInstanceAs (Decidable ((compare second.timeBucket first.timeBucket).isLE = true))

def newTimeBucket (rounding : DateTime → Option DateTime) (time : DateTime) : DateTime :=
  (rounding time).getD .zero

variable (bucketSize : BucketSize)

def Accounting.aggregated (row : Accounting) : Accounting :=
  { row with
    timeBucket := newTimeBucket bucketSize.dateRounding row.timeBucket
    sourceType := .radius }

def History.aggregated (row : History) : History :=
  { row with timeBucket := newTimeBucket bucketSize.dateRounding row.timeBucket }

def Accounting.toHistory (row : Accounting) : History where
  nodeId := row.nodeId
  timeBucket := newTimeBucket DateTime.roundToHour row.timeBucket
  inBytes := row.inBytes
  outBytes := row.outBytes
  mac := row.mac
  tenantId := row.tenantId

variable (endBucket : DateTime)

/-- The rows `bandwidth_aggregation` selects. -/
def aggregates (row : Accounting) : Bool :=
  (compare row.timeBucket endBucket).isLE && row.sourceType == .radius &&
    unrounded bucketSize.dateRounding row.timeBucket

/-- The rows `bandwidth_aggregation_history` selects. -/
def aggregatesHistory (row : History) : Bool :=
  (compare row.timeBucket endBucket).isLE && unrounded bucketSize.dateRounding row.timeBucket

/-- The rows `process_bandwidth_accounting_netflow` selects. -/
def processes (row : Accounting) : Bool :=
  row.sourceType == .netFlow && (compare row.timeBucket endBucket).isLT

/-- The rows `bandwidth_accounting_radius_to_history` selects. -/
def archives (row : Accounting) : Bool :=
  row.sourceType == .radius && (compare row.timeBucket endBucket).isLT &&
    row.lastUpdated == .zero

def Database.moveToHistory (database : Database) (picked : List Accounting) : Database :=
  { database with
    history := database.history.insertGrouped (picked.map Accounting.toHistory)
    accounting := database.accounting.delete (picked.map accountingSchema.key) }

def nodeTotals (picked : List Accounting) : List (Int × String × Int) :=
  (picked.map Accounting.nodeId).dedup.filterMap fun nodeId =>
    let rows := picked.filter (·.nodeId = nodeId)
    rows.head?.map fun row => (row.tenantId, row.mac, (rows.map Accounting.totalBytes).sum)

def debit (picked : List Accounting) (balance : Int → String → Option Int) :
    Int → String → Option Int :=
  fun tenantId mac =>
    (balance tenantId mac).map fun amount =>
      match (nodeTotals picked).find? fun total => total.1 = tenantId && total.2.1 = mac with
      | some total => max (amount - total.2.2) 0
      | none => amount

inductive Call where
  | bandwidthAggregation (bucketSize : BucketSize) (endBucket : DateTime) (batch : Nat)
  | processBandwidthAccountingNetflow (endBucket : DateTime) (batch : Nat)
  | bandwidthAccountingRadiusToHistory (endBucket : DateTime) (batch : Nat)
  | bandwidthAggregationHistory (bucketSize : BucketSize) (endBucket : DateTime) (batch : Nat)

variable (scans : Scans)

/-- The database after the call and the number of rows it reports. -/
def bandwidthAggregation (bucketSize : BucketSize) (endBucket : DateTime)
    (batch : Nat) (database : Database) : Database × Nat :=
  let toDelete := database.accounting.select (scans.accounting.sortedBy latestFirst)
    (aggregates bucketSize endBucket) batch
  if 0 < toDelete.length then
    let new := toDelete.map (Accounting.aggregated bucketSize)
    ({ database with
        accounting := (database.accounting.insertGrouped new).delete
          (toDelete.map accountingSchema.key) },
      toDelete.length)
  else
    (database, toDelete.length)

def processBandwidthAccountingNetflow (endBucket : DateTime) (batch : Nat)
    (database : Database) : Database × Nat :=
  let toProcess := database.accounting.select scans.accounting (processes endBucket) batch
  if 0 < toProcess.length then
    ({ database.moveToHistory toProcess with
        bandwidthBalance := debit toProcess database.bandwidthBalance },
      toProcess.length)
  else
    (database, toProcess.length)

def bandwidthAccountingRadiusToHistory (endBucket : DateTime) (batch : Nat)
    (database : Database) : Database × Nat :=
  let toDelete := database.accounting.select scans.accounting (archives endBucket) batch
  if 0 < toDelete.length then
    (database.moveToHistory toDelete, toDelete.length)
  else
    (database, toDelete.length)

def bandwidthAggregationHistory (bucketSize : BucketSize)
    (endBucket : DateTime) (batch : Nat) (database : Database) : Database × Nat :=
  let toDelete := database.history.select scans.history
    (aggregatesHistory bucketSize endBucket) batch
  if 0 < toDelete.length then
    let new := toDelete.map (History.aggregated bucketSize)
    ({ database with
        history := (database.history.insertGrouped new).delete
          (toDelete.map historySchema.key) },
      toDelete.length)
  else
    (database, toDelete.length)

def Call.execute (database : Database) : Call → Database × Nat
  | .bandwidthAggregation bucketSize endBucket batch =>
    Bandwidth.bandwidthAggregation scans bucketSize endBucket batch database
  | .processBandwidthAccountingNetflow endBucket batch =>
    Bandwidth.processBandwidthAccountingNetflow scans endBucket batch database
  | .bandwidthAccountingRadiusToHistory endBucket batch =>
    Bandwidth.bandwidthAccountingRadiusToHistory scans endBucket batch database
  | .bandwidthAggregationHistory bucketSize endBucket batch =>
    Bandwidth.bandwidthAggregationHistory scans bucketSize endBucket batch database

end PacketFence.Bandwidth
