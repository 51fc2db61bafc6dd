import PacketFence.Bandwidth.Conservation
import Mathlib.Algebra.Order.BigOperators.Group.List

/-!
# Accounting reports

A report carries what its session has counted so far. It overwrites the row of
its time bucket with what the other buckets of the session do not account for,
so that the rows of a session add up to its last report, however aggregations
have merged them in between.

The counters of a packet have 64 bits, those of the database are signed: a
session that has counted `2 ^ 63` bytes is accounted with the bytes of its other
buckets only.
-/

namespace PacketFence.Bandwidth

open Foundations List Accounting BitVec

inductive Direction where
  | input
  | output

def Accounting.bytesOf (row : Accounting) : Direction → Int
  | .input => row.inBytes
  | .output => row.outBytes

/-- The octets of a packet, and how often they have wrapped around. -/
def cumulative (octets gigawords : BitVec 32) : BitVec 64 :=
  octets.setWidth 64 + gigawords.setWidth 64 <<< 32

/-- What `handleAccountingRequest` takes from a packet and its switch. -/
structure AccountingRequest where
  nodeId : Nat
  tenantId : Int
  mac : String
  uniqueSessionId : Nat
  /-- the timestamp, truncated -/
  timeBucket : DateTime
  /-- the status is `Stop` -/
  stop : Bool
  acctInputOctets : BitVec 32
  acctInputGigawords : BitVec 32
  acctOutputOctets : BitVec 32
  acctOutputGigawords : BitVec 32
  now : DateTime

variable (request : AccountingRequest)

def AccountingRequest.reported : Direction → Nat
  | .input => request.acctInputGigawords.toNat * 2 ^ 32 + request.acctInputOctets.toNat
  | .output => request.acctOutputGigawords.toNat * 2 ^ 32 + request.acctOutputOctets.toNat

/-- `in_bytes` and `out_bytes`, as they are computed. -/
def AccountingRequest.counter : Direction → BitVec 64
  | .input => cumulative request.acctInputOctets request.acctInputGigawords
  | .output => cumulative request.acctOutputOctets request.acctOutputGigawords

/-- The key of `bandwidth_accounting`, with the `ON DUPLICATE KEY UPDATE` of a report. -/
def reportSchema : Schema Accounting (Nat × DateTime × Nat) where
  key := accountingSchema.key
  merge := fun old new =>
    { old with
      inBytes := new.inBytes
      outBytes := new.outBytes
      lastUpdated := new.lastUpdated }
  key_merge := fun _ _ => rfl

def AccountingRequest.elsewhere (row : Accounting) : Bool :=
  row.nodeId == request.nodeId && row.uniqueSessionId == request.uniqueSessionId &&
    row.timeBucket != request.timeBucket

def otherBytes (database : Database) (request : AccountingRequest) (direction : Direction) : Int :=
  ((database.accounting.rows.filter request.elsewhere).map (·.bytesOf direction)).sum

def reportRow (database : Database) (request : AccountingRequest) : Accounting where
  nodeId := request.nodeId
  uniqueSessionId := request.uniqueSessionId
  timeBucket := request.timeBucket
  sourceType := .radius
  inBytes := max ((request.counter .input).toInt - otherBytes database request .input) 0
  outBytes := max ((request.counter .output).toInt - otherBytes database request .output) 0
  mac := request.mac
  tenantId := request.tenantId
  lastUpdated := request.now

def insertBandwidthAccounting (database : Database) : Database :=
  { database with
    accounting :=
      { rows := reportSchema.upsert (reportRow database request) database.accounting.rows
        distinct :=
          have kept : (database.accounting.rows.map reportSchema.key).Nodup :=
            database.accounting.distinct
          Schema.distinct_upsert kept } }

def Accounting.closed (nodeId uniqueSessionId : Nat) (row : Accounting) : Accounting :=
  if row.nodeId = nodeId ∧ row.uniqueSessionId = uniqueSessionId then
    { row with lastUpdated := .zero }
  else
    row

@[simp] theorem Accounting.key_closed (nodeId uniqueSessionId : Nat) (row : Accounting) :
    accountingSchema.key (row.closed nodeId uniqueSessionId) = accountingSchema.key row := by
  unfold closed
  split <;> rfl

def closeSession (nodeId uniqueSessionId : Nat) (database : Database) : Database :=
  { database with
    accounting :=
      { rows := database.accounting.rows.map (closed nodeId uniqueSessionId)
        distinct := by
          rw [List.map_map, show accountingSchema.key ∘ closed nodeId uniqueSessionId =
            accountingSchema.key from funext (key_closed nodeId uniqueSessionId)]
          exact database.accounting.distinct } }

def handleAccountingRequest (database : Database) : Database :=
  let database := insertBandwidthAccounting request database
  if request.stop then closeSession request.nodeId request.uniqueSessionId database else database

inductive AccountingEvent where
  | report (request : AccountingRequest)
  | aggregation (scans : Scans) (bucketSize : BucketSize) (endBucket : DateTime) (batch : Nat)

def AccountingEvent.apply (database : Database) : AccountingEvent → Database
  | .report request => handleAccountingRequest request database
  | .aggregation scans bucketSize endBucket batch =>
    (bandwidthAggregation scans bucketSize endBucket batch database).1

def AccountingEvent.reportOf? (nodeId uniqueSessionId : Nat) :
    AccountingEvent → Option AccountingRequest
  | .report request =>
    if request.nodeId = nodeId ∧ request.uniqueSessionId = uniqueSessionId then some request
    else none
  | .aggregation .. => none

def runAccounting (first : Database) (events : List AccountingEvent) : Database :=
  events.foldl AccountingEvent.apply first

def Accounting.sessionBytes (nodeId uniqueSessionId : Nat) (direction : Direction)
    (row : Accounting) : Int :=
  if row.nodeId = nodeId ∧ row.uniqueSessionId = uniqueSessionId then row.bytesOf direction else 0

def Database.sessionBytes (database : Database) (nodeId uniqueSessionId : Nat)
    (direction : Direction) : Int :=
  database.accounting.total (Accounting.sessionBytes nodeId uniqueSessionId direction)

def Database.Nonnegative (database : Database) : Prop :=
  ∀ row ∈ database.accounting.rows, ∀ direction, 0 ≤ row.bytesOf direction

variable (request : AccountingRequest)

@[simp] theorem toNat_cumulative (octets gigawords : BitVec 32) :
    (cumulative octets gigawords).toNat = gigawords.toNat * 2 ^ 32 + octets.toNat := by
  rw [cumulative, toNat_add, toNat_shiftLeft, toNat_setWidth,
    toNat_setWidth, Nat.shiftLeft_eq]
  omega

@[simp] theorem AccountingRequest.toNat_counter (direction : Direction) :
    (request.counter direction).toNat = request.reported direction := by
  cases direction <;> exact toNat_cumulative _ _

theorem toInt_le_toNat (counter : BitVec 64) : counter.toInt ≤ counter.toNat := by
  rw [toInt_eq_toNat_cond]
  split <;> omega

theorem toInt_eq_toNat_iff (counter : BitVec 64) :
    counter.toInt = counter.toNat ↔ counter.toNat < 2 ^ 63 := by
  rw [toInt_eq_toNat_cond]
  split <;> omega

section Sessions

variable {database : Database} {nodeId uniqueSessionId : Nat} {direction : Direction}

section Nonnegative

variable (nonnegative : database.Nonnegative)

include nonnegative

theorem Database.Nonnegative.bandwidthAggregation (scans : Scans) (bucketSize : BucketSize)
    (endBucket : DateTime) (batch : Nat) :
    (bandwidthAggregation scans bucketSize endBucket batch database).1.Nonnegative := by
  unfold Bandwidth.bandwidthAggregation
  dsimp only
  split
  · intro row kept
    refine Table.forall_mem_insertGrouped ?_ nonnegative ?_ row (mem_of_mem_filter kept)
    · intro old new oldHeld newHeld
      rintro (_ | _)
      · exact add_nonneg (oldHeld .input) (newHeld .input)
      · exact add_nonneg (oldHeld .output) (newHeld .output)
    · intro row settled
      obtain ⟨old, chosen, rfl⟩ := mem_map.mp settled
      have held := nonnegative old (Table.mem_of_mem_select chosen).1
      rintro (_ | _)
      · exact held .input
      · exact held .output
  · exact nonnegative

theorem Database.Nonnegative.handleAccountingRequest :
    (handleAccountingRequest request database).Nonnegative := by
  have inserted : (insertBandwidthAccounting request database).Nonnegative := by
    have fresh : ∀ direction, 0 ≤ (reportRow database request).bytesOf direction := by
      rintro (_ | _) <;> exact le_max_right _ _
    refine Schema.forall_mem_upsert nonnegative fresh fun old _ => ?_
    rintro (_ | _)
    · exact fresh .input
    · exact fresh .output
  unfold Bandwidth.handleAccountingRequest
  dsimp only
  split
  · intro row closed
    obtain ⟨old, present, rfl⟩ := mem_map.mp closed
    have held := inserted old present
    unfold Accounting.closed
    split
    · rintro (_ | _)
      · exact held .input
      · exact held .output
    · exact held
  · exact inserted

theorem Database.Nonnegative.apply (event : AccountingEvent) :
    (event.apply database).Nonnegative := by
  cases event with
  | report request => exact nonnegative.handleAccountingRequest request
  | aggregation scans bucketSize endBucket batch =>
    exact nonnegative.bandwidthAggregation scans bucketSize endBucket batch

theorem Database.Nonnegative.runAccounting (events : List AccountingEvent) :
    (runAccounting database events).Nonnegative := by
  induction events generalizing database with
  | nil => exact nonnegative
  | cons event rest ih => exact ih (nonnegative.apply event)

end Nonnegative

theorem sessionBytes_bandwidthAggregation (scans : Scans) (bucketSize : BucketSize)
    (endBucket : DateTime) (batch : Nat) :
    (bandwidthAggregation scans bucketSize endBucket batch database).1.sessionBytes
        nodeId uniqueSessionId direction =
      database.sessionBytes nodeId uniqueSessionId direction := by
  refine total_bandwidthAggregation scans bucketSize endBucket batch database ?_ fun row => ?_
  · rintro key old new rfl same
    simp only [accountingSchema, Prod.mk.injEq] at same
    by_cases counted : old.nodeId = nodeId ∧ old.uniqueSessionId = uniqueSessionId <;>
      cases direction <;>
      simp [Accounting.sessionBytes, Accounting.bytesOf, accountingSchema, same, counted]
  · cases direction <;> rfl

theorem sessionBytes_closeSession (closedNode closedSession : Nat) :
    (closeSession closedNode closedSession database).sessionBytes nodeId uniqueSessionId direction =
      database.sessionBytes nodeId uniqueSessionId direction := by
  unfold Database.sessionBytes Table.total closeSession
  rw [map_map]
  refine congrArg List.sum (map_congr_left fun row _ => ?_)
  rw [Function.comp_apply, Accounting.closed]
  split
  · cases direction <;> rfl
  · rfl

theorem sessionBytes_handleAccountingRequest :
    (handleAccountingRequest request database).sessionBytes nodeId uniqueSessionId direction =
      (insertBandwidthAccounting request database).sessionBytes
        nodeId uniqueSessionId direction := by
  unfold handleAccountingRequest
  split
  · exact sessionBytes_closeSession _ _
  · rfl

theorem sessionBytes_insert_of_other
    (other : ¬ (request.nodeId = nodeId ∧ request.uniqueSessionId = uniqueSessionId)) :
    (insertBandwidthAccounting request database).sessionBytes nodeId uniqueSessionId direction =
      database.sessionBytes nodeId uniqueSessionId direction := by
  have uncounted : ∀ row, reportSchema.key row =
      reportSchema.key (reportRow database request) →
      row.sessionBytes nodeId uniqueSessionId direction = 0 := by
    intro row same
    simp only [reportSchema, accountingSchema, reportRow, Prod.mk.injEq] at same
    rw [Accounting.sessionBytes, if_neg (by rwa [same.1, same.2.2])]
  have additive : reportSchema.AdditiveAt
      (Accounting.sessionBytes nodeId uniqueSessionId direction)
      (reportSchema.key (reportRow database request)) := by
    intro old new oldSame newSame
    rw [uncounted old oldSame, uncounted new newSame,
      uncounted _ ((reportSchema.key_merge old new).trans oldSame), add_zero]
  have added : (insertBandwidthAccounting request database).sessionBytes
        nodeId uniqueSessionId direction =
      database.sessionBytes nodeId uniqueSessionId direction +
        (reportRow database request).sessionBytes nodeId uniqueSessionId direction :=
    Schema.sum_upsert additive
  rw [added, uncounted _ rfl, add_zero]

theorem sum_sessionBytes_elsewhere : ((database.accounting.rows.filter fun row =>
        !decide (reportSchema.key row = reportSchema.key (reportRow database request))).map
        (sessionBytes request.nodeId request.uniqueSessionId direction)).sum =
      otherBytes database request direction := by
  rw [otherBytes, sum_filter_map, sum_filter_map]
  refine congrArg List.sum (map_congr_left fun row _ => ?_)
  simp only [reportSchema, accountingSchema, reportRow, AccountingRequest.elsewhere,
    sessionBytes]
  by_cases node : row.nodeId = request.nodeId <;>
    by_cases session : row.uniqueSessionId = request.uniqueSessionId <;>
    simp [node, session]

theorem sessionBytes_insert : (insertBandwidthAccounting request database).sessionBytes
        request.nodeId request.uniqueSessionId direction =
      max (request.counter direction).toInt (otherBytes database request direction) := by
  have replaces : ∀ old, reportSchema.key old = reportSchema.key (reportRow database request) →
      (reportSchema.merge old (reportRow database request)).sessionBytes
          request.nodeId request.uniqueSessionId direction =
        (reportRow database request).sessionBytes
          request.nodeId request.uniqueSessionId direction := by
    intro old same
    simp only [reportSchema, accountingSchema, reportRow, Prod.mk.injEq] at same
    cases direction <;>
      simp [Accounting.sessionBytes, Accounting.bytesOf, reportSchema, reportRow, same]
  have kept : (database.accounting.rows.map reportSchema.key).Nodup := database.accounting.distinct
  have replaced : (insertBandwidthAccounting request database).sessionBytes
        request.nodeId request.uniqueSessionId direction =
      otherBytes database request direction + (reportRow database request).sessionBytes
        request.nodeId request.uniqueSessionId direction := by
    rw [← sum_sessionBytes_elsewhere]
    exact Schema.sum_upsert_of_replaces kept replaces
  have own : (reportRow database request).sessionBytes request.nodeId request.uniqueSessionId
        direction =
      max ((request.counter direction).toInt - otherBytes database request direction) 0 := by
    rw [Accounting.sessionBytes, if_pos ⟨rfl, rfl⟩]
    cases direction <;> rfl
  omega

theorem otherBytes_le_sessionBytes (nonnegative : database.Nonnegative)
    (request : AccountingRequest) :
    otherBytes database request direction ≤
      database.sessionBytes request.nodeId request.uniqueSessionId direction := by
  rw [← sum_sessionBytes_elsewhere request]
  refine List.Sublist.sum_le_sum (filter_sublist.map _) fun bytes counted => ?_
  obtain ⟨row, present, rfl⟩ := mem_map.mp counted
  unfold Accounting.sessionBytes
  split
  · exact nonnegative row present direction
  · exact le_rfl

theorem sessionBytes_apply_le (nonnegative : database.Nonnegative) {bound : Int}
    (before : database.sessionBytes nodeId uniqueSessionId direction ≤ bound)
    (event : AccountingEvent)
    (reported : ∀ request, event.reportOf? nodeId uniqueSessionId = some request →
      (request.counter direction).toInt ≤ bound) :
    (event.apply database).sessionBytes nodeId uniqueSessionId direction ≤ bound := by
  cases event with
  | aggregation scans bucketSize endBucket batch =>
    exact (sessionBytes_bandwidthAggregation scans bucketSize endBucket batch).trans_le before
  | report request =>
    rw [AccountingEvent.apply, sessionBytes_handleAccountingRequest]
    by_cases own : request.nodeId = nodeId ∧ request.uniqueSessionId = uniqueSessionId
    · have counter := reported request (if_pos own)
      obtain ⟨rfl, rfl⟩ := own
      rw [sessionBytes_insert]
      exact max_le counter ((otherBytes_le_sessionBytes nonnegative request).trans before)
    · rwa [sessionBytes_insert_of_other request own]

theorem sessionBytes_runAccounting_le (nonnegative : database.Nonnegative) {bound : Int}
    (before : database.sessionBytes nodeId uniqueSessionId direction ≤ bound)
    (events : List AccountingEvent)
    (reported : ∀ request ∈ events.filterMap (·.reportOf? nodeId uniqueSessionId),
      (request.counter direction).toInt ≤ bound) :
    (runAccounting database events).sessionBytes nodeId uniqueSessionId direction ≤ bound := by
  induction events generalizing database with
  | nil => exact before
  | cons event rest ih =>
    have now := sessionBytes_apply_le nonnegative before event fun request isReport =>
      reported request (mem_filterMap.mpr ⟨event, mem_cons_self, isReport⟩)
    refine ih (nonnegative.apply event) now fun request later => ?_
    obtain ⟨other, member, isReport⟩ := mem_filterMap.mp later
    exact reported request (mem_filterMap.mpr ⟨other, mem_cons_of_mem _ member, isReport⟩)

end Sessions

/-- From a table without negative rows and without rows of the session: no row
ever becomes negative, and when the counters of the session do not decrease, its
rows add up to the report just made exactly if the report fits a signed counter. -/
theorem radius_accounting_telescopes_iff (first : Database) (nodeId uniqueSessionId : Nat)
    (nonnegative : first.Nonnegative) (fresh : ∀ row ∈ first.accounting.rows,
      ¬ (row.nodeId = nodeId ∧ row.uniqueSessionId = uniqueSessionId)) :
    (∀ events, (runAccounting first events).Nonnegative) ∧
    ∀ (events : List AccountingEvent) (request : AccountingRequest) (direction : Direction),
      request.nodeId = nodeId → request.uniqueSessionId = uniqueSessionId →
      (((events ++ [AccountingEvent.report request]).filterMap
        (·.reportOf? nodeId uniqueSessionId)).map (·.reported direction)).Pairwise (· ≤ ·) →
      ((runAccounting first (events ++ [.report request])).sessionBytes
          nodeId uniqueSessionId direction = request.reported direction ↔
        request.reported direction < 2 ^ 63) := by
  refine ⟨nonnegative.runAccounting, ?_⟩
  rintro events request direction rfl rfl increasing
  have empty : first.sessionBytes request.nodeId request.uniqueSessionId direction = 0 := by
    refine sum_eq_zero fun bytes counted => ?_
    obtain ⟨row, present, rfl⟩ := mem_map.mp counted
    exact if_neg (fresh row present)
  have earlier : ∀ report ∈ events.filterMap
      (·.reportOf? request.nodeId request.uniqueSessionId),
      report.reported direction ≤ request.reported direction := by
    intro report member
    have last : [AccountingEvent.report request].filterMap
        (·.reportOf? request.nodeId request.uniqueSessionId) = [request] := by
      simp [AccountingEvent.reportOf?]
    rw [filterMap_append, last, map_append, pairwise_append] at increasing
    exact increasing.2.2 _ (mem_map_of_mem member) _ (by simp)
  have reached := nonnegative.runAccounting events
  -- the other buckets hold no more than any bound of the reports made so far
  have others : ∀ bound : Int, 0 ≤ bound →
      (∀ report ∈ events.filterMap (·.reportOf? request.nodeId request.uniqueSessionId),
        (report.counter direction).toInt ≤ bound) →
      otherBytes (runAccounting first events) request direction ≤ bound := by
    intro bound positive reported
    exact (otherBytes_le_sessionBytes reached request).trans
      (sessionBytes_runAccounting_le nonnegative (empty.trans_le positive) events reported)
  have total : (runAccounting first (events ++ [.report request])).sessionBytes
        request.nodeId request.uniqueSessionId direction =
      max (request.counter direction).toInt
        (otherBytes (runAccounting first events) request direction) := by
    rw [runAccounting, foldl_append]
    exact (sessionBytes_handleAccountingRequest request).trans (sessionBytes_insert request)
  rw [total, ← request.toNat_counter, ← toInt_eq_toNat_iff]
  constructor
  · have limit := others (2 ^ 63 - 1) (by decide) fun report _ =>
      Int.le_sub_one_of_lt toInt_lt
    have signed : (request.counter direction).toInt < 2 ^ 63 := toInt_lt
    rw [toInt_eq_toNat_iff]
    omega
  · intro fits
    have covered := others (request.counter direction).toInt (by omega) fun report member => by
      have smaller := earlier report member
      have signed := toInt_le_toNat (report.counter direction)
      rw [report.toNat_counter] at signed
      rw [request.toNat_counter] at fits
      omega
    rw [max_eq_left covered, fits]

namespace Scenario

theorem nonnegative_database : database.Nonnegative := by
  intro row present direction
  simp only [database, mem_cons, not_mem_nil, or_false] at present
  rcases present with rfl | rfl | rfl <;> cases direction <;> decide

def report (minute : Nat) (octets gigawords : BitVec 32) : AccountingRequest where
  nodeId := 1
  tenantId := 1
  mac := "02:00:00:00:00:0a"
  uniqueSessionId := 8
  timeBucket := at10 minute
  stop := false
  acctInputOctets := octets
  acctInputGigawords := gigawords
  acctOutputOctets := octets
  acctOutputGigawords := 0
  now := at10 minute

/-- Two buckets out of order, merged, and a third report. -/
def reports : List AccountingEvent :=
  [.report (report 20 100 0), .report (report 5 250 0),
    .aggregation scans .hourly (at10 30) 10, .report (report 20 300 1)]

end Scenario

open Scenario

theorem radius_accounting_telescopes_through_aggregation :
    (runAccounting database (reports ++ [.report (report 20 400 1)])).sessionBytes 1 8 .input =
      4294967696 := by
  have telescoped := (radius_accounting_telescopes_iff database 1 8 nonnegative_database
    (by decide)).2 reports (report 20 400 1) .input rfl rfl (by decide)
  exact telescoped.mpr (by decide)

/-- The counter of the packet is negative as a signed one. -/
theorem radius_accounting_drops_large_counter :
    database.Nonnegative ∧
    (∀ row ∈ database.accounting.rows, ¬ (row.nodeId = 1 ∧ row.uniqueSessionId = 8)) ∧
    (report 20 0 0x80000000).reported .input = 2 ^ 63 ∧
    (runAccounting database [.report (report 20 0 0x80000000)]).sessionBytes 1 8 .input = 0 :=
  ⟨nonnegative_database, by decide, by decide, by decide⟩

end PacketFence.Bandwidth
