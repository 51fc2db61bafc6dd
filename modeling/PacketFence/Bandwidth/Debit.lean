import PacketFence.Bandwidth.Conservation
import Mathlib.Algebra.Order.BigOperators.Group.List
import Mathlib.Data.List.Dedup

/-!
# What the flows cost

The flows below a cut-off are debited from the balances of their nodes in
batches. A balance is cut off at zero once for each batch, and a row is debited
in the batch that deletes it, so that it makes no difference how the rows are
divided into batches.
-/

namespace PacketFence.Bandwidth

open Foundations List Option Accounting

structure NetflowCall where
  scans : Scans
  endBucket : DateTime
  batch : Nat

namespace NetflowCall

def execute (call : NetflowCall) (database : Database) : Database × Nat :=
  processBandwidthAccountingNetflow call.scans call.endBucket call.batch database

def toProcess (call : NetflowCall) (database : Database) : List Accounting :=
  database.accounting.select call.scans.accounting (processes call.endBucket) call.batch

end NetflowCall

def runNetflow (database : Database) : List NetflowCall → Database
  | [] => database
  | call :: rest => runNetflow (call.execute database).1 rest

def processedRows (database : Database) : List NetflowCall → List Accounting
  | [] => []
  | call :: rest => call.toProcess database ++ processedRows (call.execute database).1 rest

def Accounting.belongs (tenantId : Int) (mac : String) (row : Accounting) : Bool :=
  row.tenantId = tenantId && row.mac = mac

def nodeBytes (rows : List Accounting) (tenantId : Int) (mac : String) : Int :=
  ((rows.filter (belongs tenantId mac)).map totalBytes).sum

/-- The node of a row is known by its tenant and MAC, from which `node_id` is computed. -/
def NodeIdsAgree (rows : List Accounting) : Prop :=
  ∀ first ∈ rows, ∀ second ∈ rows,
    first.nodeId = second.nodeId ↔ first.tenantId = second.tenantId ∧ first.mac = second.mac

@[simp] theorem nodeBytes_append (first second : List Accounting) (tenantId : Int) (mac : String) :
    nodeBytes (first ++ second) tenantId mac =
      nodeBytes first tenantId mac + nodeBytes second tenantId mac := by
  rw [nodeBytes, filter_append, map_append, sum_append]
  rfl

theorem nodeBytes_nonneg {rows : List Accounting}
    (counted : ∀ row ∈ rows, 0 ≤ row.inBytes ∧ 0 ≤ row.outBytes) (tenantId : Int)
    (mac : String) : 0 ≤ nodeBytes rows tenantId mac := by
  refine sum_nonneg fun bytes member => ?_
  obtain ⟨row, chosen, rfl⟩ := List.mem_map.mp member
  obtain ⟨input, output⟩ := counted row (mem_of_mem_filter chosen)
  exact add_nonneg input output

variable {picked : List Accounting} {tenantId : Int} {mac : String}

@[simp] theorem belongs_iff {row : Accounting} :
    row.belongs tenantId mac = true ↔ row.tenantId = tenantId ∧ row.mac = mac := by
  simp [belongs]

theorem filter_nodeId_eq (agree : NodeIdsAgree picked) {row : Accounting} (present : row ∈ picked) :
    picked.filter (·.nodeId = row.nodeId) =
      picked.filter (belongs row.tenantId row.mac) := by
  refine filter_congr fun other member => ?_
  rw [Bool.eq_iff_iff, decide_eq_true_eq, belongs_iff]
  exact agree other member row present

theorem mem_nodeTotals {total : Int × String × Int} (agree : NodeIdsAgree picked) :
    total ∈ nodeTotals picked ↔
      ∃ row ∈ picked, total = (row.tenantId, row.mac, nodeBytes picked row.tenantId row.mac) := by
  simp only [nodeTotals, mem_filterMap, mem_dedup, List.mem_map, map_eq_some_iff]
  constructor
  · rintro ⟨nodeId, _, row, isHead, rfl⟩
    have chosen := mem_of_head? isHead
    rw [mem_filter, decide_eq_true_eq] at chosen
    obtain ⟨present, rfl⟩ := chosen
    exact ⟨row, present, by rw [filter_nodeId_eq agree present]; rfl⟩
  · rintro ⟨row, present, rfl⟩
    refine ⟨row.nodeId, ⟨row, present, rfl⟩, ?_⟩
    rw [filter_nodeId_eq agree present]
    cases first : (picked.filter (belongs row.tenantId row.mac)).head? with
    | none =>
      have none := head?_eq_none_iff.mp first
      exact absurd (belongs_iff.mpr ⟨rfl, rfl⟩) (filter_eq_nil_iff.mp none row present)
    | some head =>
      have belongs := of_mem_filter (mem_of_head? first)
      obtain ⟨tenant, mac⟩ := belongs_iff.mp belongs
      exact ⟨head, rfl, by rw [tenant, mac]; rfl⟩

theorem debit_eq (agree : NodeIdsAgree picked) (balance : Int → String → Option Int)
    (unsigned : ∀ amount, balance tenantId mac = some amount → 0 ≤ amount) :
    debit picked balance tenantId mac =
      (balance tenantId mac).map fun amount => max (amount - nodeBytes picked tenantId mac) 0 := by
  refine Option.map_congr fun amount present => ?_
  have positive := unsigned amount present
  cases found : (nodeTotals picked).find? fun total => total.1 = tenantId && total.2.1 = mac with
  | some total =>
    have matching := find?_some found
    obtain ⟨row, _, rfl⟩ := (mem_nodeTotals agree).mp (mem_of_find?_eq_some found)
    simp only [Bool.and_eq_true, decide_eq_true_eq] at matching
    rw [matching.1, matching.2]
  | none =>
    -- no row of the node was picked
    have absent : picked.filter (belongs tenantId mac) = [] := by
      refine filter_eq_nil_iff.mpr fun row member belongs => ?_
      obtain ⟨rfl, rfl⟩ := belongs_iff.mp belongs
      have total := (mem_nodeTotals agree).mpr ⟨row, member, rfl⟩
      simpa using find?_eq_none.mp found _ total
    have nothing : nodeBytes picked tenantId mac = 0 := by
      rw [nodeBytes, absent]
      rfl
    simp only
    omega

section Batches

variable {database : Database} {row : Accounting}

theorem rows_execute (call : NetflowCall) (database : Database) :
    (call.execute database).1.accounting.rows =
      (database.accounting.delete ((call.toProcess database).map accountingSchema.key)).rows := by
  unfold NetflowCall.execute processBandwidthAccountingNetflow
  dsimp only
  split
  · rfl
  next none =>
    have empty : call.toProcess database = [] :=
      length_eq_zero_iff.mp (Nat.eq_zero_of_not_pos none)
    simp [empty, Table.delete]

variable {call : NetflowCall}

theorem mem_rows_execute (present : row ∈ database.accounting.rows) :
    row ∈ (call.execute database).1.accounting.rows ↔ row ∉ call.toProcess database := by
  have injective := inj_on_of_nodup_map database.accounting.distinct
  rw [rows_execute, Table.delete, mem_filter, Bool.not_eq_true', decide_eq_false_iff_not,
    List.mem_map]
  constructor
  · rintro ⟨_, unpicked⟩ chosen
    exact unpicked ⟨row, chosen, rfl⟩
  · refine fun unpicked => ⟨present, ?_⟩
    rintro ⟨other, chosen, same⟩
    rw [injective (Table.mem_of_mem_select chosen).1 present same] at chosen
    exact unpicked chosen

theorem bandwidthBalance_execute (call : NetflowCall) (database : Database)
    (agree : NodeIdsAgree (call.toProcess database)) (tenantId : Int) (mac : String)
    (unsigned : ∀ amount, database.bandwidthBalance tenantId mac = some amount → 0 ≤ amount) :
    (call.execute database).1.bandwidthBalance tenantId mac =
      (database.bandwidthBalance tenantId mac).map fun amount =>
        max (amount - nodeBytes (call.toProcess database) tenantId mac) 0 := by
  rw [← debit_eq agree _ unsigned]
  unfold NetflowCall.execute processBandwidthAccountingNetflow
  dsimp only
  split
  · rfl
  next none =>
    have empty : call.toProcess database = [] :=
      length_eq_zero_iff.mp (Nat.eq_zero_of_not_pos none)
    rw [empty]
    simp [debit, nodeTotals]

theorem mem_of_mem_execute
    (kept : row ∈ (call.execute database).1.accounting.rows) : row ∈ database.accounting.rows := by
  rw [rows_execute] at kept
  exact mem_of_mem_filter kept

theorem mem_of_mem_processedRows {calls : List NetflowCall}
    (processed : row ∈ processedRows database calls) :
    row ∈ database.accounting.rows ∧ ∃ call ∈ calls, processes call.endBucket row = true := by
  induction calls generalizing database with
  | nil => exact absurd processed not_mem_nil
  | cons call rest ih =>
    rcases mem_append.mp processed with now | later
    · obtain ⟨present, due⟩ := Table.mem_of_mem_select now
      exact ⟨present, call, mem_cons_self, due⟩
    · obtain ⟨kept, other, member, due⟩ := ih later
      exact ⟨mem_of_mem_execute kept, other, mem_cons_of_mem _ member, due⟩

theorem nodup_processedRows (database : Database) (calls : List NetflowCall) :
    (processedRows database calls).Nodup := by
  induction calls generalizing database with
  | nil => exact nodup_nil
  | cons call rest ih =>
    refine nodup_append'.mpr ⟨Table.distinct_select.of_map _, ih _, fun row now later => ?_⟩
    have present := (Table.mem_of_mem_select now).1
    exact (mem_rows_execute present).mp (mem_of_mem_processedRows later).1 now

theorem mem_processedRows_or_kept (present : row ∈ database.accounting.rows)
    (calls : List NetflowCall) :
    row ∈ processedRows database calls ∨ row ∈ (runNetflow database calls).accounting.rows := by
  induction calls generalizing database with
  | nil => exact Or.inr present
  | cons call rest ih =>
    by_cases now : row ∈ call.toProcess database
    · exact Or.inl (mem_append_left _ now)
    · rcases ih ((mem_rows_execute present).mpr now) with later | kept
      · exact Or.inl (mem_append_right _ later)
      · exact Or.inr kept

/-- A call of a positive batch that reports nothing has found nothing that is due. -/
theorem not_processes_of_reported_zero (positive : 0 < call.batch)
    (nothing : (call.execute database).2 = 0) (present : row ∈ database.accounting.rows) :
    processes call.endBucket row = false := by
  have reported := Call.count_execute call.scans database
    (.processBandwidthAccountingNetflow call.endBucket call.batch)
  have none : database.accounting.rows.countP (processes call.endBucket) = 0 := by
    simp only [Call.execute, Call.batch, Call.due] at reported
    rw [NetflowCall.execute] at nothing
    omega
  simpa using countP_eq_zero.mp none row present

theorem processedRows_append (database : Database) (first second : List NetflowCall) :
    processedRows database (first ++ second) =
      processedRows database first ++ processedRows (runNetflow database first) second := by
  induction first generalizing database with
  | nil => rfl
  | cons call rest ih =>
    rw [cons_append, processedRows, ih, processedRows, runNetflow, append_assoc]

theorem bandwidthBalance_runNetflow (database : Database) (calls : List NetflowCall)
    (agree : NodeIdsAgree database.accounting.rows) (counted : ∀ row ∈ database.accounting.rows,
      (∃ call ∈ calls, processes call.endBucket row = true) →
        0 ≤ row.inBytes ∧ 0 ≤ row.outBytes) (tenantId : Int) (mac : String)
    (unsigned : ∀ amount, database.bandwidthBalance tenantId mac = some amount → 0 ≤ amount) :
    (runNetflow database calls).bandwidthBalance tenantId mac =
      (database.bandwidthBalance tenantId mac).map fun amount =>
        max (amount - nodeBytes (processedRows database calls) tenantId mac) 0 := by
  induction calls generalizing database with
  | nil =>
    cases balance : database.bandwidthBalance tenantId mac with
    | none => exact balance
    | some amount =>
      have positive := unsigned amount balance
      have same : max (amount - nodeBytes [] tenantId mac) 0 = amount := by
        simp only [nodeBytes, filter_nil, map_nil, sum_nil]
        omega
      rw [runNetflow, balance, processedRows, map_some, same]
  | cons call rest ih =>
    have debited := bandwidthBalance_execute call database
      (fun first chosen second other =>
        agree first (Table.mem_of_mem_select chosen).1 second (Table.mem_of_mem_select other).1)
      tenantId mac unsigned
    have later := ih (call.execute database).1
      (fun first kept second other =>
        agree first (mem_of_mem_execute kept) second (mem_of_mem_execute other))
      (fun row kept ⟨other, member, due⟩ => counted row (mem_of_mem_execute kept)
        ⟨other, mem_cons_of_mem _ member, due⟩)
      (fun amount balance => by
        rw [debited, map_eq_some_iff] at balance
        obtain ⟨_, _, rfl⟩ := balance
        exact le_max_right _ _)
    have rest_nonneg : 0 ≤ nodeBytes (processedRows (call.execute database).1 rest)
        tenantId mac := by
      refine nodeBytes_nonneg (fun row processed => ?_) tenantId mac
      obtain ⟨kept, other, member, due⟩ := mem_of_mem_processedRows processed
      exact counted row (mem_of_mem_execute kept) ⟨other, mem_cons_of_mem _ member, due⟩
    rw [runNetflow, later, debited, Option.map_map, processedRows, nodeBytes_append]
    refine Option.map_congr fun amount _ => ?_
    rw [Function.comp_apply]
    omega

end Batches

/-- However the flows are divided into calls: each node that has a balance is
debited the total of its processed rows, cut off at zero, and no row is processed
twice. Once a call reports nothing, all rows below the cut-off are processed. -/
theorem netflow_debit_independent_of_batching (database : Database)
    (agree : NodeIdsAgree database.accounting.rows) (unsigned : ∀ tenantId mac amount,
      database.bandwidthBalance tenantId mac = some amount → 0 ≤ amount) (endBucket : DateTime)
    (counted : ∀ row ∈ database.accounting.rows, processes endBucket row = true →
      0 ≤ row.inBytes ∧ 0 ≤ row.outBytes)
    (calls : List NetflowCall) (cutOff : ∀ call ∈ calls, call.endBucket = endBucket) :
    (∀ tenantId mac, (runNetflow database calls).bandwidthBalance tenantId mac =
      (database.bandwidthBalance tenantId mac).map fun amount =>
        max (amount - nodeBytes (processedRows database calls) tenantId mac) 0) ∧
    (processedRows database calls).Nodup ∧
    (∀ row ∈ processedRows database calls,
      row ∈ database.accounting.rows ∧ processes endBucket row = true) ∧
    ∀ earlier call, calls = earlier ++ [call] → 0 < call.batch →
      (call.execute (runNetflow database earlier)).2 = 0 →
      (processedRows database calls).Perm
        (database.accounting.rows.filter (processes endBucket)) := by
  have sound : ∀ row ∈ processedRows database calls,
      row ∈ database.accounting.rows ∧ processes endBucket row = true := by
    intro row processed
    obtain ⟨present, call, member, due⟩ := mem_of_mem_processedRows processed
    exact ⟨present, cutOff call member ▸ due⟩
  refine ⟨?_, nodup_processedRows database calls, sound, ?_⟩
  · intro tenantId mac
    refine bandwidthBalance_runNetflow database calls agree ?_ tenantId mac (unsigned tenantId mac)
    rintro row present ⟨call, member, due⟩
    exact counted row present (cutOff call member ▸ due)
  · rintro earlier call rfl positive nothing
    refine (perm_ext_iff_of_nodup (nodup_processedRows _ _)
      ((database.accounting.distinct.of_map _).filter _)).mpr fun row => ?_
    rw [mem_filter]
    refine ⟨sound row, fun ⟨present, due⟩ => ?_⟩
    rcases mem_processedRows_or_kept present earlier with processed | kept
    · rw [processedRows_append]
      exact mem_append_left _ processed
    · have finished := not_processes_of_reported_zero positive nothing kept
      rw [cutOff call (by simp), due] at finished
      exact absurd finished (by decide)

namespace Scenario

def flows : Database where
  accounting :=
    { rows := [row .netFlow 5 30 3, row .radius 10 500 50, row .netFlow 20 60 7]
      distinct := by decide }
  history := .empty historySchema
  bandwidthBalance := fun tenantId mac =>
    if tenantId = 1 ∧ mac = "02:00:00:00:00:0a" then some 80 else none

def oneRow : NetflowCall := ⟨scans, at10 30, 1⟩

end Scenario

open Scenario

theorem netflow_debit_one_row_at_a_time :
    (runNetflow flows [oneRow, oneRow, oneRow]).bandwidthBalance 1 "02:00:00:00:00:0a" = some 0 ∧
    (processedRows flows [oneRow, oneRow, oneRow]).length = 2 := by
  have unsigned : ∀ tenantId mac amount,
      flows.bandwidthBalance tenantId mac = some amount → 0 ≤ amount := by
    intro tenantId mac amount balance
    simp only [flows, ite_none_right_eq_some, Option.some.injEq] at balance
    omega
  obtain ⟨debited, _, _, complete⟩ := netflow_debit_independent_of_batching flows
    (by unfold NodeIdsAgree; decide) unsigned (at10 30) (by decide) [oneRow, oneRow, oneRow]
    (by decide)
  refine ⟨(debited _ _).trans (by decide), ?_⟩
  rw [(complete [oneRow, oneRow] oneRow rfl (by decide) (by decide)).length_eq]
  decide

end PacketFence.Bandwidth
