import PacketFence.Foundations.Machine
import PacketFence.Foundations.OrderBy
import PacketFence.Ip4log.Log

/-!
# Rotating the history of the IP log

Rows that are older than a window are moved to the archive in batches. A batch is
copied by one statement and deleted by another, each of which takes the first rows in
the order of their end. Where the batch ends among rows of one end, the two may take
different ones: a row is then in both tables, and another one in neither.
-/

namespace PacketFence.Ip4log

open Foundations List

structure Rotated where
  tenantId : Int
  past : Past
  deriving DecidableEq

structure HistoryRow where
  id : Nat
  data : Rotated
  deriving DecidableEq

def HistoryRow.endTime (row : HistoryRow) : Nat := row.data.past.endTime

def historySchema : Schema HistoryRow Nat where
  key := HistoryRow.id
  merge := fun old _ => old
  key_merge := fun _ _ => rfl

structure Job where
  start : Nat
  rotateWindow : Int
  rotateBatch : Nat

/-- The two tables; the archive numbers its rows itself. -/
structure Rotation where
  history : Table historySchema
  archive : List Rotated

/-- The orders in which the two statements of a batch visit the rows. -/
structure Batch where
  copying : Scan HistoryRow
  deleting : Scan HistoryRow

namespace Job

variable (job : Job)

/-- `end_time < DATE_SUB(?, INTERVAL ? SECOND)` -/
def isOld (row : HistoryRow) : Bool :=
  decide ((row.endTime : Int) < job.start - job.rotateWindow)

/-- `WHERE … ORDER BY end_time LIMIT ?` -/
def oldest (scan : Scan HistoryRow) (history : Table historySchema) : List HistoryRow :=
  history.select (scan.sortedBy fun first second => first.endTime ≤ second.endTime) job.isOld
    job.rotateBatch

/-- One transaction; there is none if there is nothing left to move. -/
def rotate? (state : Rotation) (batch : Batch) : Option Rotation :=
  if (job.oldest batch.copying state.history).isEmpty then
    none
  else
    some {
      history := state.history.delete
        ((job.oldest batch.deleting state.history).map HistoryRow.id)
      archive := state.archive ++
        (job.oldest batch.copying state.history).map HistoryRow.data }

/-- The loop, for as many batches as fit into the time. -/
def doRotate : List Batch → Rotation → Rotation
  | [], state => state
  | batch :: rest, state =>
    match job.rotate? state batch with
    | none => state
    | some next => doRotate rest next

def rotation : Machine Rotation Batch where
  step? := job.rotate?

/-- Each old row is still in one of the two tables, and the others are as they were. -/
structure Conserves (first state : Rotation) : Prop where
  old : ((state.history.rows.filter job.isOld).map HistoryRow.data ++ state.archive).Perm
    ((first.history.rows.filter job.isOld).map HistoryRow.data ++ first.archive)
  younger : (state.history.rows.filter fun row => !job.isOld row) =
    first.history.rows.filter fun row => !job.isOld row

def Undivided (history : Table historySchema) : Prop :=
  ∀ row ∈ history.rows, job.isOld row = true →
    Scan.upTo HistoryRow.endTime job.isOld history.rows row.endTime ≤ job.rotateBatch ∨
      job.rotateBatch ≤ Scan.below HistoryRow.endTime job.isOld history.rows row.endTime ∨
        ∀ other ∈ history.rows, job.isOld other = true → other.endTime = row.endTime →
          other.data = row.data

instance (history : Table historySchema) : Decidable (job.Undivided history) :=
  inferInstanceAs (Decidable (∀ row ∈ history.rows, _))

end Job

namespace Job

variable {job : Job} {first state next : Rotation} {batch : Batch}
  {history : Table historySchema} {scan : Scan HistoryRow} {row : HistoryRow} {data : Rotated}

theorem oldest_eq_limitBy :
    job.oldest scan history =
      scan.limitBy HistoryRow.endTime job.isOld job.rotateBatch history.rows := rfl

theorem mem_of_oldest (member : row ∈ job.oldest scan history) :
    row ∈ history.rows ∧ job.isOld row = true := Table.mem_of_mem_select member

theorem oldest_eq_nil {one : Scan HistoryRow} (nothing : job.oldest one history = [])
    (two : Scan HistoryRow) : job.oldest two history = [] := by
  rw [← length_eq_zero_iff, oldest, Table.length_select] at nothing ⊢
  exact nothing

/-- The number of rows with these data is the same in all orders exactly if no batch ends
among rows that differ. -/
theorem undivided_iff :
    job.Undivided history ↔ ∀ data (one two : Scan HistoryRow),
      ((job.oldest one history).countP fun row => row.data = data) =
        (job.oldest two history).countP fun row => row.data = data := by
  have within : ∀ data : Rotated, ∀ row : HistoryRow, decide (row.data = data) = true →
      row.endTime = data.past.endTime := by
    intro data row same
    rw [HistoryRow.endTime, of_decide_eq_true same]
  simp only [oldest_eq_limitBy, Scan.countP_limitBy_eq_iff (within _)]
  constructor
  · intro undivided data
    by_cases present : ∃ row ∈ history.rows, job.isOld row = true ∧ row.data = data
    · obtain ⟨row, member, isOld, rfl⟩ := present
      rcases undivided row member isOld with fits | beyond | alike
      · exact .inl fits
      · exact .inr (.inl beyond)
      · refine .inr (.inr (.inl fun other there isOther same => ?_))
        exact decide_eq_true (alike other there isOther same)
    · refine .inr (.inr (.inr fun row member isOld _ => ?_))
      exact decide_eq_false fun same => present ⟨row, member, isOld, same⟩
  · intro settled row member isOld
    rcases settled row.data with fits | beyond | all | none
    · exact .inl fits
    · exact .inr (.inl beyond)
    · exact .inr (.inr fun other there isOther same =>
        of_decide_eq_true (all other there isOther same))
    · exact absurd rfl (of_decide_eq_false (none row member isOld rfl))

theorem younger_delete :
    ((history.delete ((job.oldest scan history).map HistoryRow.id)).rows.filter
      fun row => !job.isOld row) = history.rows.filter fun row => !job.isOld row := by
  unfold Table.delete
  rw [filter_filter]
  refine filter_congr fun row member => ?_
  cases isOld : job.isOld row with
  | true => rfl
  | false =>
    have stays : ¬ historySchema.key row ∈ (job.oldest scan history).map HistoryRow.id := by
      intro deleted
      obtain ⟨other, chosen, same⟩ := mem_map.mp deleted
      obtain ⟨present, otherOld⟩ := mem_of_oldest chosen
      rw [inj_on_of_nodup_map history.distinct present member same, isOld] at otherOld
      cases otherOld
    simp [stays]

theorem countP_old_delete :
    ((history.delete ((job.oldest scan history).map HistoryRow.id)).rows.filter
        job.isOld).countP (fun row => row.data = data) +
      (job.oldest scan history).countP (fun row => row.data = data) =
        (history.rows.filter job.isOld).countP fun row => row.data = data := by
  have deleted := Table.countP_delete_picked
    (fun row (chosen : row ∈ job.oldest scan history) => (mem_of_oldest chosen).1)
    Table.distinct_select fun row => decide (row.data = data) && job.isOld row
  rw [countP_filter, countP_filter, ← deleted]
  congr 1
  refine countP_congr fun row chosen => ?_
  rw [(mem_of_oldest chosen).2, Bool.and_true]

@[simp] theorem count_data (rows : List HistoryRow) :
    (rows.map HistoryRow.data).count data = rows.countP fun row => row.data = data := by
  rw [List.count, countP_map]
  exact countP_congr fun row _ => by simp

theorem conserves_rotate_iff (stepped : job.rotate? state batch = some next) :
    job.Conserves state next ↔ ∀ data,
      ((job.oldest batch.copying state.history).countP fun row => row.data = data) =
        (job.oldest batch.deleting state.history).countP fun row => row.data = data := by
  unfold rotate? at stepped
  split at stepped
  · cases stepped
  · cases stepped
    constructor
    · intro conserved data
      have counted := conserved.old.count_eq data
      have deleted := @countP_old_delete job state.history batch.deleting data
      simp only [count_append, count_data] at counted
      omega
    · intro equal
      refine ⟨perm_iff_count.mpr fun data => ?_, younger_delete⟩
      have deleted := @countP_old_delete job state.history batch.deleting data
      have copied := equal data
      simp only [count_append, count_data]
      omega

theorem Conserves.refl (state : Rotation) : job.Conserves state state := ⟨.refl _, rfl⟩

theorem Conserves.trans (before : job.Conserves first state) (step : job.Conserves state next) :
    job.Conserves first next := ⟨step.old.trans before.old, step.younger.trans before.younger⟩

theorem Conserves.of_trans (before : job.Conserves first state) (all : job.Conserves first next) :
    job.Conserves state next :=
  ⟨all.old.trans before.old.symm, all.younger.trans before.younger.symm⟩

theorem reaches_doRotate (batches : List Batch)
    (reached : job.rotation.Reaches Machine.anyEvent first state) :
    job.rotation.Reaches Machine.anyEvent first (job.doRotate batches state) := by
  induction batches generalizing state with
  | nil => exact reached
  | cons batch rest ih =>
    unfold doRotate
    split
    · exact reached
    next next stepped => exact ih (.step reached trivial stepped)

/-- As long as no batch ended among rows of one end that differ, each old row is in exactly
one of the two tables; and the next batch keeps it so in all orders exactly if it does not
end among such rows either. -/
theorem rotation_conserves_iff {job : Job} {first state : Rotation}
    (reached : job.rotation.Reaches (fun state _ => job.Undivided state.history) first state) :
    job.Conserves first state ∧
      ((∀ batch next, job.rotate? state batch = some next → job.Conserves first next) ↔
        job.Undivided state.history) := by
  have conserved : job.Conserves first state := by
    induction reached with
    | refl => exact .refl _
    | step _ undivided stepped before =>
      exact before.trans ((conserves_rotate_iff stepped).mpr fun data =>
        undivided_iff.mp undivided data _ _)
  refine ⟨conserved, ?_⟩
  constructor
  · intro all
    refine undivided_iff.mpr fun data one two => ?_
    cases copied : job.oldest one state.history with
    | nil => rw [oldest_eq_nil copied two]
    | cons row rest =>
      obtain ⟨next, stepped⟩ : ∃ next, job.rotate? state ⟨one, two⟩ = some next :=
        ⟨_, if_neg (by simp [copied])⟩
      rw [← copied]
      exact (conserves_rotate_iff stepped).mp (conserved.of_trans (all _ _ stepped)) data
  · intro undivided batch next stepped
    exact conserved.trans ((conserves_rotate_iff stepped).mpr fun data =>
      undivided_iff.mp undivided data _ _)

end Job

namespace Rotating

def row (id : Nat) (mac : String) (ended : Nat) : HistoryRow :=
  ⟨id, 1, mac.toList, "10.0.0.1".toList, 5, ended⟩

def job : Job := ⟨1000, 60, 1⟩

def apart : Rotation := ⟨⟨[row 1 "a" 10, row 2 "b" 20], by decide⟩, []⟩

def together : Rotation := ⟨⟨[row 1 "a" 10, row 2 "b" 10], by decide⟩, []⟩

/-- The second row is deleted first. -/
def crossed : Batch := ⟨.inOrder, .startingWith (row 2 "b" 10)⟩

end Rotating

theorem rows_apart_conserved :
    ∃ state, Rotating.job.rotation.Reaches
        (fun state _ => Rotating.job.Undivided state.history) Rotating.apart state ∧
      Rotating.job.Conserves Rotating.apart state ∧
      state.history.rows = [Rotating.row 2 "b" 20] ∧
        state.archive = [(Rotating.row 1 "a" 10).data] := by
  obtain ⟨state, replayed, rows⟩ := Option.map_eq_some_iff.mp
    (show (Rotating.job.rotation.replay?
        (fun state _ => decide (Rotating.job.Undivided state.history)) Rotating.apart
        [⟨.inOrder, .inOrder⟩]).map (fun state => (state.history.rows, state.archive)) =
      some ([Rotating.row 2 "b" 20], [(Rotating.row 1 "a" 10).data]) by decide)
  have reached : Rotating.job.rotation.Reaches
      (fun state _ => Rotating.job.Undivided state.history) Rotating.apart state :=
    Machine.reaches_of_checked (fun _ _ => of_decide_eq_true) replayed
  rw [Prod.mk.injEq] at rows
  exact ⟨state, reached, (Job.rotation_conserves_iff reached).1, rows⟩

/-- The first row is in both tables, the second one in neither. -/
theorem rows_together_lost :
    Rotating.job.rotation.Reaches Machine.anyEvent Rotating.together
        (Rotating.job.doRotate [Rotating.crossed] Rotating.together) ∧
      (Rotating.job.doRotate [Rotating.crossed] Rotating.together).history.rows =
        [Rotating.row 1 "a" 10] ∧
      (Rotating.job.doRotate [Rotating.crossed] Rotating.together).archive =
        [(Rotating.row 1 "a" 10).data] ∧
      ¬ Rotating.job.Conserves Rotating.together
        (Rotating.job.doRotate [Rotating.crossed] Rotating.together) := by
  refine ⟨Job.reaches_doRotate _ .refl, by decide, by decide, fun conserved => ?_⟩
  exact absurd conserved.old (by decide)

end PacketFence.Ip4log
