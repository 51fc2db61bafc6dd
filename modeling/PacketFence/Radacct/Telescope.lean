import Mathlib.Algebra.Order.BigOperators.Group.List
import PacketFence.Radacct.Sessions

/-!
# The log of a session

A start logs what it has counted, every later packet what has come since the row was
written, and a session that is opened by an update logs nothing for it. The values
that were logged add up to those of the row, as long as every one of them fits into
its column. The session time does not always: it is unsigned in `radacct` and signed
in `radacct_log`.
-/

namespace PacketFence.Radacct

open Foundations Lexing List Database Counter Nat

def Counts.amount (counts : Counts) (counter : Counter) : Nat := (counts counter).getD 0

/-- `SELECT SUM(…) FROM radacct_log`, which leaves out what is `NULL`. -/
def Database.logged (database : Database) (id : Text) (counter : Counter) : Nat :=
  ((database.logOf id).map fun entry => entry.counts.amount counter).sum

def Telescopes (database : Database) (id : Text) : Prop :=
  match database.rowsOf id with
  | [] => ∀ counter, database.logged id counter = 0
  | [row] => ∀ counter, row.counts counter = some (database.logged id counter)
  | _ => False

def Call.IsStart : Call → Prop
  | .start _ _ _ _ _ => True
  | _ => False

/-- One packet of a session comes before another one. -/
structure Precedes (earlier later : Call) : Prop where
  later_not_start : ¬later.IsStart
  earlier_not_stop : ¬earlier.IsStop
  increasing : ∃ earlierTime laterTime, earlier.packet.timestamp = some earlierTime ∧
    later.packet.timestamp = some laterTime ∧ earlierTime < laterTime
  growing : ∀ counter,
    earlier.packet.counts.amount counter ≤ later.packet.counts.amount counter

/-- A start, updates and a stop, with counters that do not go back. -/
structure Session (calls : List Call) : Prop where
  counted : ∀ call ∈ calls, ∀ counter, (call.packet.counters counter).isSome = true
  ordered : calls.Pairwise Precedes

/-- The increase of a counter can be logged. If octets exceed their columns, they do so
in both tables; this goes unnoticed if nothing was stored before. -/
def Counter.Fits (counter : Counter) (previous new : Nat) : Prop :=
  match counter with
  | .inputOctets => new ≤ 2 ^ 63 - 1 ∨ previous = 0
  | .outputOctets => new ≤ 2 ^ 63 - 1 ∨ previous = 0
  | .sessionTime => new - previous ≤ 2 ^ 31 - 1

def Call.Fits (database : Database) : Call → Prop
  | .start _ packet _ _ _ => ∀ counter : Counter, counter.Fits 0 (packet.counts.amount counter)
  | .update packet _ => ∀ row ∈ database.rowsOf packet.acctuniqueid, row.unstopped = true ∧
      ∀ counter : Counter, counter.Fits (row.counts.amount counter) (packet.counts.amount counter)
  | .stop _ packet _ => ∀ row ∈ database.rowsOf packet.acctuniqueid, row.unstopped = true →
      ∀ counter : Counter, counter.Fits (row.counts.amount counter) (packet.counts.amount counter)

variable {row : Row} {now : DateTime} {closing : Closing} {database : Database} {packet : Packet}
  {id : Text} {scan : Scan Row} {counter : Counter} {counts : Counts}

/-! ### Columns -/

theorem amount_lt (packet : Packet) (counter : Counter) :
    packet.counts.amount counter < 2 ^ counter.width := by
  unfold Counts.amount Packet.counts
  cases packet.counters counter with
  | none => exact Nat.two_pow_pos _
  | some value => exact value.isLt

variable {previous : Nat} {change : Row → Row} {call : Call}

theorem add_min_eq_iff {new : Nat} (grown : previous ≤ new)
    (stored : previous ≤ counter.rowLimit) (bounded : new < 2 ^ counter.width) :
    min counter.rowLimit new = previous + min counter.logLimit (new - previous) ↔
      counter.Fits previous new := by
  cases counter with
  | inputOctets | outputOctets =>
    simp only [rowLimit, logLimit, Counter.Fits] at *
    omega
  | sessionTime =>
    simp only [rowLimit, logLimit, Counter.Fits, width] at *
    omega

theorem eq_some_amount (known : ∀ counter, (counts counter).isSome = true) :
    counts = fun counter => some (counts.amount counter) := by
  funext counter
  obtain ⟨value, given⟩ := Option.isSome_iff_exists.mp (known counter)
  simp [Counts.amount, given]

theorem Packet.isSome_counts (counted : ∀ counter, (packet.counters counter).isSome = true)
    (counter : Counter) : (packet.counts counter).isSome = true := by
  rw [Packet.counts, Option.isSome_map]
  exact counted counter

theorem minus_eq_ok {new previous : Counter → Nat}
    (grown : ∀ counter, previous counter ≤ new counter) :
    Counts.minus (fun counter => some (new counter)) (fun counter => some (previous counter)) =
      .ok fun counter => some (new counter - previous counter) := by
  unfold Counts.minus minus
  simp only [grown, if_true]
  refine congrArg Except.ok (funext fun counter => ?_)
  cases counter <;> rfl

theorem amount_stored (counts : Counts) (limit : Counter → Nat) (counter : Counter) :
    (counts.stored limit).amount counter = min (limit counter) (counts.amount counter) := by
  unfold Counts.amount Counts.stored
  cases counts counter with
  | none => exact (Nat.min_zero _).symm
  | some value => rfl

/-! ### Where the counters of a row come from -/

/-- The counters of every row are those of an earlier one of its session, or at most
those of the packet. -/
def Drawn (packet : Packet) (before after : List Row) : Prop :=
  ∀ row ∈ after,
    (∃ old ∈ before, old.acctuniqueid = row.acctuniqueid ∧ old.counts = row.counts) ∨
      (row.acctuniqueid = packet.acctuniqueid ∧ ∀ counter, row.counts.amount counter ≤
        min counter.rowLimit (packet.counts.amount counter))

namespace Drawn

variable {before middle after : List Row}

theorem refl (rows : List Row) : Drawn packet rows rows :=
  fun row present => .inl ⟨row, present, rfl, rfl⟩

theorem trans (first : Drawn packet before middle) (second : Drawn packet middle after) :
    Drawn packet before after := by
  intro row present
  rcases second row present with ⟨old, between, same, equal⟩ | new
  · rcases first old between with ⟨oldest, there, also, likewise⟩ | ⟨own, bounded⟩
    · exact .inl ⟨oldest, there, also.trans same, likewise.trans equal⟩
    · exact .inr ⟨same ▸ own, equal ▸ bounded⟩
  · exact .inr new

theorem update {wanted : Row → Bool} (rows : List Row)
    (aimed : ∀ row, wanted row = true → row.acctuniqueid = packet.acctuniqueid)
    (keeps : ∀ row, (change row).acctuniqueid = row.acctuniqueid)
    (counts : ∀ row, (change row).counts = row.counts ∨
      (change row).counts = packet.counts.stored rowLimit) :
    Drawn packet rows (updateWhere wanted change rows) := by
  intro row present
  obtain ⟨old, there, rfl⟩ := mem_map.mp present
  split
  next isWanted =>
    rcases counts old with same | stored
    · exact .inl ⟨old, there, (keeps old).symm, same.symm⟩
    · refine .inr ⟨(keeps old).trans (aimed old isWanted), fun counter => ?_⟩
      rw [stored, amount_stored]
  · exact .inl ⟨old, there, rfl, rfl⟩

theorem insert (drawn : Drawn packet before after)
    (own : row.acctuniqueid = packet.acctuniqueid) (bounded : ∀ counter, row.counts.amount counter ≤
      min counter.rowLimit (packet.counts.amount counter)) :
    Drawn packet before (after ++ [row]) := by
  intro other present
  rcases mem_append.mp present with there | added
  · exact drawn other there
  · cases mem_singleton.mp added
    exact .inr ⟨own, bounded⟩

end Drawn

theorem drawn_call (database : Database) (call : Call) :
    Drawn call.packet database.radacct (database.call call).radacct := by
  cases call with
  | start scan packet closing acctupdatetime acctstoptime =>
    refine Drawn.insert ?_ rfl fun counter => (amount_stored _ _ counter).le
    split
    · exact .update _ acctuniqueid_of_isOpen (fun _ => rfl) fun _ => .inl rfl
    · exact .refl _
  | stop scan packet closing =>
    rw [call, acctStop]
    split
    · exact .refl _
    · split
      · rw [radacct_insertDifferences]
        exact .update _ acctuniqueid_of_isOpen (fun _ => rfl) fun _ => .inr rfl
      · exact .refl _
  | update packet now =>
    have closed : Drawn packet database.radacct
        (closeOpenedSessions packet now database.radacct) := by
      unfold closeOpenedSessions
      split
      · exact .update _ acctuniqueid_of_isOpen (fun _ => rfl) fun _ => .inl rfl
      · exact .refl _
    have stopped : Drawn packet (closeOpenedSessions packet now database.radacct)
        (updateStopped packet (closeOpenedSessions packet now database.radacct)) := by
      unfold updateStopped
      split
      · exact .update _ acctuniqueid_of_stoppedAt (fun _ => rfl) fun _ => .inr rfl
      · exact .refl _
    refine (closed.trans stopped).trans ?_
    rw [call, acctUpdate, continueSession]
    split
    · rw [radacct_insertDifferences]
      exact .update _ acctuniqueid_of_isOpen (fun _ => rfl) fun _ => .inr rfl
    · exact Drawn.insert (.refl _) rfl fun counter => zero_le _

/-! ### The log -/

theorem logged_insertLog (own : packet.acctuniqueid = id) :
    (database.insertLog packet counts).logged id counter =
      database.logged id counter + (counts.stored logLimit).amount counter := by
  simp [logged, logOf, insertLog, own]

theorem logOf_insertLog_apart (apart : packet.acctuniqueid ≠ id) :
    (database.insertLog packet counts).logOf id = database.logOf id := by
  simp [logOf, insertLog, apart]

theorem logOf_insertDifferences_apart (apart : packet.acctuniqueid ≠ id) :
    (database.insertDifferences packet counts).1.logOf id = database.logOf id := by
  unfold insertDifferences
  split
  · exact logOf_insertLog_apart apart
  · rfl

theorem logOf_call_apart (apart : call.packet.acctuniqueid ≠ id) :
    (database.call call).logOf id = database.logOf id := by
  cases call with
  | start => exact logOf_insertLog_apart apart
  | update packet now =>
    rw [call, acctUpdate, continueSession]
    split
    · exact logOf_insertDifferences_apart apart
    · exact logOf_insertLog_apart apart
  | stop scan packet closing =>
    rw [call, acctStop]
    split
    · rfl
    · split
      · exact logOf_insertDifferences_apart apart
      · rfl

/-- The differences to the counters of a row are logged, if none of them is negative. -/
theorem logged_insertDifferences (own : packet.acctuniqueid = id)
    (counted : ∀ counter, (packet.counters counter).isSome = true)
    (known : ∀ counter, (counts counter).isSome = true)
    (grown : ∀ counter, counts.amount counter ≤ packet.counts.amount counter) :
    (database.insertDifferences packet counts).1.logged id counter = database.logged id counter +
        min counter.logLimit (packet.counts.amount counter - counts.amount counter) := by
  have differences : packet.counts.minus counts =
      .ok fun counter => some (packet.counts.amount counter - counts.amount counter) :=
    (congrArg₂ Counts.minus (eq_some_amount (Packet.isSome_counts counted))
      (eq_some_amount known)).trans (minus_eq_ok grown)
  rw [insertDifferences, differences]
  exact logged_insertLog own

/-! ### One call -/

theorem telescopes_nil_iff (none : database.rowsOf id = []) :
    Telescopes database id ↔ ∀ counter, database.logged id counter = 0 := by rw [Telescopes, none]

theorem telescopes_single_iff (single : database.rowsOf id = [row]) :
    Telescopes database id ↔
      ∀ counter, row.counts counter = some (database.logged id counter) := by
  rw [Telescopes, single]

theorem Telescopes.rowsOf_cases (telescopes : Telescopes database id) :
    database.rowsOf id = [] ∨ ∃ row, database.rowsOf id = [row] := by
  unfold Telescopes at telescopes
  split at telescopes
  next none => exact .inl none
  next row single => exact .inr ⟨row, single⟩
  · exact telescopes.elim

theorem telescopes_call_apart (apart : call.packet.acctuniqueid ≠ id) :
    Telescopes (database.call call) id ↔ Telescopes database id := by
  unfold Telescopes logged
  rw [rowsOf_call_apart apart, logOf_call_apart apart]

theorem updateStopped_eq_self (unstopped : ∀ row ∈ database.rowsOf packet.acctuniqueid,
      row.stoppedAt packet.acctuniqueid packet.timestamp = false) :
    updateStopped packet database.radacct = database.radacct := by
  refine if_neg fun single => ?_
  obtain ⟨row, present, stopped⟩ := countP_pos_iff.mp (single ▸ one_pos)
  have owned : row ∈ database.rowsOf packet.acctuniqueid :=
    mem_filter.mpr ⟨present, decide_eq_true (acctuniqueid_of_stoppedAt row stopped)⟩
  rw [unstopped row owned] at stopped
  exact Bool.false_ne_true stopped

/-- A packet comes later than what a row holds. -/
structure Packet.Follows (packet : Packet) (row : Row) : Prop where
  stamped : Stamped packet.timestamp
  grown : ∀ counter, row.counts.amount counter ≤
    min counter.rowLimit (packet.counts.amount counter)

/-- The one row of a session is open and holds what was logged, and the next packet comes. -/
structure Counting (database : Database) (packet : Packet) (row : Row) : Prop where
  single : database.rowsOf packet.acctuniqueid = [row]
  unstopped : row.unstopped = true
  logged : ∀ counter, row.counts counter = some (database.logged packet.acctuniqueid counter)
  counted : ∀ counter, (packet.counters counter).isSome = true
  follows : packet.Follows row

namespace Counting

variable (counting : Counting database packet row)

include counting

theorem opened_eq : database.opened packet.acctuniqueid = [row] := by
  rw [opened_eq_filter_rowsOf, counting.single, filter_singleton, counting.unstopped]
  rfl

theorem isSome_counts (counter : Counter) : (row.counts counter).isSome = true := by
  rw [counting.logged]
  rfl

theorem isOpen : row.isOpen packet.acctuniqueid = true := by
  have member : row ∈ database.opened packet.acctuniqueid :=
    counting.opened_eq ▸ mem_singleton_self row
  exact (mem_filter.mp member).2

theorem rowsOf_updateWhere (keeps : ∀ row, (change row).acctuniqueid = row.acctuniqueid) :
    rowsOf
      { database with
        radacct := updateWhere (Row.isOpen packet.acctuniqueid) change database.radacct }
      packet.acctuniqueid = [change row] := by
  rw [rowsOf, filter_updateWhere_owned keeps, ← updateWhere_singleton counting.isOpen,
    ← counting.single]
  rfl

/-- The row has taken the counters of the packet, and the log takes their differences. -/
theorem telescopes_iff {moved : Database} {new : Row}
    (single : moved.rowsOf packet.acctuniqueid = [new])
    (unlogged : moved.radacctLog = database.radacctLog)
    (stores : new.counts = packet.counts.stored rowLimit) :
    Telescopes (moved.insertDifferences packet row.counts).1 packet.acctuniqueid ↔
      ∀ counter : Counter,
        counter.Fits (row.counts.amount counter) (packet.counts.amount counter) := by
  have rows : (moved.insertDifferences packet row.counts).1.rowsOf packet.acctuniqueid = [new] := by
    rw [rowsOf, radacct_insertDifferences]
    exact single
  rw [telescopes_single_iff rows]
  refine forall_congr' fun counter => ?_
  have grown := counting.follows.grown
  have before : moved.logged packet.acctuniqueid counter = row.counts.amount counter := by
    rw [Database.logged, Database.logOf, unlogged, Counts.amount, counting.logged]
    rfl
  have stored : new.counts counter =
      some (min counter.rowLimit (packet.counts.amount counter)) := by
    rw [eq_some_amount (Packet.isSome_counts counting.counted)] at stores
    rw [stores]
    rfl
  rw [logged_insertDifferences rfl counting.counted counting.isSome_counts
    fun counter => (grown counter).trans (min_le_right _ _), before, stored, Option.some.injEq]
  exact add_min_eq_iff ((grown counter).trans (min_le_right _ _))
    ((grown counter).trans (min_le_left _ _)) (amount_lt packet counter)

/-- No row of the session has a stop time, and an update goes on with the open one. -/
theorem acctUpdate_eq : acctUpdate packet now database =
      insertDifferences
        { database with
          radacct := updateWhere (Row.isOpen packet.acctuniqueid)
            (Row.continuedBy packet row.acctupdatetime) database.radacct }
        packet row.counts := by
  have unstopped : updateStopped packet database.radacct = database.radacct := by
    refine updateStopped_eq_self fun other owned => ?_
    rw [counting.single, mem_singleton] at owned
    rw [owned]
    exact stoppedAt_of_isOpen counting.follows.stamped counting.isOpen
  have tidy : Tidy database packet.acctuniqueid :=
    .inr ⟨row, counting.opened_eq, counting.isSome_counts _⟩
  rw [acctUpdate, closeOpenedSessions_of_tidy tidy, unstopped, continueSession,
    show database.radacct.filter (Row.isOpen packet.acctuniqueid) = [row] from counting.opened_eq]

theorem acctStop_eq : acctStop scan packet closing database =
      insertDifferences
        { database with
          radacct := updateWhere (Row.isOpen packet.acctuniqueid)
            (Row.stoppedBy packet closing) database.radacct }
        packet row.counts := by
  rw [acctStop, openRow_eq_some counting.opened_eq]
  exact if_pos (counting.isSome_counts _)

end Counting

theorem opened_of_rowsOf_nil (none : database.rowsOf id = []) : database.opened id = [] := by
  rw [opened_eq_filter_rowsOf, none]
  rfl

theorem opened_of_stopped (single : database.rowsOf id = [row])
    (stopped : row.unstopped = false) : database.opened id = [] := by
  rw [opened_eq_filter_rowsOf, single, filter_singleton, stopped]
  rfl

theorem filter_append_first (none : database.rowsOf id = []) (own : row.acctuniqueid = id) :
    (database.radacct ++ [row]).filter (fun row => row.acctuniqueid = id) = [row] := by
  rw [filter_append]
  refine (congrArg (· ++ _) none).trans ?_
  simp [own]

variable {calls : List Call}

theorem telescopes_acctStart_iff {acctupdatetime acctstoptime : Option DateTime}
    (telescopes : Telescopes database packet.acctuniqueid)
    (none : database.rowsOf packet.acctuniqueid = [])
    (counted : ∀ counter, (packet.counters counter).isSome = true) :
    Telescopes (acctStart scan packet closing acctupdatetime acctstoptime database)
        packet.acctuniqueid ↔
      ∀ counter : Counter, counter.Fits 0 (packet.counts.amount counter) := by
  have rows : (acctStart scan packet closing acctupdatetime acctstoptime database).rowsOf
      packet.acctuniqueid = [packet.startedRow closing acctupdatetime acctstoptime] := by
    unfold acctStart rowsOf
    rw [openRow_eq_none (opened_of_rowsOf_nil none), radacct_insertLog]
    exact filter_append_first none rfl
  rw [telescopes_single_iff rows]
  refine forall_congr' fun counter => ?_
  have before := (telescopes_nil_iff none).mp telescopes counter
  have after : (acctStart scan packet closing acctupdatetime acctstoptime database).logged
      packet.acctuniqueid counter =
        database.logged packet.acctuniqueid counter +
          (packet.counts.stored logLimit).amount counter := logged_insertLog rfl
  have stored : (packet.startedRow closing acctupdatetime acctstoptime).counts counter =
      some (min counter.rowLimit (packet.counts.amount counter)) := by
    unfold Packet.startedRow
    rw [eq_some_amount (Packet.isSome_counts counted)]
    rfl
  rw [after, before, amount_stored, stored, Option.some.injEq]
  exact add_min_eq_iff (zero_le _) (zero_le _) (amount_lt packet counter)

theorem telescopes_acctUpdate_of_none (telescopes : Telescopes database packet.acctuniqueid)
    (none : database.rowsOf packet.acctuniqueid = []) :
    Telescopes (acctUpdate packet now database).1 packet.acctuniqueid := by
  have opened := opened_of_rowsOf_nil none
  have unstopped : updateStopped packet database.radacct = database.radacct :=
    updateStopped_eq_self (none ▸ fun other owned => nomatch owned)
  have inserted : (acctUpdate packet now database).1 =
      insertLog { database with radacct := database.radacct ++ [packet.openedRow] }
        packet fun _ => some 0 := by
    rw [acctUpdate, closeOpenedSessions_of_tidy (.inl opened), unstopped, continueSession,
      show database.radacct.filter (Row.isOpen packet.acctuniqueid) = [] from opened]
  have rows : (acctUpdate packet now database).1.rowsOf packet.acctuniqueid =
      [packet.openedRow] := by
    rw [inserted, rowsOf, radacct_insertLog]
    exact filter_append_first none rfl
  refine (telescopes_single_iff rows).mpr fun counter => congrArg some ?_
  have before : logged { database with radacct := database.radacct ++ [packet.openedRow] }
      packet.acctuniqueid counter = 0 := (telescopes_nil_iff none).mp telescopes counter
  rw [inserted, logged_insertLog rfl, amount_stored, before, Nat.zero_add]
  exact (Nat.min_zero _).symm

theorem not_telescopes_acctUpdate
    (single : database.rowsOf packet.acctuniqueid = [row]) (stopped : row.unstopped = false)
    (stamped : Stamped packet.timestamp) :
    ¬Telescopes (acctUpdate packet now database).1 packet.acctuniqueid := by
  intro telescopes
  have opened := opened_of_stopped single stopped
  have kept : ((updateStopped packet database.radacct).filter
      fun row => row.acctuniqueid = packet.acctuniqueid).length = 1 := by
    have length : (database.rowsOf packet.acctuniqueid).length = 1 := by rw [single]; rfl
    unfold updateStopped
    split
    · rw [filter_updateWhere_owned (acctuniqueid_updatedBy packet), length_updateWhere]
      exact length
    · exact length
  have two : ((acctUpdate packet now database).1.rowsOf packet.acctuniqueid).length = 2 := by
    rw [acctUpdate, closeOpenedSessions_of_tidy (.inl opened), continueSession,
      filter_isOpen_updateStopped stamped,
      show database.radacct.filter (Row.isOpen packet.acctuniqueid) = [] from opened]
    rw [rowsOf, radacct_insertLog, filter_append, length_append, kept]
    simp [Packet.openedRow]
  rcases telescopes.rowsOf_cases with none | ⟨other, alone⟩
  · rw [none] at two
    exact absurd two (by decide)
  · rw [alone] at two
    exact absurd two (by simp)

theorem acctStop_of_closed (closed : database.opened packet.acctuniqueid = []) :
    acctStop scan packet closing database = (database, none) := by
  rw [acctStop, openRow_eq_none closed]

section

variable (telescopes : Telescopes database packet.acctuniqueid)
  (counted : ∀ counter, (packet.counters counter).isSome = true)
  (later : ∀ row ∈ database.rowsOf packet.acctuniqueid, packet.Follows row)

include telescopes counted later

theorem telescopes_acctUpdate_iff :
    Telescopes (acctUpdate packet now database).1 packet.acctuniqueid ↔
      (Call.update packet now).Fits database := by
  rcases telescopes.rowsOf_cases with none | ⟨row, single⟩
  · refine iff_of_true (telescopes_acctUpdate_of_none telescopes none) ?_
    simp [Call.Fits, none]
  · have follows := later row (single ▸ mem_singleton_self row)
    cases unstopped : row.unstopped with
    | false =>
      refine iff_of_false (not_telescopes_acctUpdate single unstopped follows.stamped) ?_
      simp [Call.Fits, single, unstopped]
    | true =>
      have counting : Counting database packet row :=
        ⟨single, unstopped, (telescopes_single_iff single).mp telescopes, counted, follows⟩
      have kept := counting.rowsOf_updateWhere (acctuniqueid_continuedBy packet row.acctupdatetime)
      rw [counting.acctUpdate_eq]
      refine (counting.telescopes_iff kept rfl rfl).trans ?_
      simp [Call.Fits, single, unstopped]

theorem telescopes_acctStop_iff :
    Telescopes (acctStop scan packet closing database).1 packet.acctuniqueid ↔
      (Call.stop scan packet closing).Fits database := by
  rcases telescopes.rowsOf_cases with none | ⟨row, single⟩
  · rw [acctStop_of_closed (opened_of_rowsOf_nil none)]
    refine iff_of_true telescopes ?_
    simp [Call.Fits, none]
  · have follows := later row (single ▸ mem_singleton_self row)
    cases unstopped : row.unstopped with
    | false =>
      rw [acctStop_of_closed (opened_of_stopped single unstopped)]
      refine iff_of_true telescopes ?_
      simp [Call.Fits, single, unstopped]
    | true =>
      have counting : Counting database packet row :=
        ⟨single, unstopped, (telescopes_single_iff single).mp telescopes, counted, follows⟩
      have kept := counting.rowsOf_updateWhere (acctuniqueid_stoppedBy packet closing)
      rw [counting.acctStop_eq]
      refine (counting.telescopes_iff kept rfl rfl).trans ?_
      simp [Call.Fits, single, unstopped]

end

theorem telescopes_call_iff (telescopes : Telescopes database call.packet.acctuniqueid)
    (counted : ∀ counter, (call.packet.counters counter).isSome = true)
    (first : call.IsStart → database.rowsOf call.packet.acctuniqueid = [])
    (later : ∀ row ∈ database.rowsOf call.packet.acctuniqueid, call.packet.Follows row) :
    Telescopes (database.call call) call.packet.acctuniqueid ↔ call.Fits database := by
  cases call with
  | start => exact telescopes_acctStart_iff telescopes (first trivial) counted
  | update => exact telescopes_acctUpdate_iff telescopes counted later
  | stop => exact telescopes_acctStop_iff telescopes counted later

/-! ### Runs -/

def callsOf (id : Text) (calls : List Call) : List Call :=
  calls.filter fun call => call.packet.acctuniqueid = id

theorem exists_call_of_mem_rowsOf (unknown : database.rowsOf id = [])
    (present : row ∈ (database.run calls).rowsOf id) :
    ∃ earlier ∈ callsOf id calls, ∀ counter, row.counts.amount counter ≤
      min counter.rowLimit (earlier.packet.counts.amount counter) := by
  induction calls using List.reverseRecOn generalizing row with
  | nil => exact nomatch (unknown ▸ present : row ∈ [])
  | append_singleton calls call ih =>
    obtain ⟨there, owned⟩ := mem_filter.mp present
    have owned : row.acctuniqueid = id := of_decide_eq_true owned
    rw [run_concat] at there
    unfold callsOf at *
    rw [filter_append]
    rcases drawn_call (database.run calls) call row there with
      ⟨old, before, same, equal⟩ | ⟨own, bounded⟩
    · have member : old ∈ (database.run calls).rowsOf id :=
        mem_filter.mpr ⟨before, decide_eq_true (same.trans owned)⟩
      obtain ⟨earlier, called, bounded⟩ := ih member
      exact ⟨earlier, mem_append_left _ called, equal ▸ bounded⟩
    · refine ⟨call, mem_append_right _ ?_, bounded⟩
      simp [← own, owned]

theorem telescopes_concat_iff
    (unknown : database.rowsOf id = []) (session : Session (callsOf id (calls ++ [call])))
    (telescopes : Telescopes (database.run calls) id) :
    Telescopes (database.run (calls ++ [call])) id ↔
      (call.packet.acctuniqueid = id → call.Fits (database.run calls)) := by
  rw [run_concat]
  by_cases own : call.packet.acctuniqueid = id
  · have split : callsOf id (calls ++ [call]) = callsOf id calls ++ [call] := by
      simp [callsOf, own]
    rw [split] at session
    have precedes : ∀ earlier ∈ callsOf id calls, Precedes earlier call := fun earlier called =>
      (pairwise_append.mp session.ordered).2.2 earlier called call
        (mem_singleton_self call)
    subst own
    refine (telescopes_call_iff telescopes (session.counted call (by simp)) ?_ ?_).trans
      ⟨fun fits _ => fits, fun fits => fits rfl⟩
    · intro isStart
      refine eq_nil_iff_forall_not_mem.mpr fun row present => ?_
      obtain ⟨earlier, called, _⟩ := exists_call_of_mem_rowsOf unknown present
      exact (precedes earlier called).later_not_start isStart
    · intro row present
      obtain ⟨earlier, called, bounded⟩ := exists_call_of_mem_rowsOf unknown present
      obtain ⟨earlierTime, laterTime, _, given, less⟩ := (precedes earlier called).increasing
      refine ⟨⟨laterTime, given, Nat.ne_zero_of_lt less⟩, fun counter => ?_⟩
      have grown := (precedes earlier called).growing counter
      have stored := bounded counter
      omega
  · rw [telescopes_call_apart own]
    exact iff_of_true telescopes fun same => absurd same own

theorem Session.of_append {later : List Call}
    (session : Session (callsOf id (calls ++ later))) : Session (callsOf id calls) := by
  rw [callsOf, filter_append] at session
  exact ⟨fun call called => session.counted call (mem_append_left _ called),
    (pairwise_append.mp session.ordered).1⟩

/-- The log of a new session adds up to its row after every call, of it and of others in
between, exactly if every call for it adds what fits. -/
theorem log_telescopes_iff (id : Text) (database : Database) (unknown : database.rowsOf id = [])
    (unlogged : database.logOf id = []) (calls : List Call) (session : Session (callsOf id calls)) :
    (∀ before, before <+: calls → Telescopes (database.run before) id) ↔
      ∀ before call, before ++ [call] <+: calls → call.packet.acctuniqueid = id →
        call.Fits (database.run before) := by
  have closed : ∀ before, before <+: calls → Session (callsOf id before) := by
    rintro before ⟨rest, rfl⟩
    exact session.of_append
  constructor
  · intro telescopes before call shorter
    exact (telescopes_concat_iff unknown (closed _ shorter)
      (telescopes before ((prefix_append before [call]).trans shorter))).mp
      (telescopes _ shorter)
  · intro fits before
    induction before using List.reverseRecOn with
    | nil =>
      intro _
      refine (telescopes_nil_iff unknown).mpr fun counter => ?_
      simp [logged, unlogged]
    | append_singleton before call ih =>
      intro shorter
      have telescopes := ih ((prefix_append before [call]).trans shorter)
      exact (telescopes_concat_iff unknown (closed _ shorter) telescopes).mpr
        (fits before call shorter)

def countingPacket (timestamp : DateTime) (value : Nat) : Packet :=
  { idlePacket timestamp with counters := fun counter => some (BitVec.ofNat counter.width value) }

def shortSession : List Call :=
  [.start Scan.inOrder (countingPacket 10 0) ⟨[], none⟩ none none,
    .stop Scan.inOrder (countingPacket 20 10) ⟨"User-Request".toList, none⟩]

def longSession : List Call :=
  [.start Scan.inOrder (countingPacket 10 0) ⟨[], none⟩ none none,
    .update (countingPacket 2147483658 (2 ^ 31)) 2147483658]

theorem session_pair {first second : Call} (precedes : Precedes first second)
    (counted : ∀ counter, (first.packet.counters counter).isSome = true ∧
      (second.packet.counters counter).isSome = true) : Session [first, second] :=
  ⟨by simpa [forall_and] using counted, pairwise_pair.mpr precedes⟩

theorem session_shortSession : Session (callsOf "7a3f".toList shortSession) := by
  refine session_pair ⟨nofun, nofun, ⟨10, 20, rfl, rfl, by decide⟩, fun counter => ?_⟩
    fun _ => ⟨rfl, rfl⟩
  cases counter <;> decide

theorem session_longSession : Session (callsOf "7a3f".toList longSession) := by
  refine session_pair ⟨nofun, nofun, ⟨10, 2147483658, rfl, rfl, by decide⟩, fun counter => ?_⟩
    fun _ => ⟨rfl, rfl⟩
  cases counter <;> decide

theorem fits_countingPacket {value : Nat} (small : value ≤ 2 ^ 31 - 1)
    (timestamp : DateTime) (counter : Counter) :
    counter.Fits previous ((countingPacket timestamp value).counts.amount counter) := by
  have amount : (countingPacket timestamp value).counts.amount counter ≤ value :=
    mod_le value (2 ^ counter.width)
  cases counter <;> simp only [Counter.Fits] <;> omega

theorem short_session_telescopes :
    Session (callsOf "7a3f".toList shortSession) ∧
      Telescopes (run ⟨[], []⟩ shortSession) "7a3f".toList := by
  refine ⟨session_shortSession, (log_telescopes_iff "7a3f".toList ⟨[], []⟩ rfl rfl shortSession
    session_shortSession).mpr (fun before call shorter _ => ?_) shortSession prefix_rfl⟩
  have called : call ∈ shortSession := shorter.subset (by simp)
  simp only [shortSession, mem_cons, not_mem_nil, or_false] at called
  rcases called with rfl | rfl
  · exact fits_countingPacket (zero_le _) 10
  · have small : 10 ≤ 2 ^ 31 - 1 := by decide
    exact fun row _ _ counter => fits_countingPacket small 20 counter

/-- The session time is one second short in the log. -/
theorem long_session_not_logged :
    Session (callsOf "7a3f".toList longSession) ∧
      ¬Telescopes (run ⟨[], []⟩ longSession) "7a3f".toList := by
  refine ⟨session_longSession, fun telescopes => ?_⟩
  have rows : ((run ⟨[], []⟩ longSession).rowsOf "7a3f".toList).map
      (fun row => row.counts .sessionTime) = [some (2 ^ 31)] := by decide
  have logged : (run ⟨[], []⟩ longSession).logged "7a3f".toList .sessionTime =
      2 ^ 31 - 1 := by decide
  obtain ⟨row, single, stored⟩ := map_eq_singleton_iff.mp rows
  have summed := (telescopes_single_iff single).mp telescopes .sessionTime
  rw [stored, logged] at summed
  exact absurd summed (by decide)

end PacketFence.Radacct
