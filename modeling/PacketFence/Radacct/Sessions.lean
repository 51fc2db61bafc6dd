import PacketFence.Radacct.Procedures

/-!
# Open sessions

Of the rows of a session at most one is open, whatever the order of its packets.
An update that comes in the second of the stop does not find an open row: it counts
the traffic in the closed one, and then opens another.
-/

namespace PacketFence.Radacct

open Foundations Lexing List Database Row

variable (database : Database)

def Database.rowsOf (id : Text) : List Row :=
  database.radacct.filter fun row => row.acctuniqueid = id

def Database.opened (id : Text) : List Row :=
  database.radacct.filter (isOpen id)

def Database.logOf (id : Text) : List LogEntry :=
  database.radacctLog.filter fun entry => entry.acctuniqueid = id

def Stamped (timestamp : Option DateTime) : Prop :=
  ∃ time : DateTime, timestamp = some time ∧ time ≠ 0

/-- No parameter is `NULL` or zero that is not to be. -/
structure Packet.Complete (packet : Packet) : Prop where
  stamped : Stamped packet.timestamp
  counted : ∀ counter, (packet.counters counter).isSome = true

/-- A start does not carry a stop time. -/
def Call.Complete (call : Call) : Prop :=
  call.packet.Complete ∧ match call with
    | .start _ _ _ _ acctstoptime => acctstoptime = none ∨ acctstoptime = some 0
    | _ => True

def Call.IsStop : Call → Prop
  | .stop _ _ _ => True
  | _ => False

/-- An update has the stop time of a closed row of its session. -/
def Late : Call → Prop
  | .update packet _ =>
    ∃ row ∈ database.radacct, row.stoppedAt packet.acctuniqueid packet.timestamp = true
  | _ => False

structure Recorded (call : Call) (before after : Database) : Prop where
  single : (after.opened call.packet.acctuniqueid).length ≤ 1
  stopped : call.IsStop → after.opened call.packet.acctuniqueid = []
  late : Late before call → ∀ row ∈ before.radacct,
    row.stoppedAt call.packet.acctuniqueid call.packet.timestamp = true →
      row.updatedBy call.packet ∈ after.radacct ∧ after.opened call.packet.acctuniqueid = []

variable {database : Database} {packet : Packet} {id : Text} {row : Row} {scan : Scan Row}
  {timestamp : Option DateTime}

/-! ### What the statements leave -/

@[simp]
theorem radacct_insertLog {counts : Counts} :
    (database.insertLog packet counts).radacct = database.radacct := rfl

@[simp]
theorem radacct_insertDifferences {previous : Counts} :
    (database.insertDifferences packet previous).1.radacct = database.radacct := by
  unfold insertDifferences
  split <;> rfl

@[simp] theorem acctuniqueid_closedAt (timestamp : Option DateTime) (row : Row) :
    (row.closedAt timestamp).acctuniqueid = row.acctuniqueid := rfl

@[simp] theorem acctuniqueid_updatedBy (packet : Packet) (row : Row) :
    (row.updatedBy packet).acctuniqueid = row.acctuniqueid := rfl

@[simp] theorem acctuniqueid_continuedBy (packet : Packet) (time : Option DateTime) (row : Row) :
    (row.continuedBy packet time).acctuniqueid = row.acctuniqueid := rfl

@[simp] theorem acctuniqueid_stoppedBy (packet : Packet) (closing : Closing) (row : Row) :
    (row.stoppedBy packet closing).acctuniqueid = row.acctuniqueid := rfl

@[simp] theorem isOpen_updatedBy (id : Text) (packet : Packet) (row : Row) :
    (row.updatedBy packet).isOpen id = row.isOpen id := rfl

@[simp]
theorem isOpen_continuedBy (id : Text) (packet : Packet) (time : Option DateTime) (row : Row) :
    (row.continuedBy packet time).isOpen id = row.isOpen id := rfl

theorem isOpen_of_stamped (stamped : Stamped timestamp)
    (same : row.acctstoptime = timestamp) : row.isOpen id = false := by
  obtain ⟨time, rfl, nonzero⟩ := stamped
  simp [isOpen, unstopped, same, nonzero]

theorem stoppedAt_of_isOpen (stamped : Stamped timestamp) (isOpen : row.isOpen id = true) :
    row.stoppedAt id timestamp = false := by
  by_contra stopped
  rw [Bool.not_eq_false, stoppedAt] at stopped
  simp only [Bool.and_eq_true, decide_eq_true_eq] at stopped
  rw [isOpen_of_stamped stamped stopped.2.2] at isOpen
  exact Bool.false_ne_true isOpen

theorem openRow_eq_none (closed : database.opened id = []) : database.openRow scan id = none := by
  refine find?_eq_none.mpr fun row scanned isOpen => ?_
  exact filter_eq_nil_iff.mp closed row ((scan.perm _).mem_iff.mp scanned) isOpen

theorem openRow_eq_some (single : database.opened id = [row]) :
    database.openRow scan id = some row := by
  cases found : database.openRow scan id with
  | none =>
    have member : row ∈ database.opened id := single ▸ mem_singleton_self row
    obtain ⟨present, isOpen⟩ := mem_filter.mp member
    exact absurd isOpen (find?_eq_none.mp found row ((scan.perm _).mem_iff.mpr present))
  | some other =>
    have member : other ∈ database.opened id :=
      mem_filter.mpr ⟨(scan.perm _).mem_iff.mp (mem_of_find?_eq_some found), find?_some found⟩
    rw [single] at member
    rw [mem_singleton.mp member]

/-! ### The open rows after a call -/

def Tidy (database : Database) (id : Text) : Prop :=
  database.opened id = [] ∨
    ∃ row, database.opened id = [row] ∧ (row.counts .sessionTime).isSome = true

theorem Tidy.length_le_one (tidy : Tidy database id) : (database.opened id).length ≤ 1 := by
  rcases tidy with closed | ⟨row, single, _⟩
  · rw [closed]
    exact Nat.zero_le 1
  · rw [single]
    exact Nat.le_refl 1

theorem isSome_stored (complete : packet.Complete) (counter : Counter) :
    (packet.counts.stored Counter.rowLimit counter).isSome = true := by
  rw [Counts.stored, Option.isSome_map, Packet.counts, Option.isSome_map]
  exact complete.counted counter

variable {change : Row → Row} {radacct : List Row} {closing : Closing} {now : DateTime}

theorem filter_isOpen_updateWhere
    (stamped : Stamped timestamp) (sets : ∀ row, (change row).acctstoptime = timestamp) :
    (updateWhere (isOpen id) change radacct).filter (isOpen id) = [] :=
  filter_updateWhere_eq_nil (fun _ isOpen => isOpen)
    fun row => isOpen_of_stamped stamped (sets row)

variable {acctupdatetime acctstoptime : Option DateTime} {wanted : Row → Bool} {calls : List Call}

section

variable (tidy : Tidy database packet.acctuniqueid)

include tidy

theorem opened_acctStart (complete : packet.Complete)
    (unstopped : acctstoptime = none ∨ acctstoptime = some 0) :
    (acctStart scan packet closing acctupdatetime acctstoptime database).opened
      packet.acctuniqueid = [packet.startedRow closing acctupdatetime acctstoptime] := by
  have isOpen : (packet.startedRow closing acctupdatetime acctstoptime).isOpen
      packet.acctuniqueid = true := by
    rcases unstopped with rfl | rfl <;> simp [isOpen, unstopped, Packet.startedRow]
  unfold acctStart opened
  rw [radacct_insertLog, filter_append, filter_singleton, isOpen]
  rcases tidy with closed | ⟨row, single, timed⟩
  · rw [openRow_eq_none closed]
    exact congrArg (· ++ _) closed
  · rw [openRow_eq_some single, Option.bind_some, if_pos timed,
      filter_isOpen_updateWhere complete.stamped fun _ => rfl]
    rfl

theorem opened_acctStop (complete : packet.Complete) :
    (acctStop scan packet closing database).1.opened packet.acctuniqueid = [] := by
  unfold acctStop
  rcases tidy with closed | ⟨row, single, timed⟩
  · rw [openRow_eq_none closed]
    exact closed
  · rw [openRow_eq_some single]
    dsimp only
    rw [if_pos timed, opened, radacct_insertDifferences]
    exact filter_isOpen_updateWhere complete.stamped fun _ => rfl

theorem closeOpenedSessions_of_tidy :
    closeOpenedSessions packet now database.radacct = database.radacct := by
  rw [closeOpenedSessions, countP_eq_length_filter]
  exact if_neg (Nat.not_lt.mpr tidy.length_le_one)

end

theorem filter_isOpen_updateStopped (stamped : Stamped packet.timestamp) :
    (updateStopped packet radacct).filter (isOpen packet.acctuniqueid) =
      radacct.filter (isOpen packet.acctuniqueid) := by
  unfold updateStopped
  split
  · rw [filter_updateWhere (isOpen_updatedBy _ packet), updateWhere_of_unwanted]
    intro row member
    exact stoppedAt_of_isOpen stamped (mem_filter.mp member).2
  · rfl

theorem opened_acctUpdate (tidy : Tidy database packet.acctuniqueid) (complete : packet.Complete) :
    ∃ row, (acctUpdate packet now database).1.opened packet.acctuniqueid = [row] ∧
      (row.counts .sessionTime).isSome = true := by
  have before : (updateStopped packet (closeOpenedSessions packet now database.radacct)).filter
      (isOpen packet.acctuniqueid) = database.opened packet.acctuniqueid := by
    rw [filter_isOpen_updateStopped complete.stamped, closeOpenedSessions_of_tidy tidy]
    rfl
  unfold acctUpdate continueSession
  rcases tidy with closed | ⟨row, single, _⟩
  · rw [before, closed]
    rw [opened, radacct_insertLog, filter_append, before, closed]
    simp [isOpen, unstopped, Packet.openedRow]
  · have isOpen : row.isOpen packet.acctuniqueid = true :=
      (mem_filter.mp (single ▸ mem_singleton_self row :
        row ∈ database.opened packet.acctuniqueid)).2
    rw [before, single]
    refine ⟨row.continuedBy packet row.acctupdatetime, ?_, isSome_stored complete _⟩
    rw [opened, radacct_insertDifferences,
      filter_updateWhere (isOpen_continuedBy _ packet _), before, single,
      updateWhere_singleton isOpen]

/-! ### Calls for other sessions -/

theorem filter_updateWhere_owned (keeps : ∀ row, (change row).acctuniqueid = row.acctuniqueid) :
    ((updateWhere wanted change radacct).filter fun row => row.acctuniqueid = id) =
      updateWhere wanted change (radacct.filter fun row => row.acctuniqueid = id) :=
  have same : ∀ row, decide ((change row).acctuniqueid = id) = decide (row.acctuniqueid = id) :=
    fun row => by rw [keeps row]
  filter_updateWhere same

theorem filter_updateWhere_apart {other : Text} (apart : other ≠ id)
    (aimed : ∀ row, wanted row = true → row.acctuniqueid = other)
    (keeps : ∀ row, (change row).acctuniqueid = row.acctuniqueid) :
    ((updateWhere wanted change radacct).filter fun row => row.acctuniqueid = id) =
      radacct.filter fun row => row.acctuniqueid = id := by
  rw [filter_updateWhere_owned keeps, updateWhere_of_unwanted]
  intro row member
  have owned : row.acctuniqueid = id := of_decide_eq_true (mem_filter.mp member).2
  rw [Bool.eq_false_iff]
  exact fun isWanted => apart ((aimed row isWanted).symm.trans owned)

theorem acctuniqueid_of_isOpen (row : Row) (isOpen : row.isOpen id = true) :
    row.acctuniqueid = id := of_decide_eq_true (Bool.and_eq_true_iff.mp isOpen).1

theorem acctuniqueid_of_stoppedAt (row : Row) (stopped : row.stoppedAt id timestamp = true) :
    row.acctuniqueid = id := of_decide_eq_true (Bool.and_eq_true_iff.mp stopped).1

theorem rowsOf_acctStart_apart (apart : packet.acctuniqueid ≠ id) :
    (acctStart scan packet closing acctupdatetime acctstoptime database).rowsOf id =
      database.rowsOf id := by
  unfold acctStart rowsOf
  rw [radacct_insertLog, filter_append]
  have inserted : ([packet.startedRow closing acctupdatetime acctstoptime].filter
      fun row => row.acctuniqueid = id) = [] := by simp [Packet.startedRow, apart]
  rw [inserted, append_nil]
  split
  · exact filter_updateWhere_apart apart acctuniqueid_of_isOpen (acctuniqueid_closedAt _)
  · rfl

theorem rowsOf_acctStop_apart (apart : packet.acctuniqueid ≠ id) :
    (acctStop scan packet closing database).1.rowsOf id = database.rowsOf id := by
  unfold acctStop
  split
  · rfl
  · split
    · rw [rowsOf, radacct_insertDifferences]
      exact filter_updateWhere_apart apart acctuniqueid_of_isOpen
        (acctuniqueid_stoppedBy packet closing)
    · rfl

theorem rowsOf_acctUpdate_apart (apart : packet.acctuniqueid ≠ id) :
    (acctUpdate packet now database).1.rowsOf id = database.rowsOf id := by
  have closed : ((closeOpenedSessions packet now database.radacct).filter
      fun row => row.acctuniqueid = id) = database.rowsOf id := by
    unfold closeOpenedSessions
    split
    · exact filter_updateWhere_apart apart acctuniqueid_of_isOpen (acctuniqueid_closedAt _)
    · rfl
  have stopped : ((updateStopped packet (closeOpenedSessions packet now database.radacct)).filter
      fun row => row.acctuniqueid = id) = database.rowsOf id := by
    rw [← closed]
    unfold updateStopped
    split
    · exact filter_updateWhere_apart apart acctuniqueid_of_stoppedAt (acctuniqueid_updatedBy packet)
    · rfl
  unfold acctUpdate continueSession
  rw [← stopped]
  split
  · rw [rowsOf, radacct_insertDifferences]
    exact filter_updateWhere_apart apart acctuniqueid_of_isOpen (acctuniqueid_continuedBy packet _)
  · rw [rowsOf, radacct_insertLog, filter_append]
    simp [Packet.openedRow, apart]

theorem rowsOf_call_apart {call : Call} (apart : call.packet.acctuniqueid ≠ id) :
    (database.call call).rowsOf id = database.rowsOf id := by
  cases call with
  | start => exact rowsOf_acctStart_apart apart
  | update => exact rowsOf_acctUpdate_apart apart
  | stop => exact rowsOf_acctStop_apart apart

theorem opened_eq_filter_rowsOf :
    database.opened id = (database.rowsOf id).filter unstopped := by
  rw [opened, rowsOf, filter_filter]
  exact filter_congr fun row _ => Bool.and_comm _ _

/-! ### Runs -/

theorem run_concat {call : Call} :
    database.run (calls ++ [call]) = (database.run calls).call call := foldl_append

theorem Tidy.call {call : Call} (tidy : Tidy database id)
    (complete : call.packet.acctuniqueid = id → call.Complete) : Tidy (database.call call) id := by
  by_cases own : call.packet.acctuniqueid = id
  · subst own
    cases call with
    | start scan packet closing acctupdatetime acctstoptime =>
      refine .inr ⟨_, opened_acctStart tidy (complete rfl).1 (complete rfl).2, ?_⟩
      exact isSome_stored (complete rfl).1 _
    | update packet now => exact .inr (opened_acctUpdate tidy (complete rfl).1)
    | stop scan packet closing => exact .inl (opened_acctStop tidy (complete rfl).1)
  · unfold Tidy
    rw [opened_eq_filter_rowsOf, rowsOf_call_apart own, ← opened_eq_filter_rowsOf]
    exact tidy

theorem Tidy.run (tidy : Tidy database id)
    (complete : ∀ call ∈ calls, call.packet.acctuniqueid = id → call.Complete) :
    Tidy (database.run calls) id := by
  induction calls using List.reverseRecOn with
  | nil => exact tidy
  | append_singleton calls call ih =>
    rw [run_concat]
    refine (ih fun earlier present => ?_).call (complete call (by simp))
    exact complete earlier (mem_append_left _ present)

theorem tidy_of_unknown (unknown : ∀ row ∈ database.radacct, row.acctuniqueid ≠ id) :
    Tidy database id := by
  refine .inl (filter_eq_nil_iff.mpr fun row present isOpen => ?_)
  exact unknown row present (acctuniqueid_of_isOpen row isOpen)

theorem not_recorded_of_late {call : Call} (tidy : Tidy database call.packet.acctuniqueid)
    (complete : call.Complete) (late : Late database call) :
    ¬Recorded call database (database.call call) := by
  intro recorded
  cases call with
  | start | stop => exact late
  | update packet now =>
    have found : ∃ row ∈ database.radacct, _ := late
    obtain ⟨row, present, stopped⟩ := found
    obtain ⟨left, single, _⟩ := opened_acctUpdate tidy complete.1
    have closed := (recorded.late late row present stopped).2
    exact cons_ne_nil left [] (single.symm.trans closed)

/-- After any packets of a session, and of others, the next one leaves at most one open
row, a stop leaves none, and an update at the time of a stop goes to the closed row
alone: exactly if it is not such an update. -/
theorem sessions_recorded_iff (id : Text) (database : Database)
    (unknown : ∀ row ∈ database.radacct, row.acctuniqueid ≠ id) (calls : List Call)
    (complete : ∀ call ∈ calls, call.packet.acctuniqueid = id → call.Complete) (call : Call)
    (own : call.packet.acctuniqueid = id) (also : call.Complete) :
    Recorded call (database.run calls) ((database.run calls).call call) ↔
      ¬Late (database.run calls) call := by
  subst own
  have tidy := (tidy_of_unknown unknown).run complete
  refine ⟨fun recorded late => not_recorded_of_late tidy also late recorded, fun timely => ?_⟩
  refine ⟨(tidy.call fun _ => also).length_le_one, ?_, fun late => absurd late timely⟩
  intro isStop
  cases call with
  | start | update => exact isStop.elim
  | stop scan packet closing => exact opened_acctStop tidy also.1

def idlePacket (timestamp : DateTime) : Packet where
  acctuniqueid := "7a3f".toList
  timestamp := some timestamp
  counters := fun _ => some 0
  callingstationid := "00:11:22:33:44:55".toList
  framedipaddress := "10.0.0.5".toList

theorem complete_idlePacket {timestamp : DateTime} (nonzero : timestamp ≠ 0) :
    (idlePacket timestamp).Complete := ⟨⟨timestamp, rfl, nonzero⟩, fun _ => rfl⟩

def idleSession : List Call :=
  [.start Scan.inOrder (idlePacket 10) ⟨[], none⟩ none none,
    .stop Scan.inOrder (idlePacket 20) ⟨"User-Request".toList, none⟩]

theorem complete_idleSession {call : Call} (present : call ∈ idleSession) : call.Complete := by
  simp only [idleSession, mem_cons, not_mem_nil, or_false] at present
  rcases present with rfl | rfl
  · exact ⟨complete_idlePacket (by decide), .inl rfl⟩
  · exact ⟨complete_idlePacket (by decide), trivial⟩

/-- An update after the stop opens the session again, as one row. -/
theorem later_update_recorded :
    Recorded (.update (idlePacket 30) 30) (run ⟨[], []⟩ idleSession)
      ((run ⟨[], []⟩ idleSession).call (.update (idlePacket 30) 30)) := by
  refine (sessions_recorded_iff "7a3f".toList ⟨[], []⟩ (fun _ present => nomatch present)
    idleSession (fun _ present _ => complete_idleSession present) (.update (idlePacket 30) 30) rfl
    ⟨complete_idlePacket (by decide), trivial⟩).mpr ?_
  rintro ⟨row, present, stopped⟩
  have unstopped : (run ⟨[], []⟩ idleSession).radacct.all
      (fun row => !row.stoppedAt "7a3f".toList (some 30)) = true := by decide
  have refused := all_eq_true.mp unstopped row present
  rw [show row.stoppedAt "7a3f".toList (some 30) = true from stopped] at refused
  exact Bool.false_ne_true refused

/-- An update in the second of the stop opens the session again. -/
theorem late_update_not_recorded :
    (∀ call ∈ idleSession, call.Complete) ∧ (Call.update (idlePacket 20) 20).Complete ∧
      ¬Recorded (.update (idlePacket 20) 20) (run ⟨[], []⟩ idleSession)
        ((run ⟨[], []⟩ idleSession).call (.update (idlePacket 20) 20)) := by
  refine ⟨fun _ present => complete_idleSession present,
    ⟨complete_idlePacket (by decide), trivial⟩, fun recorded => ?_⟩
  have stopped : (run ⟨[], []⟩ idleSession).radacct.any
      (stoppedAt "7a3f".toList (some 20)) = true := by decide
  obtain ⟨row, present, matched⟩ := any_eq_true.mp stopped
  have closed := (recorded.late ⟨row, present, matched⟩ row present matched).2
  have reopened : (((run ⟨[], []⟩ idleSession).call
      (.update (idlePacket 20) 20)).opened "7a3f".toList).length = 1 := by decide
  rw [show opened _ "7a3f".toList = [] from closed] at reopened
  exact absurd reopened (by decide)

end PacketFence.Radacct
