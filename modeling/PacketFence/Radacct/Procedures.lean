import PacketFence.Foundations.KeyedTable
import PacketFence.Foundations.Lexing

/-!
# The accounting procedures

FreeRADIUS calls a procedure for every accounting packet: `acct_start`,
`acct_update` and `acct_stop`. They keep one row per session in `radacct`, which
is open as long as it has no stop time, and write what a session has counted since
its last packet to `radacct_log`.

The parameters have the widths of their columns, but not their signs. The server
does not run in a strict mode, so that a value that is too large for its column is
stored as the largest one. A difference of unsigned values that is negative is an
error, which ends the procedure and leaves what it has done before.

The attributes that are only copied into a row are left out.
-/

namespace PacketFence.Radacct

open Foundations Lexing

/-- A `datetime`, in seconds; `0000-00-00` is 0. -/
abbrev DateTime := Nat

inductive Counter
  | inputOctets
  | outputOctets
  | sessionTime

namespace Counter

/-- The parameters are `bigint(20) unsigned` and `int(12) unsigned`. -/
def width : Counter → Nat
  | .inputOctets => 64
  | .outputOctets => 64
  | .sessionTime => 32

/-- The largest value of the column of `radacct`: `bigint(20)`, `int(12) unsigned`. -/
def rowLimit : Counter → Nat
  | .inputOctets => 2 ^ 63 - 1
  | .outputOctets => 2 ^ 63 - 1
  | .sessionTime => 2 ^ 32 - 1

/-- The largest value of the column of `radacct_log`: `bigint(20)`, `int(12)`. -/
def logLimit : Counter → Nat
  | .inputOctets => 2 ^ 63 - 1
  | .outputOctets => 2 ^ 63 - 1
  | .sessionTime => 2 ^ 31 - 1

end Counter

/-- The values of the counters, any of which may be `NULL`. -/
abbrev Counts := Counter → Option Nat

structure Row where
  acctuniqueid : Text
  acctstarttime : Option DateTime
  acctupdatetime : Option DateTime
  acctstoptime : Option DateTime
  acctinterval : Option Int
  counts : Counts
  callingstationid : Text
  framedipaddress : Text
  acctterminatecause : Text
  connectinfoStop : Option Text

structure LogEntry where
  acctuniqueid : Text
  timestamp : Option DateTime
  counts : Counts

structure Database where
  radacct : List Row
  radacctLog : List LogEntry

/-- The parameters that all procedures have. -/
structure Packet where
  acctuniqueid : Text
  timestamp : Option DateTime
  counters : (counter : Counter) → Option (BitVec counter.width)
  callingstationid : Text
  framedipaddress : Text

/-- The parameters that only a start or a stop has. -/
structure Closing where
  acctterminatecause : Text
  connectinfoStop : Option Text

inductive SqlError
  | outOfRange

/-! ### Values -/

def Packet.counts (packet : Packet) : Counts := fun counter =>
  (packet.counters counter).map BitVec.toNat

def Counts.stored (counts : Counts) (limit : Counter → Nat) : Counts := fun counter =>
  (counts counter).map (min (limit counter))

/-- One subtraction; with `NULL` the result is `NULL`. -/
def minus : Option Nat → Option Nat → Except SqlError (Option Nat)
  | some new, some old => if old ≤ new then .ok (some (new - old)) else .error .outOfRange
  | _, _ => .ok none

def Counts.minus (new previous : Counts) : Except SqlError Counts := do
  let input ← Radacct.minus (new .inputOctets) (previous .inputOctets)
  let output ← Radacct.minus (new .outputOctets) (previous .outputOctets)
  let time ← Radacct.minus (new .sessionTime) (previous .sessionTime)
  return fun
    | .inputOctets => input
    | .outputOctets => output
    | .sessionTime => time

/-- `timestampdiff(second, …, …)` -/
def timestampdiff : Option DateTime → Option DateTime → Option Int
  | some earlier, some later =>
    if earlier = 0 ∨ later = 0 then none else some ((later : Int) - (earlier : Int))
  | _, _ => none

/-! ### Statements -/

def Row.unstopped (row : Row) : Bool :=
  row.acctstoptime = none || row.acctstoptime = some 0

/-- `acctuniqueid = … AND (acctstoptime IS NULL OR acctstoptime = 0)` -/
def Row.isOpen (id : Text) (row : Row) : Bool :=
  row.acctuniqueid = id && row.unstopped

/-- `acctuniqueid = … AND (acctstoptime = …)`, which no `NULL` meets. -/
def Row.stoppedAt (id : Text) (timestamp : Option DateTime) (row : Row) : Bool :=
  row.acctuniqueid = id && (timestamp.isSome && row.acctstoptime = timestamp)

def Row.closedAt (timestamp : Option DateTime) (row : Row) : Row :=
  { row with acctstoptime := timestamp, acctterminatecause := "UNKNOWN".toList }

def Row.counting (packet : Packet) (row : Row) : Row :=
  { row with counts := packet.counts.stored Counter.rowLimit }

def Row.updatedBy (packet : Packet) (row : Row) : Row :=
  { row.counting packet with
    framedipaddress := packet.framedipaddress
    acctupdatetime := packet.timestamp }

variable (database : Database)

def Database.insertLog (packet : Packet) (counts : Counts) : Database :=
  { database with
    radacctLog := database.radacctLog ++
      [{ acctuniqueid := packet.acctuniqueid
         timestamp := packet.timestamp
         counts := counts.stored Counter.logLimit }] }

def Database.insertDifferences (packet : Packet) (previous : Counts) : Database × Option SqlError :=
  match packet.counts.minus previous with
  | .ok differences => (database.insertLog packet differences, none)
  | .error error => (database, some error)

/-- `SELECT … LIMIT 1` of the open rows; which one comes first is up to the scan. -/
def Database.openRow (scan : Scan Row) (id : Text) : Option Row :=
  (scan.order database.radacct).find? (Row.isOpen id)

/-! ### The procedures -/

def Packet.startedRow (packet : Packet) (closing : Closing)
    (acctupdatetime acctstoptime : Option DateTime) : Row where
  acctuniqueid := packet.acctuniqueid
  acctstarttime := packet.timestamp
  acctupdatetime := acctupdatetime
  acctstoptime := acctstoptime
  acctinterval := none
  counts := packet.counts.stored Counter.rowLimit
  callingstationid := packet.callingstationid
  framedipaddress := packet.framedipaddress
  acctterminatecause := closing.acctterminatecause
  connectinfoStop := closing.connectinfoStop

def acctStart (scan : Scan Row) (packet : Packet) (closing : Closing)
    (acctupdatetime acctstoptime : Option DateTime) (database : Database) : Database :=
  let previousSessionTime :=
    (database.openRow scan packet.acctuniqueid).bind fun row => row.counts .sessionTime
  -- We make sure there are no left over sessions for which we never received a "stop"
  let radacct :=
    if previousSessionTime.isSome then
      updateWhere (Row.isOpen packet.acctuniqueid) (Row.closedAt packet.timestamp)
        database.radacct
    else
      database.radacct
  Database.insertLog
    { database with
      radacct := radacct ++ [packet.startedRow closing acctupdatetime acctstoptime] }
    packet packet.counts

def Row.stoppedBy (packet : Packet) (closing : Closing) (row : Row) : Row :=
  { row.counting packet with
    acctstoptime := packet.timestamp
    acctterminatecause := closing.acctterminatecause
    connectinfoStop := closing.connectinfoStop }

def acctStop (scan : Scan Row) (packet : Packet) (closing : Closing) (database : Database) :
    Database × Option SqlError :=
  match database.openRow scan packet.acctuniqueid with
  | none => (database, none)
  | some previous =>
    if (previous.counts .sessionTime).isSome then
      -- Update record with new traffic, then create new record in the log table
      Database.insertDifferences
        { database with
          radacct := updateWhere (Row.isOpen packet.acctuniqueid)
            (Row.stoppedBy packet closing) database.radacct }
        packet previous.counts
    else
      (database, none)

def closeOpenedSessions (packet : Packet) (now : DateTime) (radacct : List Row) : List Row :=
  if 1 < radacct.countP (Row.isOpen packet.acctuniqueid) then
    updateWhere (Row.isOpen packet.acctuniqueid) (Row.closedAt (some now)) radacct
  else
    radacct

/-- A stop was received in the same second before the interim update. -/
def updateStopped (packet : Packet) (radacct : List Row) : List Row :=
  if radacct.countP (Row.stoppedAt packet.acctuniqueid packet.timestamp) = 1 then
    updateWhere (Row.stoppedAt packet.acctuniqueid packet.timestamp) (Row.updatedBy packet) radacct
  else
    radacct

def Row.continuedBy (packet : Packet) (previousUpdateTime : Option DateTime) (row : Row) : Row :=
  { row.updatedBy packet with
    acctinterval := timestampdiff previousUpdateTime packet.timestamp }

/-- The row an update inserts when no session is open. -/
def Packet.openedRow (packet : Packet) : Row where
  acctuniqueid := packet.acctuniqueid
  acctstarttime := packet.timestamp
  acctupdatetime := packet.timestamp
  acctstoptime := none
  acctinterval := none
  counts := fun _ => some 0
  callingstationid := packet.callingstationid
  framedipaddress := packet.framedipaddress
  acctterminatecause := []
  connectinfoStop := none

/-- The end of `acct_update`, which goes on with the one open session or opens one. -/
def continueSession (packet : Packet) (database : Database) : Database × Option SqlError :=
  match database.radacct.filter (Row.isOpen packet.acctuniqueid) with
  | [previous] =>
    Database.insertDifferences
      { database with
        radacct := updateWhere (Row.isOpen packet.acctuniqueid)
          (Row.continuedBy packet previous.acctupdatetime) database.radacct }
      packet previous.counts
  | _ =>
    (Database.insertLog { database with radacct := database.radacct ++ [packet.openedRow] }
      packet fun _ => some 0, none)

def acctUpdate (packet : Packet) (now : DateTime) (database : Database) :
    Database × Option SqlError :=
  continueSession packet
    { database with
      radacct := updateStopped packet (closeOpenedSessions packet now database.radacct) }

/-! ### Runs -/

/-- A call of a procedure, with what the server finds first and its clock. -/
inductive Call
  | start (scan : Scan Row) (packet : Packet) (closing : Closing)
      (acctupdatetime acctstoptime : Option DateTime)
  | update (packet : Packet) (now : DateTime)
  | stop (scan : Scan Row) (packet : Packet) (closing : Closing)

def Call.packet : Call → Packet
  | .start _ packet _ _ _ => packet
  | .update packet _ => packet
  | .stop _ packet _ => packet

def Database.call : Call → Database
  | .start scan packet closing acctupdatetime acctstoptime =>
    acctStart scan packet closing acctupdatetime acctstoptime database
  | .update packet now => (acctUpdate packet now database).1
  | .stop scan packet closing => (acctStop scan packet closing database).1

def Database.run (calls : List Call) : Database :=
  calls.foldl Database.call database

end PacketFence.Radacct
