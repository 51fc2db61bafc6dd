import PacketFence.Foundations.Journal
import PacketFence.Foundations.Lexing

/-!
# The log of IP addresses

`ip4log` has one row for each address: the device that has it, since when, and until
when. Opening an entry writes the row of the address, closing it ends it now. A
trigger copies the row to `ip4log_history` before each change, and ends the copy now
unless the row has ended already.
-/

namespace PacketFence.Ip4log

open Foundations Lexing

/-! ### Addresses -/

/-- `$` is also in front of a last line feed. -/
def chomp (text : Text) : Text :=
  if text.getLast? = some '\n' then text.dropLast else text

/-- `^(?:\d{1,3}\.){3}\d{1,3}$` -/
def isDotted (text : Text) : Bool :=
  let parts := (chomp text).splitOn '.'
  parts.length == 4 && parts.all fun part =>
    part.all Char.isDigit && decide (1 ≤ part.length ∧ part.length ≤ 3)

def validIp (ip : Text) : Bool :=
  isDotted ip && chomp ip != "0.0.0.0".toList

def isHexDigit (char : Char) : Bool :=
  char.isDigit || decide ('a' ≤ char ∧ char ≤ 'f')

/-- `s/([a-f0-9]{2})(?!$)/$1:/g` -/
def injectColons : Text → Text
  | first :: second :: rest =>
    if isHexDigit first && isHexDigit second && !rest.isEmpty then
      first :: second :: ':' :: injectColons rest
    else
      first :: injectColons (second :: rest)
  | text => text

/-- Six pairs of the given characters between colons. -/
def isSixPairs (wanted : Char → Bool) (text : Text) : Bool :=
  let pairs := (chomp text).splitOn ':'
  pairs.length == 6 && pairs.all fun pair => pair.length == 2 && pair.all wanted

def cleanMac (mac : Text) : Text :=
  let trimmed := mac.filter fun char => !"-.:\t\n\r ".toList.contains char
  let spaced := injectColons (trimmed.map Char.toLower)
  if isSixPairs (fun char => char.isDigit || char.isLower) spaced then spaced else ['0']

def validMac (mac : Text) : Bool :=
  let characters := (chomp mac).map Char.toLower
  let clean := cleanMac mac
  !characters.isEmpty &&
    characters.all (fun char => isHexDigit char || char == ':' || char == '.' || char == '-') &&
    !isDotted mac && clean != "00:00:00:00:00:00".toList && clean != "ff:ff:ff:ff:ff:ff".toList &&
    isSixPairs isHexDigit clean

example : validMac "00:11:22:33:44:55".toList = true := by decide

example : validMac "0011.2233.44FF".toList = true := by decide

example : validMac "10.11.12.13".toList = false := by decide

/-! ### The table and its history -/

structure Entry where
  mac : Text
  ip : Text
  startTime : Nat
  /-- none is the zero date of an open entry -/
  endTime : Option Nat
  deriving DecidableEq

structure Past where
  mac : Text
  ip : Text
  startTime : Nat
  endTime : Nat
  deriving DecidableEq

/-- A saved entry replaces the row of its address. -/
def entrySchema : Schema Entry Text where
  key := Entry.ip
  merge := fun old new => { new with ip := old.ip }
  key_merge := fun _ _ => rfl

abbrev Log := Journal entrySchema Past

variable (now : Nat)

def Entry.past (old : Entry) : Past where
  mac := old.mac
  ip := old.ip
  startTime := old.startTime
  endTime :=
    match old.endTime with
    | none => now
    | some ended => if ended > now then now else ended

/-- `ip4log_insert_in_ip4log_history_before_update_trigger` -/
def insertInIp4logHistory : Trigger Entry Past :=
  fun old _ => some (old.past now)

def flooredLeaseLength : Int := 120

def floorLease (leaseLength : Int) : Int :=
  if leaseLength ≠ 0 ∧ leaseLength < flooredLeaseLength then flooredLeaseLength else leaseLength

def leaseEnd (leaseLength : Int) : Option Nat :=
  if floorLease leaseLength ≠ 0 then some (now + (floorLease leaseLength).toNat) else none

def newEntry (ip mac : Text) (leaseLength : Int) : Entry where
  mac := mac
  ip := ip
  startTime := now
  endTime := leaseEnd now leaseLength

def openEntry (ip mac : Text) (leaseLength : Int) (log : Log) : Log :=
  if validIp ip && validMac mac then
    log.save (insertInIp4logHistory now) (newEntry now ip mac leaseLength)
  else
    log

def Entry.endedAt (entry : Entry) : Entry :=
  { entry with endTime := some now }

@[simp] theorem Entry.key_endedAt (entry : Entry) :
    entrySchema.key (entry.endedAt now) = entrySchema.key entry := rfl

def closeEntry (ip : Text) (log : Log) : Log :=
  if validIp ip then
    log.updateKey (insertInIp4logHistory now) ip (fun _ => true) (Entry.endedAt now)
      (Entry.key_endedAt now)
  else
    log

variable {leaseLength : Int}

theorem floorLease_pos (given : floorLease leaseLength ≠ 0) : 0 < floorLease leaseLength := by
  unfold floorLease flooredLeaseLength at given ⊢
  split <;> omega

theorem lt_of_leaseEnd {now ended : Nat}
    (ends : leaseEnd now leaseLength = some ended) : now < ended := by
  unfold leaseEnd at ends
  split at ends
  next given =>
    cases ends
    have positive := floorLease_pos given
    omega
  · cases ends

theorem files_insertInIp4logHistory :
    Journal.Files entrySchema Past.ip (insertInIp4logHistory now) := by
  intro old new copy made
  cases made
  rfl

end PacketFence.Ip4log
