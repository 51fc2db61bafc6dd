import PacketFence.Foundations.Lexing
import PacketFence.Foundations.OrderBy

/-!
# Where a device is connected

`locationlog` has one row for each device. A connection is synchronized with it: the
row of the device is written if it is not accurate, and on a wired port the entries
are closed if the first of them shows another VLAN or role.

The entries come by descending start, and equal ones in any order. An entry of
another device can therefore be first although the row of this device was just
written; both are closed, and the row is not written again.
-/

namespace PacketFence.LocationLog

open Foundations Lexing

inductive ConnectionType where
  | wireless8021x
  | wirelessMacAuth
  | wired8021x
  | wiredMacAuth
  | wiredSnmpTraps
  | inline
  | unknown
  | webauthWireless
  | webauthWired
  | virtualVpn
  | virtualCli
  deriving DecidableEq

namespace ConnectionType

def code : ConnectionType → Nat
  | wireless8021x => 0b11000000000
  | wirelessMacAuth => 0b10000000001
  | wired8021x => 0b01100000010
  | wiredMacAuth => 0b00100000011
  | wiredSnmpTraps => 0b00101000100
  | inline => 0b00010000101
  | unknown => 0b00000000000
  | webauthWireless => 0b10000100111
  | webauthWired => 0b00100101000
  | virtualVpn => 0b00000011001
  | virtualCli => 0b00000011010

def wired : Nat := 0b00100000000

def isWired (type : ConnectionType) : Bool :=
  type.code &&& wired == wired

def toStr : ConnectionType → Text
  | wireless8021x => "Wireless-802.11-EAP".toList
  | wirelessMacAuth => "Wireless-802.11-NoEAP".toList
  | wired8021x => "Ethernet-EAP".toList
  | wiredMacAuth => "Ethernet-NoEAP".toList
  | wiredSnmpTraps => "SNMP-Traps".toList
  | inline => "Inline".toList
  | unknown => []
  | webauthWireless => "Wireless-Web-Auth".toList
  | webauthWired => "Ethernet-Web-Auth".toList
  | virtualVpn => "VPN-Access".toList
  | virtualCli => "CLI-Access".toList

/-- `LIKE 'Ethernet%'` -/
def isEthernet (type : ConnectionType) : Bool :=
  "Ethernet".toList.isPrefixOf type.toStr

end ConnectionType

structure Entry where
  mac : Text
  switch : Text
  switchMac : Option Text
  port : Text
  vlan : Option Text
  role : Option Text
  connectionType : ConnectionType
  userName : Text
  ssid : Text
  startTime : Nat
  /-- none is the zero date of an open entry -/
  endTime : Option Nat
  voip : Bool
  deriving DecidableEq

/-- A saved entry replaces the row of its device. -/
def entrySchema : Schema Entry Text where
  key := Entry.mac
  merge := fun old new => { new with mac := old.mac }
  key_merge := fun _ _ => rfl

abbrev EntryTable := Table entrySchema

structure Request where
  switch : Text
  switchMac : Option Text
  port : Text
  vlan : Option Text
  mac : Option Text
  voip : Bool
  connectionType : ConnectionType
  userName : Option Text
  ssid : Option Text
  role : Option Text

namespace Request

variable (request : Request)

def vlanChanged (entry : Entry) : Bool :=
  match request.vlan, entry.vlan with
  | some vlan, some old => old ≠ vlan
  | _, _ => false

/-- `_is_locationlog_accurate` -/
def isLocationlogAccurate (entry : Entry) : Bool :=
  !(request.vlanChanged entry || entry.switch ≠ request.switch ||
    entry.connectionType ≠ request.connectionType ||
    (request.connectionType.isWired && entry.port ≠ request.port) ||
    entry.userName ≠ request.userName.getD [] || entry.ssid ≠ request.ssid.getD [] ||
    entry.role ≠ request.role || entry.switchMac.getD [] ≠ request.switchMac.getD [])

variable (now : Nat)

def newEntry (previous : Option Entry) : Entry where
  mac := request.mac.getD []
  switch := request.switch
  switchMac := request.switchMac
  port := request.port
  vlan :=
    match request.vlan with
    | some vlan => some vlan
    | none => previous.bind Entry.vlan
  role := request.role
  connectionType := request.connectionType
  userName := request.userName.getD []
  ssid := request.ssid.getD []
  startTime := now
  endTime := none
  voip := request.voip

def locationlogInsertStart (previous : Option Entry) (table : EntryTable) : EntryTable :=
  table.upsert (request.newEntry now previous)

def onPort (entry : Entry) : Bool :=
  entry.switch = request.switch && entry.port = request.port && entry.voip == request.voip &&
    entry.endTime = none

/-- The first row of `locationlog_view_open_switchport`. -/
def firstOnPort (scan : Scan Entry) (table : EntryTable) : Option Entry :=
  scan.firstBy (fun entry => OrderDual.toDual entry.startTime) request.onPort table.rows

/-- The entry of the port shows another VLAN or role; what is not defined counts as an
empty text. That its MAC is not defined cannot be, for it is the key of the row. -/
def conflicts (entry : Entry) : Bool :=
  (match request.vlan with
    | none => false
    | some vlan => entry.vlan.getD [] ≠ vlan) ||
  match entry.role with
  | none => false
  | some role => role ≠ request.role.getD []

/-- The entry is closed together with the other ones of its VoIP status. -/
def endEntry (entry : Entry) : Entry :=
  if request.onPort entry && entry.connectionType.isEthernet then
    { entry with endTime := some now }
  else
    entry

@[simp] theorem endEntry_mac (entry : Entry) : (request.endEntry now entry).mac = entry.mac := by
  unfold endEntry
  split <;> rfl

def locationlogUpdateEndSwitchport (table : EntryTable) : EntryTable :=
  table.update (request.endEntry now) (request.endEntry_mac now)

/-- The flags after the row of the device was looked at. -/
structure Progress where
  table : EntryTable
  mustInsert : Bool
  inserted : Bool

def locationlogViewOpenMac (mac : Text) (table : EntryTable) : Option Entry :=
  table.rows.find? fun entry => entry.mac = mac && entry.endTime = none

def synchronizeDevice (table : EntryTable) : Progress :=
  match request.mac with
  | none => ⟨table, false, false⟩
  | some mac =>
    match locationlogViewOpenMac mac table with
    | none => ⟨table, true, false⟩
    | some entry =>
      if request.isLocationlogAccurate entry then ⟨table, false, false⟩
      else ⟨request.locationlogInsertStart now (some entry) table, false, true⟩

/-- The conflicting entries of a wired port are closed. -/
def synchronizePort (scan : Scan Entry) (now : Nat) (progress : Progress) : Progress :=
  match request.firstOnPort scan progress.table with
  | none => { progress with mustInsert := true }
  | some first =>
    if request.conflicts first then
      { progress with
        table := request.locationlogUpdateEndSwitchport now progress.table
        mustInsert := true }
    else
      progress

def insertIfNeeded (progress : Progress) : EntryTable :=
  if progress.mustInsert && !progress.inserted then
    request.locationlogInsertStart now none progress.table
  else
    progress.table

/-- `floating` says that a floating device is on the port. -/
def locationlogSynchronize (scan : Scan Entry) (now : Nat) (floating : Bool)
    (table : EntryTable) : EntryTable :=
  let progress := request.synchronizeDevice now table
  if request.connectionType.isWired then
    if floating then
      progress.table
    else
      request.insertIfNeeded now (request.synchronizePort scan now progress)
  else
    request.insertIfNeeded now progress

def Located (table : EntryTable) : Prop :=
  ∃ entry ∈ table.rows, some entry.mac = request.mac ∧ entry.endTime = none ∧
    entry.switch = request.switch ∧ entry.port = request.port ∧ entry.vlan = request.vlan ∧
    entry.role = request.role ∧ entry.connectionType = request.connectionType ∧
    entry.userName = request.userName.getD []

instance (table : EntryTable) : Decidable (request.Located table) :=
  inferInstanceAs (Decidable (∃ entry ∈ table.rows, _))

end Request

end PacketFence.LocationLog
