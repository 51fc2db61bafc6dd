import Mathlib.Data.List.Nodup
import PacketFence.Foundations.Lexing
import PacketFence.Foundations.Machine

/-!
# Activation codes

A code is created for a person or a device, validated when it comes back, and
marked as verified. Validation looks for an unverified record that has not
expired; marking looks for any record with that code.

A search without an order returns any matching row first, and the database
compares texts by a collation; both are up to the environment.
-/

namespace PacketFence.Activation

open Foundations Lexing List

inductive Status where
  | unverified
  | verified
  | invalidated
  deriving DecidableEq

structure Record where
  codeId : Nat
  pid : Option Text
  mac : Option Text
  contactInfo : Option Text
  activationCode : Text
  expiration : Int
  status : Status
  type : Text

structure Table where
  records : List Record
  nextId : Nat
  distinct : (records.map (·.codeId)).Nodup
  below : ∀ record ∈ records, record.codeId < nextId

namespace Table

def empty : Table where
  records := []
  nextId := 1
  distinct := nodup_nil
  below := nofun

variable (table : Table)

def setStatus (status : Status) (selected : Record → Bool) : Table where
  records := table.records.map fun record =>
    { record with status := if selected record then status else record.status }
  nextId := table.nextId
  distinct := by
    rw [map_map]
    exact table.distinct
  below := by
    intro record member
    obtain ⟨old, present, rfl⟩ := mem_map.mp member
    exact table.below old present

def insert (record : Record) : Table where
  records := table.records ++ [{ record with codeId := table.nextId }]
  nextId := table.nextId + 1
  distinct := by
    rw [map_append, nodup_append]
    refine ⟨table.distinct, nodup_singleton _, ?_⟩
    intro id member other last same
    obtain ⟨old, present, rfl⟩ := mem_map.mp member
    have new : other = table.nextId := mem_singleton.mp last
    have smaller := table.below old present
    rw [same, new] at smaller
    exact lt_irrefl _ smaller
  below := by
    intro old member
    rcases mem_append.mp member with present | last
    · exact Nat.lt_succ_of_lt (table.below old present)
    · rw [mem_singleton.mp last]
      exact Nat.lt_succ_self _

end Table

/-- A call of `validate_code` or `set_status_verified` with its type and code; the
functions with a device restrict the search to its rows. -/
structure Call where
  type : Text
  code : Text
  device : Option (Option Text)
  deriving DecidableEq

/-- A false `mac` is undefined, the contact may come as `pending`, and no length is
the length 0. -/
structure CreateArgs where
  mac : Option Text
  pid : Option Text
  contactInfo : Option Text
  type : Text
  timeout : Option Int
  codeLength : Nat
  noUnique : Bool

def defaultExpiration : Int := 31 * 24 * 60 * 60

section Queries

variable (collates : Text → Text → Bool)

/-- A condition on a column; an undefined value asks for `NULL`. -/
def columnIs (column value : Option Text) : Bool :=
  match column, value with
  | none, none => true
  | some column, some value => collates column value
  | _, _ => false

/-- The conditions of `view_by_code` and `view_by_code_mac`. -/
def Record.answers (record : Record) (call : Call) : Bool :=
  collates record.type call.type && collates record.activationCode call.code &&
    match call.device with
    | none => true
    | some mac => columnIs collates record.mac mac

def Record.isPending (record : Record) (now : Int) : Bool :=
  record.status = .unverified ∧ now ≤ record.expiration

def search (rows : List Record) (first : Option Nat) : Option (Option Record) :=
  match first with
  | none => if rows.isEmpty then some none else none
  | some id => (rows.find? (·.codeId = id)).map some

variable (table : Table) (now : Int)

/-- `find_unverified_code` and `find_unverified_code_by_mac` -/
def Table.findUnverifiedCode (call : Call) : List Record :=
  table.records.filter fun record => record.answers collates call && record.isPending now

/-- `view_by_code` and `view_by_code_mac` -/
def Table.viewByCode (call : Call) : List Record :=
  table.records.filter fun record => record.answers collates call

def Table.validateCode (call : Call) (first : Option Nat) : Option (Option Record) :=
  (search (table.findUnverifiedCode collates now call) first).map fun row =>
    -- force a solid match
    row.filter fun record => call.code = record.activationCode

def Table.modifyStatus (codeId : Nat) (status : Status) : Table :=
  table.setStatus status fun record => record.codeId = codeId

def Table.setStatusVerified (call : Call) (first : Option Nat) : Option Table :=
  (search (table.viewByCode collates call) first).map fun row =>
    match row with
    | some record => table.modifyStatus record.codeId .verified
    | none => table

def Table.invalidateCodes (mac pid contactInfo : Option Text) : Table :=
  table.setStatus .invalidated fun record =>
    record.status = .unverified && columnIs collates record.pid pid &&
      columnIs collates record.contactInfo contactInfo && columnIs collates record.mac mac

def Table.invalidateCodesForMac (mac : Text) (type : Text) : Table :=
  table.setStatus .invalidated fun record =>
    collates record.type type && columnIs collates record.mac (some mac) &&
      record.status = .unverified

def Table.isCodeInUse (type code : Text) (mac : Option Text) : Bool :=
  table.records.any fun record =>
    record.answers collates
      ⟨type, code, if type = "sms".toList ∧ mac.isSome then some mac else none⟩ &&
      record.isPending now

def Table.generateActivationCode (args : CreateArgs) (generated : List Text) : Option Text :=
  (generated.map fun code => if 0 < args.codeLength then code.take args.codeLength else code).find?
    fun code => args.noUnique || !table.isCodeInUse collates now args.type code args.mac

def Table.create (args : CreateArgs) (generated : List Text) : Option (Table × Text) := do
  let table := table.invalidateCodes collates args.mac args.pid args.contactInfo
  let code ← table.generateActivationCode collates now args generated
  let record : Record :=
    { codeId := 0
      pid := args.pid
      mac := args.mac
      contactInfo := args.contactInfo
      activationCode := code
      expiration := now + args.timeout.getD defaultExpiration
      status := .unverified
      type := args.type }
  return (table.insert record, code)

end Queries

/-! ### Runs -/

structure Portal where
  table : Table
  now : Int
  /-- the record that a call accepted last, until the call is marked -/
  accepted : Call → Option Nat
  /-- the calls that were accepted and marked and whose code was not issued again -/
  spent : Call → Bool

inductive Event where
  | create (args : CreateArgs) (generated : List Text)
  | validateCode (call : Call) (first : Option Nat)
  | setStatusVerified (call : Call) (first : Option Nat)
  | invalidateCodes (mac pid contactInfo : Option Text)
  | invalidateCodesForMac (mac : Text) (type : Text)
  | tick (elapsed : Nat)

namespace Portal

variable (collates : Text → Text → Bool)

def start (now : Int) : Portal where
  table := .empty
  now := now
  accepted _ := none
  spent _ := false

def issued (args : CreateArgs) (code : Text) (call : Call) : Bool :=
  collates args.type call.type && code = call.code &&
    match call.device with
    | none => true
    | some mac => columnIs collates args.mac mac

def step? (portal : Portal) : Event → Option Portal
  | .create args generated => do
      let (table, code) ← portal.table.create collates portal.now args generated
      return { portal with
        table := table
        spent := fun call => portal.spent call && !issued collates args code call }
  | .validateCode call first => do
      let result ← portal.table.validateCode collates portal.now call first
      match result with
      | none => return portal
      | some record =>
        return { portal with
          accepted := Function.update portal.accepted call (some record.codeId) }
  | .setStatusVerified call first => do
      let table ← portal.table.setStatusVerified collates call first
      match portal.accepted call with
      | none => return { portal with table := table }
      | some _ =>
        return { portal with
          table := table
          accepted := Function.update portal.accepted call none
          spent := Function.update portal.spent call true }
  | .invalidateCodes mac pid contactInfo =>
    some { portal with table := portal.table.invalidateCodes collates mac pid contactInfo }
  | .invalidateCodesForMac mac type =>
    some { portal with table := portal.table.invalidateCodesForMac collates mac type }
  | .tick elapsed => some { portal with now := portal.now + elapsed }

def machine : Machine Portal Event where
  step? := step? collates

end Portal

end PacketFence.Activation
