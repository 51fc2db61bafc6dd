import PacketFence.Foundations.Lexing

/-!
# Saving a database object

An object remembers the values it was loaded with. `save` is an `INSERT` of all
its fields with an `ON DUPLICATE KEY UPDATE` of those that have changed, or of
all of them if none has.

A class is given by its lists of fields, their descriptions and the keys of its
table; `pre_save` and the other hooks are those of the base class.
-/

namespace PacketFence.Dal

open Foundations Lexing

abbrev Row := Text → Option Text

/-- The part of `%FIELDS_META` that is checked. -/
structure Column where
  isNullable : Bool
  enumValues : Option (List Text)

structure DalClass where
  updateableFields : List Text
  insertableFields : List Text
  getMeta : Text → Option Column
  /-- Whether the class has the role `has_tenant_id`. -/
  hasTenantId : Bool
  /-- The unique keys of the table, the primary key first. -/
  uniqueKeys : List (List Text)
  autoIncrement : Option Text
  columnDefaults : Row

def tenantField : Text := "tenant_id".toList

inductive Status where
  | ok
  | created
  | badRequest
  | conflict

/-- The fields of a statement and their values. -/
abbrev Data := List (Text × Option Text)

/-! ### The table -/

/-- Two rows have the same key; `NULL` is equal to nothing. -/
def collides (key : List Text) (first second : Row) : Bool :=
  key.all fun column => (first column).isSome && first column == second column

def Distinct (dal : DalClass) (rows : List Row) : Prop :=
  rows.Pairwise fun first second => ∀ key ∈ dal.uniqueKeys, collides key first second = false

instance (dal : DalClass) (rows : List Row) : Decidable (Distinct dal rows) :=
  inferInstanceAs (Decidable (List.Pairwise _ _))

structure Table (dal : DalClass) where
  rows : List Row
  distinct : Distinct dal rows
  nextId : Nat

namespace Table

variable {dal : DalClass} (table : Table dal)

def inserted (values : Data) : Row := fun column =>
  match values.lookup column with
  | some value => value
  | none =>
    if dal.autoIncrement = some column then some (toString table.nextId).toList
    else dal.columnDefaults column

/-- The row that stands against an insertion, by the first key that has one. -/
def conflict? (row : Row) : Option Nat :=
  dal.uniqueKeys.findSome? fun key => table.rows.findIdx? (collides key row)

end Table

def Row.assign (row : Row) (data : Data) : Row := fun column =>
  (data.lookup column).getD (row column)

namespace Table

variable {dal : DalClass} (table : Table dal)

/-- A statement that would break a unique key fails. -/
def withRows (rows : List Row) (nextId : Nat) : Except Status (Table dal) :=
  if distinct : Distinct dal rows then
    .ok ⟨rows, distinct, nextId⟩
  else
    .error .conflict

/-- `INSERT … ON DUPLICATE KEY UPDATE`, and whether a row was inserted. -/
def upsert (values onConflict : Data) : Except Status (Table dal × Bool) :=
  match table.conflict? (table.inserted values) with
  | none => do
      let changed ← withRows (table.rows ++ [table.inserted values]) (table.nextId + 1)
      return (changed, true)
  | some position =>
    if onConflict.isEmpty then
      .error .conflict
    else do
      let changed ← withRows
        (table.rows.modify position fun row => row.assign onConflict) table.nextId
      return (changed, false)

end Table

/-! ### The object -/

structure Object where
  data : Row
  oldData : Row
  fromTable : Bool

namespace Object

def newFromRow (row : Row) : Object where
  data := row
  oldData := row
  fromTable := true

def set (object : Object) (field : Text) (value : Option Text) : Object :=
  { object with data := Function.update object.data field value }

end Object

namespace DalClass

variable (dal : DalClass)

def isNullable (field : Text) : Bool :=
  (dal.getMeta field).any (·.isNullable)

def isEnum (field : Text) : Bool :=
  (dal.getMeta field).any (·.enumValues.isSome)

def validateField (field : Text) (value : Option Text) : Bool :=
  match dal.getMeta field with
  | none => false
  | some column =>
    if !dal.isNullable field && value.isNone then
      false
    else
      match value with
      | some text =>
        if dal.isEnum field then column.enumValues.any (·.contains text) else true
      | none => true

variable (object : Object)

def insertData : Data :=
  (dal.insertableFields.filter fun field => dal.validateField field (object.data field)).map
    fun field => (field, object.data field)

/-- The two tests by which `_update_data` skips a field. -/
def isUnchanged (newValue oldValue : Option Text) : Bool :=
  match newValue, oldValue with
  | none, none => true
  | some new, some old => new == old
  | _, _ => false

def updateData : Data :=
  (dal.updateableFields.filter fun field =>
    !isUnchanged (object.data field) (object.oldData field) &&
      dal.validateField field (object.data field)).map
    fun field => (field, object.data field)

def onConflictData : Data :=
  if object.fromTable && !(dal.updateData object).isEmpty then
    dal.updateData object
  else
    dal.insertData object

/-- The tenant of the session is added to both parts of the statement. -/
def updateParamsForUpsert (tenant : Text) (data : Data) : Data :=
  if dal.hasTenantId then (tenantField, some tenant) :: data else data

end DalClass

namespace Object

variable (object : Object) {dal : DalClass}

def saveOldData : Object :=
  { object with oldData := object.data, fromTable := true }

def updateAutoIncrementField (dal : DalClass) (id : Nat) : Object :=
  match dal.autoIncrement with
  | none => object
  | some field => object.set field (some (toString id).toList)

/-- What `save` returns, the object after it and the table. -/
structure Saved (dal : DalClass) where
  status : Status
  object : Object
  table : Table dal

def upsert (tenant : Text) (table : Table dal) : Except Status (Saved dal) :=
  let insertData := dal.insertData object
  if insertData.isEmpty then
    .error .badRequest
  else do
    let (changed, created) ← table.upsert
      (dal.updateParamsForUpsert tenant insertData)
      (dal.updateParamsForUpsert tenant (dal.onConflictData object))
    if created then
      return ⟨.created, object.saveOldData.updateAutoIncrementField dal table.nextId, changed⟩
    else
      return ⟨.ok, object.saveOldData, changed⟩

/-- `pre_save` of the base class succeeds. -/
def save (tenant : Text) (table : Table dal) : Except Status (Saved dal) :=
  object.upsert tenant table

end Object

end PacketFence.Dal
