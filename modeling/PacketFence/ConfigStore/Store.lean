import PacketFence.Foundations.IniFile
import PacketFence.Foundations.Lexing

/-!
# The store of switches

The configuration of the switches is a file that is read over the defaults that come
with the server. A switch inherits from the section of its group and from the default
section. An update leaves out what is inherited anyway, and before the file is written
everything is left out that the defaults say as well.

A value of several lines is identified with the text of its lines.
-/

namespace PacketFence.ConfigStore

open Foundations Lexing

abbrev File := IniFile Text Text Text

/-- The assignments of an update; what is not defined is deleted. -/
abbrev Assignments := Hash Text (Option Text)

structure Store where
  file : File
  imported : File

def defaultSection : Text := "default".toList

def groupParam : Text := "group".toList

def groupSection (group : Text) : Text := "group ".toList ++ group

def Store.load (imported own : File) : Store := ⟨imported.readOver own, imported⟩

/-! ### Reading -/

/-- `val` of `Config::IniFiles`, which falls back to the default section. -/
def val (file : File) (name param : Text) : Option Text :=
  (file.value? name param).or (file.value? defaultSection param)

def parentsOf (id : Text) (inheritFrom : Option Text) : List Text :=
  if id = defaultSection then []
  else
    match inheritFrom with
    | none => [defaultSection]
    | some group =>
      if group ≠ defaultSection ∧ id ≠ group then [groupSection group, defaultSection]
      else [defaultSection]

/-- The group is that of the item at hand, or else that of the switch. -/
def parentSections (file : File) (id : Text) (group : Option Text) : List Text :=
  parentsOf id (group.or (val file id groupParam))

/-- `readFromSection`: the parameters of the section, and those of its parents that are
not there yet. -/
def Store.readRaw (store : Store) (id : Text) : Option (Hash Text Text) :=
  if store.file.sectionExists id then
    let own := store.file.parameters id
    let parents := parentSections store.file id (own.lookup groupParam)
    some (parents.foldl (fun data parent => data ∪ store.file.parameters parent) own)
  else
    none

def Store.effective (store : Store) (id param : Text) : Option Text :=
  (store.readRaw id).bind (AList.lookup param)

/-! ### Cleaning up what is to be committed -/

structure Trigger where
  type : Text
  value : Option Text

inductive MappingKind
  | accessList
  | vlan
  | url
  | controllerRole

/-- `MappingKey2` -/
def MappingKind.suffix : MappingKind → Text
  | .accessList => "AccessList".toList
  | .vlan => "Vlan".toList
  | .url => "Url".toList
  | .controllerRole => "Role".toList

structure RoleMapping where
  role : Text
  value : Option Text

structure Item where
  fields : Assignments
  inlineTrigger : Option (List Trigger)
  mappings : MappingKind → List RoleMapping

def uplink : Text := "uplink".toList

def uplinkDynamic : Text := "uplink_dynamic".toList

def normalizeUplink (fields : Assignments) : Assignments :=
  match fields.lookup uplinkDynamic with
  | some (some value) =>
    if value = "dynamic".toList then
      (fields.insert uplink (some "dynamic".toList)).insert uplinkDynamic none
    else if value = "0".toList then fields.insert uplinkDynamic none
    else fields
  | _ => fields

def Trigger.render (trigger : Trigger) : Text :=
  let value := match trigger.value with
    | none => ['1']
    | some value => if value = [] ∨ value = ['0'] then ['1'] else value
  trigger.type ++ "::".toList ++ value

def normalizeInlineTrigger (triggers : Option (List Trigger)) (fields : Assignments) :
    Assignments :=
  match triggers with
  | none => fields
  | some triggers =>
    let rendered :=
      if triggers.any (·.type = "always".toList) then ["always::1".toList]
      else triggers.map Trigger.render
    fields.insert "inlineTrigger".toList (some ([','].intercalate rendered))

def flattenRoleMappings (mappings : MappingKind → List RoleMapping) (fields : Assignments) :
    Assignments :=
  [MappingKind.accessList, .vlan, .url, .controllerRole].foldl
    (fun fields kind => (mappings kind).foldl
      (fun fields mapping => fields.insert (mapping.role ++ kind.suffix) mapping.value) fields)
    fields

def cleanupBeforeCommit (item : Item) : Assignments :=
  flattenRoleMappings item.mappings
    (normalizeInlineTrigger item.inlineTrigger (normalizeUplink item.fields))

/-! ### Updating -/

/-- One pass of the loop of `_update_section`. The section to inherit from is not given
if the section is its own. -/
def updateParameter (imported : File) (name : Text) (inherits : Option Text) (file : File)
    (param : Text) (value : Option Text) : File :=
  let paramExists := (file.value? name param).isSome
  let defaultValue := inherits.bind fun parent => val file parent param
  let importedValue := imported.value? name param
  match value with
  | some value =>
    -- If value is defined the update or add to section
    if paramExists then
      -- Only set the value if not equal to the default value otherwise delete it
      if defaultValue = some value ∧ (importedValue = none ∨ importedValue = some value) then
        file.delval name param
      else
        file.setval name param value
    else if defaultValue = some value then file
    else file.newval name param value
  | none => if paramExists then file.delval name param else file

/-- The section whose values need not be repeated. -/
def Store.inheritsFrom (store : Store) (name : Text) (assignments : Assignments) : Option Text :=
  (parentSections store.file name (assignments.lookup groupParam).join).head?.filter (· ≠ name)

def Store.updateSection (store : Store) (name : Text) (assignments : Assignments) : Store :=
  { store with
    file := assignments.foldl
      (updateParameter store.imported name (store.inheritsFrom name assignments)) store.file }

def Store.update (store : Store) (id : Text) (item : Item) : Store × Bool :=
  if id = "all".toList then (store, false)
  else if store.file.sectionExists id then
    (store.updateSection id (cleanupBeforeCommit item), true)
  else
    (store, false)

/-! ### Writing -/

def removeDefaultValue (imported : File) (name : Text) (file : File) (param : Text) : File :=
  match imported.value? name param with
  | none => file
  | some default =>
    match file.value? name param with
    | none => file.delval name param
    | some value => if value = default then file.delval name param else file

def removeSectionDefaults (imported : File) (file : File) (name : Text) : File :=
  if imported.sectionExists name then
    let cleaned := (file.parameters name).foldl
      (fun file param _ => removeDefaultValue imported name file param) file
    if (cleaned.parameters name).keys = [] then cleaned.deleteSection name else cleaned
  else
    file

def removeDefaultValues (imported file : File) : File :=
  file.foldl (fun file name _ => removeSectionDefaults imported file name) file

/-- What is written is what is there; it is read over the defaults again. -/
def Store.rewriteConfig (store : Store) : Store :=
  .load store.imported (removeDefaultValues store.imported store.file)

end PacketFence.ConfigStore
