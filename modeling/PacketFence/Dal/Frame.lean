import PacketFence.Dal.Upsert
import PacketFence.Foundations.Failure

/-!
# What a save leaves alone

A save that changes something writes just that. A save that changes nothing
writes every field back as it was loaded, and with it whatever another process
has changed since.
-/

namespace PacketFence.Dal

open Foundations Lexing List DalClass

variable {dal : DalClass} {tenant : Text} {object : Object} {table : Table dal}
  {position : Nat} {before : Row}

def Object.Changed (object : Object) (field : Text) : Prop :=
  object.data field ≠ object.oldData field

instance (field : Text) : Decidable (object.Changed field) :=
  inferInstanceAs (Decidable (_ ≠ _))

/-- Unchanged columns keep their value, changed ones that are valid get the
object's. -/
structure Framed (dal : DalClass) (object : Object) (before after : Row) : Prop where
  unchanged : ∀ field ∈ dal.updateableFields, ¬ object.Changed field →
    after field = before field
  changed : ∀ field ∈ dal.updateableFields, object.Changed field →
    dal.validateField field (object.data field) = true → after field = object.data field

def Object.Hits (object : Object) (tenant : Text) (table : Table dal) (position : Nat) : Prop :=
  table.conflict? (table.inserted (dal.updateParamsForUpsert tenant (dal.insertData object))) =
    some position

instance : Decidable (object.Hits tenant table position) :=
  inferInstanceAs (Decidable (_ = _))

def Object.HasUpdate (object : Object) (dal : DalClass) : Prop :=
  ∃ field ∈ dal.updateableFields, object.Changed field ∧
    dal.validateField field (object.data field) = true

/-- What the statement writes into the row is right: either something was changed, or
nothing that is written back was changed by others. The tenant is written always. -/
structure WritesRight (dal : DalClass) (tenant : Text) (object : Object) (before : Row) :
    Prop where
  fields : object.HasUpdate dal ∨
    ∀ field ∈ dal.updateableFields, field ∈ dal.insertableFields → ¬ object.Changed field →
      dal.validateField field (object.data field) = true →
      ¬ (dal.hasTenantId = true ∧ field = tenantField) → before field = object.data field
  tenant : dal.hasTenantId = true → tenantField ∈ dal.updateableFields →
    (¬ object.Changed tenantField → before tenantField = some tenant) ∧
      (object.Changed tenantField →
        dal.validateField tenantField (object.data tenantField) = true →
        object.data tenantField = some tenant)

/-- Where another row is updated or a new one inserted, nothing may be left to write. -/
def NothingToWrite (dal : DalClass) (object : Object) (before : Row) : Prop :=
  ∀ field ∈ dal.updateableFields, object.Changed field →
    dal.validateField field (object.data field) = true → before field = object.data field

def SavesRight (dal : DalClass) (tenant : Text) (object : Object) (table : Table dal)
    (position : Nat) (before : Row) : Prop :=
  if object.Hits tenant table position then
    WritesRight dal tenant object before
  else
    NothingToWrite dal object before

variable {field : Text} {saved : Object.Saved dal} {key : List Text} {others : List (List Text)}

@[simp] theorem isUnchanged_iff {new old : Option Text} :
    isUnchanged new old = true ↔ new = old := by
  cases new <;> cases old <;> simp [isUnchanged]

theorem lookup_map {fields : List Text} {value : Text → Option Text} :
    (fields.map fun field => (field, value field)).lookup field =
      if field ∈ fields then some (value field) else none := by
  induction fields with
  | nil => rfl
  | cons first rest ih =>
    rw [map_cons]
    by_cases same : field = first
    · subst same
      simp
    · simp [lookup_cons, beq_false_of_ne same, same, ih]

@[simp] theorem lookup_insertData (field : Text) :
    (dal.insertData object).lookup field =
      if field ∈ dal.insertableFields ∧ dal.validateField field (object.data field) = true then
        some (object.data field)
      else
        none := by
  rw [insertData, lookup_map]
  simp

theorem mem_update_iff : field ∈ dal.updateableFields.filter (fun field =>
        !isUnchanged (object.data field) (object.oldData field) &&
          dal.validateField field (object.data field)) ↔
      field ∈ dal.updateableFields ∧ object.Changed field ∧
        dal.validateField field (object.data field) = true := by
  rw [mem_filter, Bool.and_eq_true, Bool.not_eq_true', Bool.eq_false_iff, Ne, isUnchanged_iff]
  rfl

@[simp] theorem lookup_updateData (field : Text) :
    (dal.updateData object).lookup field =
      if field ∈ dal.updateableFields ∧ object.Changed field ∧
          dal.validateField field (object.data field) = true then
        some (object.data field)
      else
        none := by
  rw [updateData, lookup_map]
  simp only [mem_update_iff]

@[simp] theorem updateData_isEmpty_iff :
    (dal.updateData object).isEmpty = true ↔ ¬ object.HasUpdate dal := by
  rw [List.isEmpty_iff, updateData, map_eq_nil_iff, eq_nil_iff_forall_not_mem]
  simp only [mem_update_iff, Object.HasUpdate, not_exists]

theorem onConflictData_of_hasUpdate (loaded : object.fromTable = true)
    (update : object.HasUpdate dal) : dal.onConflictData object = dal.updateData object := by
  have notEmpty : (dal.updateData object).isEmpty = false := by
    rw [Bool.eq_false_iff, Ne, updateData_isEmpty_iff, not_not]
    exact update
  rw [onConflictData, loaded, notEmpty]
  rfl

theorem onConflictData_of_not_hasUpdate (nothing : ¬ object.HasUpdate dal) :
    dal.onConflictData object = dal.insertData object := by
  rw [onConflictData, updateData_isEmpty_iff.mpr nothing, Bool.not_true, Bool.and_false]
  rfl

theorem lookup_updateParamsForUpsert (data : Data) (field : Text) :
    (dal.updateParamsForUpsert tenant data).lookup field =
      if dal.hasTenantId = true ∧ field = tenantField then some (some tenant)
      else data.lookup field := by
  unfold updateParamsForUpsert
  by_cases hasTenant : dal.hasTenantId = true
  · by_cases same : field = tenantField
    · subst same
      simp [hasTenant]
    · simp [hasTenant, same, lookup_cons, beq_false_of_ne same]
  · simp [hasTenant]

theorem rows_of_withRows {rows : List Row} {nextId : Nat}
    (success : Table.withRows rows nextId = .ok table) : table.rows = rows := by
  unfold Table.withRows at success
  split at success
  · cases success; rfl
  · cases success

theorem getElem?_upsert {values onConflict : Data} {changed : Table dal} {created : Bool}
    (present : table.rows[position]? = some before)
    (success : table.upsert values onConflict = .ok (changed, created)) :
    changed.rows[position]? =
      if table.conflict? (table.inserted values) = some position then
        some (before.assign onConflict)
      else
        some before := by
  unfold Table.upsert at success
  split at success
  next none =>
      obtain ⟨result, built, same⟩ := ok_of_bind success
      cases same
      have inside : position < table.rows.length := (List.getElem?_eq_some_iff.mp present).1
      rw [rows_of_withRows built, getElem?_append_left inside, present, none, if_neg nofun]
  next other hit =>
      split at success
      · cases success
      · obtain ⟨result, built, same⟩ := ok_of_bind success
        cases same
        rw [rows_of_withRows built, getElem?_modify, present, hit]
        simp only [Option.some.injEq]
        split <;> rfl

theorem upsert_of_save (success : object.save tenant table = .ok saved) :
    ∃ created, table.upsert (dal.updateParamsForUpsert tenant (dal.insertData object))
      (dal.updateParamsForUpsert tenant (dal.onConflictData object)) =
        .ok (saved.table, created) := by
  unfold Object.save Object.upsert at success
  dsimp only at success
  split at success
  · cases success
  · obtain ⟨⟨changed, created⟩, statement, finished⟩ := ok_of_bind success
    refine ⟨created, ?_⟩
    rw [statement]
    cases created <;> (cases finished; rfl)

def Object.written (object : Object) (dal : DalClass) (tenant : Text) (before : Row) : Row :=
  before.assign (dal.updateParamsForUpsert tenant (dal.onConflictData object))

theorem written_tenant (hasTenant : dal.hasTenantId = true) :
    object.written dal tenant before tenantField = some tenant := by
  rw [Object.written, Row.assign, lookup_updateParamsForUpsert, if_pos ⟨hasTenant, rfl⟩]
  rfl

theorem written_of_hasUpdate (loaded : object.fromTable = true)
    (update : object.HasUpdate dal) (plain : ¬ (dal.hasTenantId = true ∧ field = tenantField)) :
    object.written dal tenant before field =
      if field ∈ dal.updateableFields ∧ object.Changed field ∧
          dal.validateField field (object.data field) = true then
        object.data field
      else
        before field := by
  rw [Object.written, Row.assign, lookup_updateParamsForUpsert, if_neg plain,
    onConflictData_of_hasUpdate loaded update, lookup_updateData]
  split <;> rfl

theorem written_of_not_hasUpdate (nothing : ¬ object.HasUpdate dal)
    (plain : ¬ (dal.hasTenantId = true ∧ field = tenantField)) :
    object.written dal tenant before field =
      if field ∈ dal.insertableFields ∧ dal.validateField field (object.data field) = true then
        object.data field
      else
        before field := by
  rw [Object.written, Row.assign, lookup_updateParamsForUpsert, if_neg plain,
    onConflictData_of_not_hasUpdate nothing, lookup_insertData]
  split <;> rfl

theorem framed_written_iff (loaded : object.fromTable = true) :
    Framed dal object before (object.written dal tenant before) ↔
      WritesRight dal tenant object before := by
  constructor
  · intro framed
    refine ⟨?_, ?_⟩
    · by_cases update : object.HasUpdate dal
      · exact .inl update
      · refine .inr fun field updateable insertable same valid plain => ?_
        have kept := framed.unchanged field updateable same
        rw [written_of_not_hasUpdate update plain, if_pos ⟨insertable, valid⟩] at kept
        exact kept.symm
    · intro hasTenant updateable
      refine ⟨fun same => ?_, fun changed valid => ?_⟩
      · rw [← framed.unchanged tenantField updateable same, written_tenant hasTenant]
      · rw [← framed.changed tenantField updateable changed valid, written_tenant hasTenant]
  · intro right
    refine ⟨fun field updateable same => ?_, fun field updateable changed valid => ?_⟩
    · by_cases plain : dal.hasTenantId = true ∧ field = tenantField
      · obtain ⟨hasTenant, rfl⟩ := plain
        rw [written_tenant hasTenant, (right.tenant hasTenant updateable).1 same]
      · by_cases update : object.HasUpdate dal
        · rw [written_of_hasUpdate loaded update plain, if_neg fun all => same all.2.1]
        · rw [written_of_not_hasUpdate update plain]
          split
          next written =>
            obtain ⟨insertable, valid⟩ := written
            have agrees := right.fields.resolve_left update
            exact (agrees field updateable insertable same valid plain).symm
          · rfl
    · by_cases plain : dal.hasTenantId = true ∧ field = tenantField
      · obtain ⟨hasTenant, rfl⟩ := plain
        rw [written_tenant hasTenant, (right.tenant hasTenant updateable).2 changed valid]
      · have update : object.HasUpdate dal := ⟨field, updateable, changed, valid⟩
        rw [written_of_hasUpdate loaded update plain, if_pos ⟨updateable, changed, valid⟩]

theorem framed_refl_iff : Framed dal object before before ↔ NothingToWrite dal object before :=
  ⟨fun framed => framed.changed, fun nothing => ⟨fun _ _ _ => rfl, nothing⟩⟩

theorem getElem?_save (present : table.rows[position]? = some before)
    (success : object.save tenant table = .ok saved) :
    saved.table.rows[position]? =
      if object.Hits tenant table position then some (object.written dal tenant before)
      else some before := by
  obtain ⟨created, statement⟩ := upsert_of_save success
  exact getElem?_upsert present statement

def keyValueStorage : DalClass where
  updateableFields := ["id".toList, "value".toList]
  insertableFields := ["id".toList, "value".toList]
  getMeta field :=
    if field = "id".toList then some ⟨false, none⟩
    else if field = "value".toList then some ⟨true, none⟩
    else none
  hasTenantId := false
  uniqueKeys := [["id".toList]]
  autoIncrement := none
  columnDefaults field := if field = "id".toList then some [] else none

def keyValueRow (id value : Text) : Row := fun field =>
  if field = "id".toList then some id
  else if field = "value".toList then some value
  else none

def keyValueTable (id value : Text) : Table keyValueStorage where
  rows := [keyValueRow id value]
  distinct := List.pairwise_singleton _ _
  nextId := 0

def storedValue (table : Table keyValueStorage) (position : Nat) : Option (Option Text) :=
  table.rows[position]?.map (· "value".toList)

theorem saved_of_storedValue {object : Object} {table : Table keyValueStorage}
    {stored : Option (Option Text)}
    (run : (object.save [] table).toOption.map (storedValue ·.table 0) = some stored) :
    ∃ saved, object.save [] table = .ok saved ∧ storedValue saved.table 0 = stored := by
  obtain ⟨saved, success, value⟩ := Option.map_eq_some_iff.mp run
  refine ⟨saved, ?_, value⟩
  cases result : object.save [] table with
  | error status =>
    rw [result] at success
    cases success
  | ok other =>
    rw [result] at success
    cases success
    rfl

end PacketFence.Dal
