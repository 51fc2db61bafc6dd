import PacketFence.Foundations.KeyedTable

/-!
# Tables with a trigger

A trigger copies a row when it is changed. A journal is a table with the copies that
were made so far. A statement about one key is seen under that key only, so what a
journal holds under a key, its folder, is a small machine of its own.
-/

namespace PacketFence.Foundations

open List

universe u v w

variable {Row : Type u} {Key : Type v} [DecidableEq Key] {schema : Schema Row Key} {key : Key}
  {new : Row} {change : Row → Row}

namespace Table

variable {table : Table schema} {row : Row}

def row? (table : Table schema) (key : Key) : Option Row :=
  table.rows.find? fun row => schema.key row = key

theorem row?_eq_some_iff : table.row? key = some row ↔ row ∈ table.rows ∧ schema.key row = key := by
  constructor
  · intro found
    exact ⟨mem_of_find?_eq_some found, by simpa using find?_some found⟩
  · rintro ⟨member, same⟩
    cases found : table.row? key with
    | none =>
      have refused := find?_eq_none.mp found row member
      exact absurd same (by simpa using refused)
    | some other =>
      have otherKey : schema.key other = key := by simpa using find?_some found
      rw [inj_on_of_nodup_map table.distinct member (mem_of_find?_eq_some found)
        (same.trans otherKey.symm)]

theorem row?_upsert :
    (table.upsert new).row? key =
      if schema.key new = key then some ((table.row? key).elim new (schema.merge · new))
      else table.row? key := by
  obtain ⟨rows, distinct⟩ := table
  change (schema.upsert new rows).find? _ = _
  unfold row?
  dsimp only
  clear distinct
  induction rows with
  | nil => by_cases same : schema.key new = key <;> simp [Schema.upsert, same]
  | cons old rest ih =>
    unfold Schema.upsert
    by_cases replaced : schema.key old = schema.key new
    · by_cases same : schema.key new = key
      · simp [replaced, same, schema.key_merge]
      · simp [replaced, same, schema.key_merge]
    · rw [if_neg replaced, find?_cons, ih, find?_cons]
      by_cases found : schema.key old = key
      · have other : schema.key new ≠ key := fun same => replaced (found.trans same.symm)
        simp [found, other]
      · simp [found]

theorem row?_update {keeps : ∀ row, schema.key (change row) = schema.key row} :
    (table.update change keeps).row? key = (table.row? key).map change := by
  have same : ((fun row => decide (schema.key row = key)) ∘ change) =
      fun row => decide (schema.key row = key) := by
    funext row
    simp [keeps]
  rw [row?, update, find?_map, same, row?]

end Table

/-- What a trigger copies of a row that becomes another one. -/
abbrev Trigger (Row : Type u) (Copy : Type w) := Row → Row → Option Copy

structure Journal (schema : Schema Row Key) (Copy : Type w) where
  table : Table schema
  copies : List Copy

/-- What a journal holds under one key. -/
@[ext]
structure Folder (Row : Type u) (Copy : Type w) where
  row? : Option Row
  copies : List Copy

namespace Folder

variable {Copy : Type w}

def save (merge : Row → Row → Row) (trigger : Trigger Row Copy) (new : Row)
    (folder : Folder Row Copy) : Folder Row Copy where
  row? := some (folder.row?.elim new (merge · new))
  copies := folder.copies ++ (folder.row?.bind fun old => trigger old (merge old new)).toList

def update (trigger : Trigger Row Copy) (matched : Row → Bool) (change : Row → Row)
    (folder : Folder Row Copy) : Folder Row Copy where
  row? := folder.row?.map fun row => if matched row then change row else row
  copies := folder.copies ++
    ((folder.row?.filter matched).bind fun old => trigger old (change old)).toList

end Folder

namespace Journal

variable {Copy : Type w}

def empty (schema : Schema Row Key) (Copy : Type w) : Journal schema Copy where
  table := .empty schema
  copies := []

/-- `INSERT … ON DUPLICATE KEY UPDATE` -/
def save (trigger : Trigger Row Copy) (new : Row) (journal : Journal schema Copy) :
    Journal schema Copy where
  table := journal.table.upsert new
  copies := journal.copies ++
    ((journal.table.row? (schema.key new)).bind
      fun old => trigger old (schema.merge old new)).toList

/-- `UPDATE … WHERE` the key is the given one and the row is `matched`. -/
def updateKey (trigger : Trigger Row Copy) (key : Key) (matched : Row → Bool)
    (change : Row → Row) (keeps : ∀ row, schema.key (change row) = schema.key row)
    (journal : Journal schema Copy) : Journal schema Copy where
  table := journal.table.update
    (fun row => if schema.key row = key ∧ matched row = true then change row else row)
    (fun row => by split <;> simp only [keeps])
  copies := journal.copies ++
    (((journal.table.row? key).filter matched).bind fun old => trigger old (change old)).toList

def folder (keyOf : Copy → Key) (journal : Journal schema Copy) (key : Key) :
    Folder Row Copy where
  row? := journal.table.row? key
  copies := journal.copies.filter fun copy => keyOf copy = key

def Files (schema : Schema Row Key) (keyOf : Copy → Key) (trigger : Trigger Row Copy) : Prop :=
  ∀ old new copy, trigger old new = some copy → keyOf copy = schema.key old

variable {journal : Journal schema Copy} {keyOf : Copy → Key} {trigger : Trigger Row Copy}
  {other : Key} {matched : Row → Bool}

section Filed

theorem filter_copies {made : Option Copy} (filed : ∀ copy ∈ made, keyOf copy = key) :
    made.toList.filter (fun copy => decide (keyOf copy = other)) =
      if key = other then made.toList else [] := by
  cases made with
  | none => simp
  | some copy =>
    have isKey : keyOf copy = key := filed copy rfl
    by_cases same : key = other <;> simp [isKey, same]

omit [DecidableEq Key] in
theorem filed_of_rows (files : Files schema keyOf trigger) {found : Option Row}
    (next : Row → Row) (isRow : ∀ row ∈ found, schema.key row = key) :
    ∀ copy ∈ found.bind fun old => trigger old (next old), keyOf copy = key := by
  intro copy made
  obtain ⟨old, member, triggered⟩ := Option.bind_eq_some_iff.mp made
  rw [files old _ copy triggered, isRow old member]

theorem key_of_row? {row : Row} (found : row ∈ journal.table.row? key) : schema.key row = key :=
  (Table.row?_eq_some_iff.mp found).2

end Filed

theorem folder_save (files : Files schema keyOf trigger) :
    (journal.save trigger new).folder keyOf key =
      if schema.key new = key then (journal.folder keyOf key).save schema.merge trigger new
      else journal.folder keyOf key := by
  have filed := filed_of_rows files (schema.merge · new)
    fun row (found : row ∈ journal.table.row? (schema.key new)) => key_of_row? found
  by_cases same : schema.key new = key
  · rw [if_pos same]
    ext1
    · simp [folder, save, Folder.save, Table.row?_upsert, same]
    · simp only [folder, save, Folder.save, filter_append, filter_copies filed]
      rw [if_pos same, ← same]
  · rw [if_neg same]
    ext1
    · simp [folder, save, Table.row?_upsert, same]
    · simp only [folder, save, filter_append, filter_copies filed]
      rw [if_neg same, append_nil]

theorem folder_updateKey (files : Files schema keyOf trigger)
    (keeps : ∀ row, schema.key (change row) = schema.key row) :
    (journal.updateKey trigger other matched change keeps).folder keyOf key =
      if other = key then (journal.folder keyOf key).update trigger matched change
      else journal.folder keyOf key := by
  have filed := filed_of_rows files change
    fun row (found : row ∈ (journal.table.row? other).filter matched) =>
      key_of_row? (Option.filter_eq_some_iff.mp found).1
  by_cases same : other = key
  · rw [if_pos same]
    subst same
    ext1
    · simp only [folder, updateKey, Folder.update, Table.row?_update]
      refine Option.map_congr fun row found => ?_
      simp [key_of_row? found]
    · simp only [folder, updateKey, Folder.update, filter_append, filter_copies filed]
      rw [if_pos trivial]
  · rw [if_neg same]
    ext1
    · simp only [folder, updateKey, Table.row?_update]
      refine (Option.map_congr fun row found => ?_).trans Option.map_id'
      have different : schema.key row ≠ other := fun equal =>
        same (equal.symm.trans (key_of_row? found))
      simp [different]
    · simp only [folder, updateKey, filter_append, filter_copies filed]
      rw [if_neg same, append_nil]

end Journal

end PacketFence.Foundations
