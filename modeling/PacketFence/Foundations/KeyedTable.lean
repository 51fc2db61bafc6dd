import Mathlib.Algebra.Ring.Int.Defs
import Mathlib.Algebra.Ring.Nat
import Mathlib.Algebra.BigOperators.Group.List.Basic
import Mathlib.Data.List.Perm.Subperm
import Mathlib.Data.List.Sort

/-!
# Tables with a primary key

A table is a list of rows with distinct keys. Rows are merged into it, which
is both `GROUP BY` and `ON DUPLICATE KEY UPDATE`, and removed from it by key.
What is proved is how these change the total of a weight of the rows.
-/

namespace PacketFence.Foundations

open List

universe u v w

theorem sum_filter_map {Row : Type u} {Weight : Type w} [AddCommMonoid Weight]
    (wanted : Row → Bool) (weight : Row → Weight) (rows : List Row) :
    ((rows.filter wanted).map weight).sum =
      (rows.map fun row => if wanted row then weight row else 0).sum := by
  rw [sum_map_ite (fun row => wanted row = true), map_const', sum_replicate, nsmul_zero, add_zero]
  simp

structure Schema (Row : Type u) (Key : Type v) where
  key : Row → Key
  merge : Row → Row → Row
  key_merge : ∀ old new, key (merge old new) = key old

namespace Schema

variable {Row : Type u} {Key : Type v} [DecidableEq Key]

def upsert (schema : Schema Row Key) (new : Row) : List Row → List Row
  | [] => [new]
  | old :: rest =>
    if schema.key old = schema.key new then schema.merge old new :: rest
    else old :: upsert schema new rest

variable {schema : Schema Row Key} {new row : Row} {rows : List Row}

theorem key_mem_upsert {key : Key} :
    key ∈ (schema.upsert new rows).map schema.key ↔
      key ∈ rows.map schema.key ∨ key = schema.key new := by
  induction rows with
  | nil => simp [upsert]
  | cons old rest ih =>
    unfold upsert
    split
    next same =>
      simp only [map_cons, schema.key_merge, mem_cons, same]
      tauto
    · rw [map_cons, mem_cons, ih, map_cons, mem_cons, or_assoc]

theorem distinct_upsert (distinct : (rows.map schema.key).Nodup) :
    ((schema.upsert new rows).map schema.key).Nodup := by
  induction rows with
  | nil => simp [upsert]
  | cons old rest ih =>
    obtain ⟨fresh, others⟩ := nodup_cons.mp distinct
    unfold upsert
    split
    next same => exact nodup_cons.mpr ⟨by rwa [schema.key_merge], others⟩
    next different =>
      refine nodup_cons.mpr ⟨?_, ih others⟩
      rw [key_mem_upsert]
      rintro (later | same)
      · exact fresh later
      · exact different same

theorem mem_upsert_of_ne (present : row ∈ rows) (different : schema.key row ≠ schema.key new) :
    row ∈ schema.upsert new rows := by
  induction rows with
  | nil => simp at present
  | cons old rest ih =>
    unfold upsert
    split
    next same =>
      rcases mem_cons.mp present with rfl | later
      · exact absurd same different
      · exact mem_cons_of_mem _ later
    · rcases mem_cons.mp present with rfl | later
      · exact mem_cons_self
      · exact mem_cons_of_mem _ (ih later)

theorem upsert_of_notMem (absent : schema.key new ∉ rows.map schema.key) :
    schema.upsert new rows = rows ++ [new] := by
  induction rows with
  | nil => rfl
  | cons old rest ih =>
    rw [map_cons, mem_cons, not_or] at absent
    rw [upsert, if_neg (Ne.symm absent.1), ih absent.2, cons_append]

def AdditiveAt {Weight : Type w} [Add Weight] (schema : Schema Row Key)
    (weight : Row → Weight) (key : Key) : Prop :=
  ∀ old new, schema.key old = key → schema.key new = key →
    weight (schema.merge old new) = weight old + weight new

theorem sum_upsert {Weight : Type w} [AddCommMonoid Weight] {weight : Row → Weight}
    (additive : schema.AdditiveAt weight (schema.key new)) :
    ((schema.upsert new rows).map weight).sum = (rows.map weight).sum + weight new := by
  induction rows with
  | nil => simp [upsert]
  | cons old rest ih =>
    unfold upsert
    split
    next same =>
      rw [map_cons, sum_cons, additive old new same rfl, map_cons, sum_cons, add_right_comm]
    · rw [map_cons, sum_cons, ih, map_cons, sum_cons, add_assoc]

/-- Merging that takes the weight of the new row: what the other keys weigh is kept. -/
theorem sum_upsert_of_replaces {Weight : Type w} [AddCommMonoid Weight] {weight : Row → Weight}
    (distinct : (rows.map schema.key).Nodup) (replaces : ∀ old, schema.key old = schema.key new →
      weight (schema.merge old new) = weight new) :
    ((schema.upsert new rows).map weight).sum =
      ((rows.filter fun row => !decide (schema.key row = schema.key new)).map weight).sum +
        weight new := by
  induction rows with
  | nil => simp [upsert]
  | cons old rest ih =>
    obtain ⟨fresh, others⟩ := nodup_cons.mp distinct
    unfold upsert
    split
    next same =>
      have kept : rest.filter (fun row => !decide (schema.key row = schema.key new)) = rest := by
        refine filter_eq_self.mpr fun row later => ?_
        have different : schema.key row ≠ schema.key new := fun equal =>
          fresh (mem_map.mpr ⟨row, later, equal.trans same.symm⟩)
        simpa using different
      rw [filter_cons_of_neg (by simp [same]), kept, map_cons, sum_cons,
        replaces old same, add_comm]
    next different =>
      rw [filter_cons_of_pos (by simp [different]), map_cons, sum_cons,
        ih others, map_cons, sum_cons, add_assoc]

theorem mem_upsert_iff_of_replaces (distinct : (rows.map schema.key).Nodup)
    (replaces : ∀ old, schema.key old = schema.key new → schema.merge old new = new) :
    row ∈ schema.upsert new rows ↔ row = new ∨ row ∈ rows ∧ schema.key row ≠ schema.key new := by
  induction rows with
  | nil => simp [upsert]
  | cons old rest ih =>
    obtain ⟨fresh, others⟩ := nodup_cons.mp distinct
    unfold upsert
    split
    next same =>
      have elsewhere : ∀ row ∈ rest, schema.key row ≠ schema.key new := by
        intro row member equal
        exact fresh (mem_map.mpr ⟨row, member, equal.trans same.symm⟩)
      rw [replaces old same, mem_cons, mem_cons]
      constructor
      · rintro (rfl | later)
        · exact .inl rfl
        · exact .inr ⟨.inr later, elsewhere row later⟩
      · rintro (rfl | ⟨rfl | later, different⟩)
        · exact .inl rfl
        · exact absurd same different
        · exact .inr later
    next different =>
      rw [mem_cons, ih others, mem_cons]
      constructor
      · rintro (rfl | rfl | ⟨later, elsewhere⟩)
        · exact .inr ⟨.inl rfl, different⟩
        · exact .inl rfl
        · exact .inr ⟨.inr later, elsewhere⟩
      · rintro (rfl | ⟨rfl | later, elsewhere⟩)
        · exact .inr (.inl rfl)
        · exact .inl rfl
        · exact .inr (.inr ⟨later, elsewhere⟩)

theorem forall_mem_upsert {property : Row → Prop} (all : ∀ row ∈ rows, property row)
    (fresh : property new) (closed : ∀ old, property old → property (schema.merge old new)) :
    ∀ row ∈ schema.upsert new rows, property row := by
  induction rows with
  | nil => simpa [upsert] using fresh
  | cons old rest ih =>
    obtain ⟨first, others⟩ := forall_mem_cons.mp all
    unfold upsert
    split
    · exact forall_mem_cons.mpr ⟨closed old first, others⟩
    · exact forall_mem_cons.mpr ⟨first, ih others⟩

end Schema

structure Table {Row : Type u} {Key : Type v} (schema : Schema Row Key) where
  rows : List Row
  distinct : (rows.map schema.key).Nodup

structure Scan (Row : Type u) where
  order : List Row → List Row
  perm : ∀ rows, (order rows).Perm rows

namespace Scan

variable {Row : Type u}

/-- `ORDER BY`, where the given order decides between equals. -/
def sortedBy (scan : Scan Row) (before : Row → Row → Prop) [DecidableRel before] :
    Scan Row where
  order := fun rows => (scan.order rows).insertionSort before
  perm := fun rows => (List.perm_insertionSort before _).trans (scan.perm rows)

def inOrder : Scan Row where
  order := id
  perm := fun _ => .refl _

end Scan

namespace Table

variable {Row : Type u} {Key : Type v} {schema : Schema Row Key}

def select (table : Table schema) (scan : Scan Row) (wanted : Row → Bool) (limit : Nat) :
    List Row :=
  ((scan.order table.rows).filter wanted).take limit

variable {table : Table schema} {scan : Scan Row} {wanted : Row → Bool} {limit : Nat} {row : Row}

theorem select_sublist :
    (table.select scan wanted limit).Sublist ((scan.order table.rows).filter wanted) :=
  take_sublist _ _

theorem mem_of_mem_select (chosen : row ∈ table.select scan wanted limit) :
    row ∈ table.rows ∧ wanted row = true := by
  have visited := mem_filter.mp (select_sublist.subset chosen)
  exact ⟨(scan.perm _).mem_iff.mp visited.1, visited.2⟩

theorem distinct_select : ((table.select scan wanted limit).map schema.key).Nodup := by
  have visited : ((scan.order table.rows).map schema.key).Nodup :=
    ((scan.perm _).map _).nodup_iff.mpr table.distinct
  exact ((select_sublist.trans filter_sublist).map _).nodup visited

theorem length_select :
    (table.select scan wanted limit).length = min limit (table.rows.countP wanted) := by
  rw [select, length_take, ← countP_eq_length_filter, (scan.perm _).countP_eq]

def total {Weight : Type w} [AddCommMonoid Weight] (table : Table schema)
    (weight : Row → Weight) : Weight :=
  (table.rows.map weight).sum

theorem total_indicator :
    table.total (fun row => if wanted row then 1 else 0) = table.rows.countP wanted := by
  rw [total]
  induction table.rows with
  | nil => rfl
  | cons first rest ih => rw [map_cons, sum_cons, ih, countP_cons, add_comm]

variable [DecidableEq Key]

def empty (schema : Schema Row Key) : Table schema where
  rows := []
  distinct := List.nodup_nil

def upsert (table : Table schema) (new : Row) : Table schema where
  rows := schema.upsert new table.rows
  distinct := Schema.distinct_upsert table.distinct

def upsertAll (table : Table schema) (new : List Row) : Table schema :=
  new.foldl upsert table

/-- `GROUP BY` the key. -/
def group (schema : Schema Row Key) (rows : List Row) : Table schema :=
  (empty schema).upsertAll rows

/-- `INSERT … SELECT … GROUP BY … ON DUPLICATE KEY UPDATE` -/
def insertGrouped (table : Table schema) (new : List Row) : Table schema :=
  table.upsertAll (group schema new).rows

def update (table : Table schema) (change : Row → Row)
    (keeps : ∀ row, schema.key (change row) = schema.key row) : Table schema where
  rows := table.rows.map change
  distinct := by
    have same : schema.key ∘ change = schema.key := funext keeps
    rw [List.map_map, same]
    exact table.distinct

def delete (table : Table schema) (keys : List Key) : Table schema where
  rows := table.rows.filter fun row => !decide (schema.key row ∈ keys)
  distinct := (List.filter_sublist.map schema.key).nodup table.distinct

variable {new picked : List Row} {row : Row}

@[simp]
theorem upsertAll_cons : table.upsertAll (row :: new) = (table.upsert row).upsertAll new := rfl

theorem key_mem_upsertAll {key : Key} :
    key ∈ (table.upsertAll new).rows.map schema.key ↔
      key ∈ table.rows.map schema.key ∨ key ∈ new.map schema.key := by
  induction new generalizing table with
  | nil => simp [upsertAll]
  | cons first rest ih =>
    rw [upsertAll_cons, ih, upsert, Schema.key_mem_upsert, map_cons, mem_cons, or_assoc]

@[simp] theorem key_mem_group {key : Key} :
    key ∈ (group schema new).rows.map schema.key ↔ key ∈ new.map schema.key := by
  rw [group, key_mem_upsertAll]
  simp [empty]

theorem mem_upsertAll_of_notMem (present : row ∈ table.rows)
    (untouched : schema.key row ∉ new.map schema.key) : row ∈ (table.upsertAll new).rows := by
  induction new generalizing table with
  | nil => exact present
  | cons first rest ih =>
    rw [map_cons, mem_cons, not_or] at untouched
    exact ih (Schema.mem_upsert_of_ne present untouched.1) untouched.2

section Forall

variable {property : Row → Prop}
  (closed : ∀ old new, property old → property new → property (schema.merge old new))

include closed

theorem forall_mem_upsertAll (all : ∀ row ∈ table.rows, property row)
    (fresh : ∀ row ∈ new, property row) : ∀ row ∈ (table.upsertAll new).rows, property row := by
  induction new generalizing table with
  | nil => exact all
  | cons first rest ih =>
    obtain ⟨firstFresh, restFresh⟩ := forall_mem_cons.mp fresh
    refine ih ?_ restFresh
    exact Schema.forall_mem_upsert all firstFresh fun old held => closed old first held firstFresh

theorem forall_mem_insertGrouped (all : ∀ row ∈ table.rows, property row)
    (fresh : ∀ row ∈ new, property row) : ∀ row ∈ (table.insertGrouped new).rows, property row :=
  forall_mem_upsertAll closed all
    (forall_mem_upsertAll closed (fun _ absent => absurd absent not_mem_nil) fresh)

end Forall

theorem filter_key_perm (present : ∀ row ∈ picked, row ∈ table.rows)
    (distinct : (picked.map schema.key).Nodup) :
    (table.rows.filter fun row => schema.key row ∈ picked.map schema.key).Perm picked := by
  have injective := inj_on_of_nodup_map table.distinct
  refine (perm_ext_iff_of_nodup (table.distinct.of_map _ |>.filter _)
    (distinct.of_map _)).mpr fun row => ?_
  rw [mem_filter, decide_eq_true_eq, mem_map]
  constructor
  · rintro ⟨member, other, chosen, same⟩
    rwa [← injective (present other chosen) member same]
  · exact fun chosen => ⟨present row chosen, row, chosen, rfl⟩

variable (settle : Row → Row) (settled : Key → Prop)

section Total

variable {Weight : Type w} [AddCommMonoid Weight] {weight : Row → Weight}

theorem total_upsertAll (additive : ∀ key ∈ new.map schema.key, schema.AdditiveAt weight key) :
    (table.upsertAll new).total weight = table.total weight + (new.map weight).sum := by
  induction new generalizing table with
  | nil => simp [upsertAll]
  | cons first rest ih =>
    rw [map_cons, forall_mem_cons] at additive
    have first_added : (table.upsert first).total weight =
        table.total weight + weight first := Schema.sum_upsert additive.1
    rw [upsertAll_cons, ih additive.2, first_added, map_cons, sum_cons, add_assoc]

theorem total_insertGrouped (additive : ∀ key ∈ new.map schema.key, schema.AdditiveAt weight key) :
    (table.insertGrouped new).total weight = table.total weight + (new.map weight).sum := by
  have grouped : (group schema new).total weight = (new.map weight).sum := by
    rw [group, total_upsertAll additive]
    simp [empty, total]
  rw [insertGrouped, total_upsertAll fun key member => additive key (key_mem_group.mp member)]
  exact congrArg _ grouped

theorem total_delete (present : ∀ row ∈ picked, row ∈ table.rows)
    (distinct : (picked.map schema.key).Nodup) :
    (table.delete (picked.map schema.key)).total weight + (picked.map weight).sum =
      table.total weight := by
  have split := filter_append_perm (fun row => schema.key row ∈ picked.map schema.key) table.rows
  have removed := filter_key_perm present distinct
  have whole := (split.map weight).sum_eq
  rw [map_append, sum_append, (removed.map weight).sum_eq, add_comm] at whole
  simpa [total, delete] using whole

theorem countP_delete_picked (present : ∀ row ∈ picked, row ∈ table.rows)
    (distinct : (picked.map schema.key).Nodup) (kind : Row → Bool) :
    (table.delete (picked.map schema.key)).rows.countP kind + picked.countP kind =
      table.rows.countP kind := by
  have split := filter_append_perm (fun row => schema.key row ∈ picked.map schema.key) table.rows
  have removed := (filter_key_perm present distinct).countP_eq kind
  have whole := split.countP_eq kind
  rw [countP_append, removed, Nat.add_comm] at whole
  simpa [delete] using whole

/-- Selected rows are replaced by settled ones: their weight goes and the weight
of the settled rows comes. Rows that are settled are not selected. -/
theorem total_settle (unsettled : ∀ row, wanted row = true → ¬ settled (schema.key row))
    (settles : ∀ row, wanted row = true → settled (schema.key (settle row)))
    (additive : ∀ key, settled key → schema.AdditiveAt weight key)
    (selected : picked = table.select scan wanted limit) :
    ((table.insertGrouped (picked.map settle)).delete
        (picked.map schema.key)).total weight + (picked.map weight).sum =
      table.total weight + ((picked.map settle).map weight).sum := by
  have chosen : ∀ row ∈ picked, row ∈ table.rows ∧ wanted row = true := by
    rintro row member
    exact mem_of_mem_select (selected ▸ member)
  have closed : ∀ key ∈ (picked.map settle).map schema.key, settled key := by
    simp only [mem_map, forall_exists_index, and_imp, forall_apply_eq_imp_iff₂]
    exact fun row member => settles row (chosen row member).2
  rw [total_delete _ (selected ▸ distinct_select),
    total_insertGrouped fun key member => additive key (closed key member)]
  intro row member
  refine mem_upsertAll_of_notMem (chosen row member).1 ?_
  rw [key_mem_group]
  exact fun same => unsettled row (chosen row member).2 (closed _ same)

end Total

theorem sum_indicator (chosen : ∀ row ∈ picked, wanted row = true) :
    (picked.map fun row => if wanted row then 1 else 0).sum = picked.length := by
  rw [map_congr_left fun row member => if_pos (chosen row member),
    map_const', sum_replicate, Nat.nsmul_eq_mul, mul_one]

theorem countP_delete (selected : picked = table.select scan wanted limit) :
    (table.delete (picked.map schema.key)).rows.countP wanted + picked.length =
      table.rows.countP wanted := by
  subst selected
  rw [← total_indicator, ← total_indicator, ← sum_indicator fun row chosen =>
    (mem_of_mem_select chosen).2]
  exact total_delete (fun row chosen => (mem_of_mem_select chosen).1) distinct_select

theorem countP_settle (unsettled : ∀ row, wanted row = true → ¬ settled (schema.key row))
    (settles : ∀ row, wanted row = true → settled (schema.key (settle row)))
    (selected : picked = table.select scan wanted limit) :
    ((table.insertGrouped (picked.map settle)).delete
        (picked.map schema.key)).rows.countP wanted + picked.length = table.rows.countP wanted := by
  have chosen : ∀ row ∈ picked, wanted row = true := fun row member =>
    (mem_of_mem_select (selected ▸ member)).2
  have zero : ∀ row, settled (schema.key row) → (if wanted row then 1 else 0) = 0 := by
    intro row closed
    exact if_neg fun isWanted => unsettled row isWanted closed
  have additive : ∀ key, settled key →
      schema.AdditiveAt (fun row => if wanted row then 1 else 0) key := by
    rintro key closed old new rfl same
    dsimp only
    rw [zero _ closed, zero new (same ▸ closed),
      zero (schema.merge old new) (schema.key_merge old new ▸ closed)]
  have replaced := total_settle settle settled unsettled settles additive selected
  have nothing : ((picked.map settle).map fun row => if wanted row then 1 else 0).sum = 0 := by
    rw [map_map]
    refine sum_eq_zero fun weight member => ?_
    obtain ⟨row, present, rfl⟩ := mem_map.mp member
    exact zero _ (settles row (chosen row present))
  rwa [nothing, add_zero, sum_indicator chosen, total_indicator, total_indicator] at replaced

end Table

/-! ### `UPDATE … WHERE`

What an update does to the rows of one kind follows from what the change does to a row. -/

variable {Row : Type u}

def updateWhere (wanted : Row → Bool) (change : Row → Row) (rows : List Row) : List Row :=
  rows.map fun row => if wanted row then change row else row

variable {wanted kind : Row → Bool} {change : Row → Row} {rows : List Row} {row : Row}

theorem updateWhere_of_unwanted (unwanted : ∀ row ∈ rows, wanted row = false) :
    updateWhere wanted change rows = rows := by
  refine (map_congr_left fun row present => ?_).trans (map_id rows)
  rw [unwanted row present]
  rfl

theorem updateWhere_singleton (isWanted : wanted row = true) :
    updateWhere wanted change [row] = [change row] := by
  rw [updateWhere, map_singleton, if_pos isWanted]

theorem length_updateWhere : (updateWhere wanted change rows).length = rows.length :=
  length_map ..

theorem filter_updateWhere (keeps : ∀ row, kind (change row) = kind row) :
    (updateWhere wanted change rows).filter kind =
      updateWhere wanted change (rows.filter kind) := by
  have kept : (kind ∘ fun row => if wanted row then change row else row) = kind := by
    funext row
    rw [Function.comp_apply]
    split
    · exact keeps row
    · rfl
  rw [updateWhere, filter_map, kept]
  rfl

theorem filter_updateWhere_eq_nil (covered : ∀ row, kind row = true → wanted row = true)
    (leaves : ∀ row, kind (change row) = false) :
    (updateWhere wanted change rows).filter kind = [] := by
  refine filter_eq_nil_iff.mpr fun changed member => ?_
  obtain ⟨row, _, rfl⟩ := mem_map.mp member
  split
  · rw [leaves row]; exact Bool.false_ne_true
  next unwanted => exact fun isKind => unwanted (covered row isKind)

end PacketFence.Foundations
