import Mathlib.Data.List.Sort
import PacketFence.ConfigStore.ReadBack

/-!
# Ordered lists of filters

The actions and answers of a filter are stored as numbered parameters of its section. An
update deletes those that are there and sets those of the new list, and a list is read
from all numbered parameters in the order of their numbers. A default that was deleted
comes back when the file is written and read again, so a list becomes longer than the one
that was stored if the defaults have more numbers.
-/

namespace PacketFence.ConfigStore

open Foundations Lexing List Nat

/-! ### Numbered parameters -/

inductive OrderedArray
  | actions
  | answers
  | params
  deriving DecidableEq

def OrderedArray.itemKey : OrderedArray → Text
  | .actions => "action".toList
  | .answers => "answer".toList
  | .params => "param".toList

inductive FilterKind
  | vlan
  | dns
  | radius
  | switch
  | dhcp

def FilterKind.orderedArrays : FilterKind → List OrderedArray
  | .vlan => [.actions]
  | .dns => [.actions]
  | .radius => [.answers]
  | .switch => [.params]
  | .dhcp => [.actions, .answers]

namespace OrderedArray

variable (array : OrderedArray)

def stem : Text := array.itemKey ++ ['.']

def numberedKey (i : Nat) : Text := array.stem ++ toDigits 10 i

/-- The number of a key that matches `/^\Q$item_key\E\.\d+$/`. -/
def number? (key : Text) : Option Nat :=
  if array.stem.isPrefixOf key then
    (captureLine? (key.drop array.stem.length)).bind fun digits =>
      if digits ≠ [] ∧ digits.all Char.isDigit then some (ofDigitChars 10 digits 0) else none
  else
    none

def isNumbered (key : Text) : Bool := (array.number? key).isSome

/-- The order of `nsort` on keys that differ in their numbers only. -/
def numbersLe (first second : Text) : Prop :=
  (array.number? first).getD 0 ≤ (array.number? second).getD 0

instance (array : OrderedArray) : DecidableRel array.numbersLe :=
  fun first second =>
    inferInstanceAs (Decidable ((array.number? first).getD 0 ≤ (array.number? second).getD 0))

/-- `flatten_to_ordered_array` -/
def flatten (items : List Text) (fields : Assignments) : Assignments :=
  items.zipIdx.foldl
    (fun fields entry => fields.insert (array.numberedKey entry.2) (some entry.1)) fields

/-- `expand_ordered_array` -/
def expand (data : Hash Text Text) : List Text :=
  let keys := (data.keys.filter array.isNumbered).insertionSort array.numbersLe
  keys.map fun key => (data.lookup key).getD []

end OrderedArray

/-! ### The store -/

structure FilterItem where
  fields : Assignments
  items : OrderedArray → List Text

namespace FilterKind

def cleanupBeforeCommit (kind : FilterKind) (item : FilterItem) : Assignments :=
  kind.orderedArrays.foldl (fun fields array => array.flatten (item.items array) fields)
    item.fields

/-- `any { $p =~ /^\Q$_->[1]\E\./ } @array_items` -/
def ofArray (kind : FilterKind) (param : Text) : Bool :=
  kind.orderedArrays.any fun array => array.stem.isPrefixOf param

def deleteArrays (kind : FilterKind) (name : Text) (file : File) : File :=
  (file.parameters name).foldl
    (fun file param _ => if kind.ofArray param then file.delval name param else file) file

/-- `_update_section`. Filters have no default section to inherit from. -/
def updateSection (kind : FilterKind) (store : Store) (name : Text) (assignments : Assignments) :
    Store :=
  { store with
    file := assignments.foldl (updateParameter store.imported name none)
      (kind.deleteArrays name store.file) }

def update (kind : FilterKind) (store : Store) (id : Text) (item : FilterItem) : Store × Bool :=
  if id = "all".toList then (store, false)
  else if store.file.sectionExists id then
    (kind.updateSection store id (kind.cleanupBeforeCommit item), true)
  else
    (store, false)

end FilterKind

def Store.readItems (store : Store) (id : Text) (array : OrderedArray) : Option (List Text) :=
  if store.file.sectionExists id then some (array.expand (store.file.parameters id)) else none

variable {array : OrderedArray} {kind : FilterKind} {store : Store} {key id : Text} {i : Nat}
  {items : List Text} {fields : Assignments}

/-! ### Numbers and keys -/

namespace OrderedArray

variable {other : OrderedArray} {j : Nat}

theorem number?_numberedKey (array : OrderedArray) (i : Nat) :
    array.number? (array.numberedKey i) = some i := by
  have digits : ∀ digit ∈ toDigits 10 i, digit.isDigit = true := fun digit member =>
    isDigit_of_mem_toDigits (by decide) (by decide) member
  have single : '\n' ∉ toDigits 10 i := fun member => absurd (digits _ member) (by decide)
  have nonempty : toDigits 10 i ≠ [] := toDigits_ne_nil
  unfold number? numberedKey
  rw [if_pos ( isPrefixOf_iff_prefix.mpr (prefix_append _ _)), drop_left,
    captureLine?_of_notMem single, Option.bind_some,
    if_pos ⟨nonempty, all_eq_true.mpr digits⟩, ofDigitChars_ten_toDigits]

theorem numberedKey_injective (same : array.numberedKey i = array.numberedKey j) : i = j := by
  have numbers := congrArg array.number? same
  rw [number?_numberedKey, number?_numberedKey] at numbers
  exact Option.some.inj numbers

theorem stem_prefix_of_isNumbered (numbered : array.isNumbered key = true) :
    array.stem <+: key := by
  unfold isNumbered number? at numbered
  split at numbered
  next begins => exact isPrefixOf_iff_prefix.mp begins
  · cases numbered

theorem numberedKey_ne (different : other ≠ array) (numbered : array.isNumbered key = true) :
    key ≠ other.numberedKey i := by
  rintro rfl
  have begins := stem_prefix_of_isNumbered numbered
  have own : other.stem <+: other.numberedKey i := prefix_append _ _
  have either := prefix_or_prefix_of_prefix begins own
  revert different either
  cases array <;> cases other <;> decide

/-! ### Flattening and expanding -/

/-- The key of none of the items of a list of this length. -/
def IsExtra (array : OrderedArray) (length : Nat) (key : Text) : Prop :=
  array.isNumbered key = true ∧ ∀ i < length, key ≠ array.numberedKey i

variable {item : Text}

theorem lookup_flattenFrom_of_ne {start : Nat}
    (apart : ∀ i < items.length, key ≠ array.numberedKey (start + i)) :
    ((items.zipIdx start).foldl
      (fun fields entry => fields.insert (array.numberedKey entry.2) (some entry.1))
      fields).lookup key = fields.lookup key := by
  induction items generalizing start fields with
  | nil => rfl
  | cons first items ih =>
    have here : key ≠ array.numberedKey start := apart 0 (zero_lt_succ _)
    rw [zipIdx_cons, foldl_cons, ih fun i small => ?_, AList.lookup_insert_ne here]
    rw [Nat.add_assoc, Nat.add_comm 1]
    exact apart (i + 1) (succ_lt_succ small)

theorem lookup_flattenFrom {start : Nat} (present : items[i]? = some item) :
    ((items.zipIdx start).foldl
      (fun fields entry => fields.insert (array.numberedKey entry.2) (some entry.1))
      fields).lookup (array.numberedKey (start + i)) = some (some item) := by
  induction items generalizing start fields i with
  | nil => cases present
  | cons first items ih =>
    rw [zipIdx_cons, foldl_cons]
    cases i with
    | zero =>
      cases present
      rw [lookup_flattenFrom_of_ne fun i _ same => ?_]
      · exact AList.lookup_insert _
      · have numbers := numberedKey_injective same
        omega
    | succ i =>
      rw [Nat.add_comm i, ← Nat.add_assoc]
      exact ih present

theorem lookup_flatten_of_ne (apart : ∀ i < items.length, key ≠ array.numberedKey i) :
    (array.flatten items fields).lookup key = fields.lookup key :=
  lookup_flattenFrom_of_ne fun i small => by rw [Nat.zero_add]; exact apart i small

theorem lookup_flatten (present : items[i]? = some item) :
    (array.flatten items fields).lookup (array.numberedKey i) = some (some item) := by
  rw [← Nat.zero_add i]
  exact lookup_flattenFrom present

section Expand

variable {data : Hash Text Text}

def ownKeys (array : OrderedArray) (length : Nat) : List Text :=
  (List.range length).map array.numberedKey

theorem nodup_ownKeys (array : OrderedArray) (length : Nat) : (array.ownKeys length).Nodup :=
  nodup_range.map fun _ _ => numberedKey_injective

theorem isExtra_or_mem_ownKeys {length : Nat} (numbered : array.isNumbered key = true) :
    array.IsExtra length key ∨ key ∈ array.ownKeys length := by
  by_cases member : key ∈ array.ownKeys length
  · exact .inr member
  · refine .inl ⟨numbered, fun i small same => member ?_⟩
    exact mem_map.mpr ⟨i, mem_range.mpr small, same.symm⟩

theorem insertionSort_eq_ownKeys {keys : List Text} {length : Nat}
    (permuted : keys.Perm (array.ownKeys length)) :
    keys.insertionSort array.numbersLe = array.ownKeys length := by
  have : Std.Total array.numbersLe := ⟨fun first second => le_total _ _⟩
  have : IsTrans Text array.numbersLe := ⟨fun _ _ _ => le_trans⟩
  have same := (perm_insertionSort array.numbersLe keys).trans permuted
  have ordered : (array.ownKeys length).Pairwise array.numbersLe := by
    refine pairwise_map.mpr (pairwise_lt_range.imp fun less => ?_)
    rw [numbersLe, number?_numberedKey, number?_numberedKey]
    exact le_of_lt less
  refine same.eq_of_pairwise (fun first second isFirst isSecond le ge => ?_)
    (pairwise_insertionSort _ _) ordered
  obtain ⟨i, _, rfl⟩ := mem_map.mp (same.mem_iff.mp isFirst)
  obtain ⟨j, _, rfl⟩ := mem_map.mp isSecond
  rw [numbersLe, number?_numberedKey, number?_numberedKey] at le ge
  exact congrArg array.numberedKey (le_antisymm le ge)

variable (stored : ∀ i item, items[i]? = some item →
  data.lookup (array.numberedKey i) = some item)

include stored

theorem ownKeys_subset : array.ownKeys items.length ⊆ data.keys.filter array.isNumbered := by
  intro key member
  obtain ⟨i, small, rfl⟩ := mem_map.mp member
  have found := stored i _ (getElem?_eq_getElem (mem_range.mp small))
  refine mem_filter.mpr ⟨AList.lookup_isSome.mp (by rw [found]; rfl), ?_⟩
  rw [isNumbered, number?_numberedKey]
  rfl

theorem expand_eq (only : ∀ key, array.IsExtra items.length key → data.lookup key = none) :
    array.expand data = items := by
  have keys : (data.keys.filter array.isNumbered).Perm (array.ownKeys items.length) := by
    refine (perm_ext_iff_of_nodup (data.nodupKeys.filter _) (array.nodup_ownKeys _)).mpr
      fun key => ⟨fun member => ?_, fun member => ownKeys_subset stored member⟩
    obtain ⟨present, numbered⟩ := mem_filter.mp member
    refine (isExtra_or_mem_ownKeys numbered).resolve_left fun extra => ?_
    exact AList.lookup_eq_none.mp (only key extra) present
  have sorted : (data.keys.filter array.isNumbered).insertionSort array.numbersLe =
      array.ownKeys items.length := insertionSort_eq_ownKeys keys
  rw [expand, sorted, ownKeys, map_map]
  refine ext_getElem (by simp) fun i _ small => ?_
  rw [getElem_map, getElem_range, Function.comp_apply, stored i _ (getElem?_eq_getElem small)]
  rfl

theorem lookup_eq_none_of_expand_eq (read : array.expand data = items)
    (extra : array.IsExtra items.length key) : data.lookup key = none := by
  rw [AList.lookup_eq_none]
  intro present
  have fresh : key ∉ array.ownKeys items.length := by
    intro member
    obtain ⟨i, small, same⟩ := mem_map.mp member
    exact extra.2 i (mem_range.mp small) same.symm
  have within : key :: array.ownKeys items.length ⊆ data.keys.filter array.isNumbered :=
    cons_subset.mpr ⟨mem_filter.mpr ⟨present, extra.1⟩, ownKeys_subset stored⟩
  have longer : items.length + 1 ≤ (data.keys.filter array.isNumbered).length := by
    have counted := (subperm_of_subset
      (nodup_cons.mpr ⟨fresh, array.nodup_ownKeys _⟩) within).length_le
    rw [length_cons, ownKeys, length_map, List.length_range] at counted
    exact counted
  have length := congrArg List.length read
  rw [expand, length_map, length_insertionSort] at length
  omega

end Expand

end OrderedArray

/-! ### Updating -/

namespace FilterKind

variable {file : File} {name param : Text} {item : FilterItem} {text : Text}

theorem lookup_foldl_flatten_of_ne {arrays : List OrderedArray}
    (numbered : array.isNumbered key = true)
    (apart : array ∈ arrays → ∀ i < (item.items array).length, key ≠ array.numberedKey i) :
    (arrays.foldl (fun fields array => array.flatten (item.items array) fields) fields).lookup
      key = fields.lookup key := by
  induction arrays generalizing fields with
  | nil => rfl
  | cons first arrays ih =>
    rw [foldl_cons, ih fun member => apart (.tail _ member)]
    refine OrderedArray.lookup_flatten_of_ne fun i small => ?_
    by_cases same : first = array
    · subst same
      exact apart (.head _) i small
    · exact OrderedArray.numberedKey_ne same numbered

@[simp] theorem isNumbered_numberedKey (array : OrderedArray) (i : Nat) :
    array.isNumbered (array.numberedKey i) = true := by
  rw [OrderedArray.isNumbered, OrderedArray.number?_numberedKey]
  rfl

theorem lookup_cleanupBeforeCommit (member : array ∈ kind.orderedArrays)
    (present : (item.items array)[i]? = some text) :
    (kind.cleanupBeforeCommit item).lookup (array.numberedKey i) = some (some text) := by
  unfold cleanupBeforeCommit
  generalize item.fields = fields
  generalize kind.orderedArrays = arrays at member
  induction arrays generalizing fields with
  | nil => cases member
  | cons first arrays ih =>
    rw [foldl_cons]
    by_cases later : array ∈ arrays
    · exact ih _ later
    · have same : array = first := (mem_cons.mp member).resolve_right later
      subst same
      rw [lookup_foldl_flatten_of_ne (isNumbered_numberedKey array i) fun again =>
        absurd again later]
      exact OrderedArray.lookup_flatten present

theorem lookup_cleanupBeforeCommit_of_isExtra
    (extra : array.IsExtra (item.items array).length key) :
    (kind.cleanupBeforeCommit item).lookup key = item.fields.lookup key :=
  lookup_foldl_flatten_of_ne extra.1 fun _ => extra.2

theorem deleteArrays_spec (kind : FilterKind) (present : file.sectionExists name = true) :
    (kind.deleteArrays name file).sectionExists name = true ∧
      ∀ param, (kind.deleteArrays name file).value? name param =
        if kind.ofArray param then none else file.value? name param := by
  have pass : Hash.EachStep
      (fun (current : File) param (_ : Text) =>
        if kind.ofArray param then current.delval name param else current)
      (fun current => current.sectionExists name = true)
      (fun current param => current.value? name param)
      (fun param _ value => if kind.ofArray param then none else value) := by
    refine ⟨fun current param _ relied => ?_, fun current param _ _ => ?_,
      fun current param _ another _ different => ?_⟩
    · split
      · exact IniFile.sectionExists_delval.trans relied
      · exact relied
    · split
      · rw [IniFile.value?_delval, if_pos ⟨rfl, rfl⟩]
      · rfl
    · split
      · rw [IniFile.value?_delval, if_neg fun both => different both.2]
      · rfl
  obtain ⟨kept, deleted⟩ := pass.foldl (file.parameters name) file present
  refine ⟨kept, fun param => (deleted param).trans ?_⟩
  unfold IniFile.value?
  cases (file.parameters name).lookup param with
  | none => exact (ite_self none).symm
  | some value => rfl

theorem ofArray_of_isNumbered (member : array ∈ kind.orderedArrays)
    (numbered : array.isNumbered key = true) : kind.ofArray key = true := by
  refine any_eq_true.mpr ⟨array, member, ?_⟩
  exact isPrefixOf_iff_prefix.mpr (OrderedArray.stem_prefix_of_isNumbered numbered)

theorem assigned_none {imported old value : Option Text} :
    assigned none imported old value = value := by
  cases value with
  | none => rfl
  | some value =>
    refine assigned_of_needed ?_
    rintro ⟨⟨⟩, _⟩

theorem value?_updateSection (present : store.file.sectionExists name = true)
    (member : array ∈ kind.orderedArrays) (numbered : array.isNumbered key = true)
    (assignments : Assignments) :
    (kind.updateSection store name assignments).file.sectionExists name = true ∧
      (kind.updateSection store name assignments).file.value? name key =
        (assignments.lookup key).join := by
  obtain ⟨kept, deleted⟩ := kind.deleteArrays_spec present
  obtain ⟨exist, _, updated⟩ :=
    @updateSection_loop _ store.imported name none assignments kept nofun
  refine ⟨exist, (updated key).trans ?_⟩
  rw [deleted, if_pos (ofArray_of_isNumbered member numbered)]
  cases assignments.lookup key with
  | none => rfl
  | some value => exact assigned_none

end FilterKind

/-! ### Reading back -/

/-- The list is read as it was given, at once and after the file is written and read again. -/
structure ItemsReadBack (kind : FilterKind) (store : Store) (id : Text) (item : FilterItem)
    (array : OrderedArray) : Prop where
  atOnce : (kind.update store id item).1.readItems id array = some (item.items array)
  reloaded :
    (kind.update store id item).1.rewriteConfig.readItems id array = some (item.items array)

/-- Neither the defaults nor the other fields of the item have a number that the new list
does not have. -/
def NoOtherNumbers (store : Store) (id : Text) (item : FilterItem) (array : OrderedArray) : Prop :=
  ∀ key, array.IsExtra (item.items array).length key →
    store.imported.value? id key = none ∧ (item.fields.lookup key).join = none

variable {item : FilterItem} {array : OrderedArray}

theorem readItems_eq_iff (present : store.file.sectionExists id = true)
    (stored : ∀ i item, items[i]? = some item →
      store.file.value? id (array.numberedKey i) = some item) :
    store.readItems id array = some items ↔
      ∀ key, array.IsExtra items.length key → store.file.value? id key = none := by
  rw [Store.readItems, if_pos present, Option.some_inj]
  exact ⟨fun read key => OrderedArray.lookup_eq_none_of_expand_eq stored read,
    OrderedArray.expand_eq stored⟩

theorem update_spec (item : FilterItem) (present : store.file.sectionExists id = true)
    (member : array ∈ kind.orderedArrays) (different : id ≠ "all".toList) :
    let after := (kind.update store id item).1
    after.imported = store.imported ∧ after.file.sectionExists id = true ∧
      (∀ i text, (item.items array)[i]? = some text →
        after.file.value? id (array.numberedKey i) = some text) ∧
      ∀ key, array.IsExtra (item.items array).length key →
        after.file.value? id key = (item.fields.lookup key).join := by
  have values := fun key (numbered : array.isNumbered key = true) =>
    FilterKind.value?_updateSection present member numbered (kind.cleanupBeforeCommit item)
  rw [FilterKind.update, if_neg different, if_pos present]
  refine ⟨rfl, (values _ (FilterKind.isNumbered_numberedKey array 0)).1,
    fun i text stored => ?_, fun key extra => ?_⟩
  · rw [(values _ (FilterKind.isNumbered_numberedKey array i)).2,
      FilterKind.lookup_cleanupBeforeCommit member stored]
    rfl
  · rw [(values key extra.1).2, FilterKind.lookup_cleanupBeforeCommit_of_isExtra extra]

def defaultFilter : Store :=
  .load ((IniFile.newval ∅ "f".toList "action.0".toList "a".toList).newval "f".toList
    "action.1".toList "b".toList) ∅

def filterOfActions (actions : List Text) : FilterItem :=
  ⟨∅, fun array => if array = .actions then actions else []⟩

end PacketFence.ConfigStore
