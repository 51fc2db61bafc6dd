import Mathlib.Data.List.Nodup

/-!
# Lists with an index

A list of items grows at its end, and a map says where the item of a name is.
The items are those of the keys in the order in which they were first named.
-/

namespace PacketFence.Foundations

open List

universe u v w

structure IndexedList (Name : Type u) (Item : Type v) where
  items : List Item
  lookup : Name → Option Nat

/-- A key is added at the end, unless it is there. -/
def insertLast {Key : Type w} [DecidableEq Key] (key : Key) (keys : List Key) : List Key :=
  if key ∈ keys then keys else keys ++ [key]

section Keys

variable {Key : Type w} [DecidableEq Key] {key other : Key} {keys : List Key}

@[simp]
theorem mem_insertLast : other ∈ insertLast key keys ↔ other ∈ keys ∨ other = key := by
  unfold insertLast
  split
  next present =>
    refine ⟨Or.inl, ?_⟩
    rintro (member | rfl)
    · exact member
    · exact present
  · simp

theorem eraseDups_concat : (keys ++ [key]).eraseDups = insertLast key keys.eraseDups := by
  rw [eraseDups_append, insertLast]
  by_cases present : key ∈ keys
  · simp [List.removeAll, present]
  · simp [List.removeAll, present, eraseDups_cons]

end Keys

namespace IndexedList

variable {Name : Type u} {Item : Type v} {Key : Type w}

def empty : IndexedList Name Item := ⟨[], fun _ => none⟩

section

variable [DecidableEq Name]

def locate (list : IndexedList Name Item) (name : Name) (fresh : Item) :
    IndexedList Name Item × Nat :=
  match list.lookup name with
  | some index => (list, index)
  | none =>
    ({ items := list.items ++ [fresh]
       lookup := fun other =>
         if other = name then some list.items.length else list.lookup other },
      list.items.length)

end

def modify? (list : IndexedList Name Item) (index : Nat) (change : Item → Item) :
    Option (IndexedList Name Item) :=
  (list.items[index]?).map fun item => { list with items := list.items.set index (change item) }

structure Lists [DecidableEq Key] (name : Key → Name) (list : IndexedList Name Item)
    (keys : List Key) (item : Key → Item) : Prop where
  items_eq : list.items = keys.map item
  distinct : keys.Nodup
  lookup_eq : ∀ key, list.lookup (name key) = if key ∈ keys then some (keys.idxOf key) else none

namespace Lists

variable [DecidableEq Key] {name : Key → Name} {list : IndexedList Name Item}
  {keys : List Key} {item : Key → Item}

theorem empty (name : Key → Name) (item : Key → Item) :
    Lists name (.empty : IndexedList Name Item) [] item where
  items_eq := rfl
  distinct := nodup_nil
  lookup_eq := fun _ => rfl

theorem congr (listed : Lists name list keys item) {other : Key → Item}
    (same : ∀ key ∈ keys, item key = other key) : Lists name list keys other where
  items_eq := listed.items_eq.trans (map_congr_left same)
  distinct := listed.distinct
  lookup_eq := listed.lookup_eq

theorem locate [DecidableEq Name] (injective : Function.Injective name)
    (listed : Lists name list keys item) {key : Key} {fresh : Item}
    (new : key ∉ keys → item key = fresh) :
    Lists name (list.locate (name key) fresh).1 (insertLast key keys) item ∧
      (list.locate (name key) fresh).2 = (insertLast key keys).idxOf key := by
  have found := listed.lookup_eq key
  unfold IndexedList.locate
  by_cases present : key ∈ keys
  · rw [if_pos present] at found
    rw [found, insertLast, if_pos present]
    exact ⟨listed, rfl⟩
  · rw [if_neg present] at found
    have length : list.items.length = keys.length := by rw [listed.items_eq, length_map]
    rw [found, insertLast, if_neg present]
    refine ⟨⟨?_, ?_, fun other => ?_⟩, ?_⟩
    · rw [listed.items_eq, map_append, map_singleton, new present]
    · refine nodup_append'.mpr ⟨listed.distinct, nodup_singleton key, ?_⟩
      simpa using present
    · simp only [injective.eq_iff, mem_append, mem_singleton, idxOf_append,
        listed.lookup_eq other, length]
      by_cases same : other = key
      · subst same
        simp [present]
      · by_cases member : other ∈ keys <;> simp [same, member]
    · simp [idxOf_append, present, length]

theorem modify? (listed : Lists name list keys item) {key : Key} (member : key ∈ keys)
    (change : Item → Item) :
    ∃ changed, list.modify? (keys.idxOf key) change = some changed ∧
      Lists name changed keys (Function.update item key (change (item key))) := by
  have inside : keys.idxOf key < keys.length := idxOf_lt_length_of_mem member
  have current : list.items[keys.idxOf key]? = some (item key) := by
    rw [listed.items_eq, getElem?_map, getElem?_eq_getElem inside, getElem_idxOf]
    rfl
  refine ⟨{ list with items := list.items.set (keys.idxOf key) (change (item key)) },
    by rw [IndexedList.modify?, current]; rfl, ?_, listed.distinct, listed.lookup_eq⟩
  refine ext_getElem? fun index => ?_
  rw [listed.items_eq, getElem?_set, getElem?_map, length_map]
  by_cases here : keys.idxOf key = index
  · subst here
    rw [if_pos rfl, if_pos inside, getElem?_map, getElem?_eq_getElem inside,
      getElem_idxOf, Option.map_some, Function.update_self]
  · rw [if_neg here, getElem?_map]
    cases other : keys[index]? with
    | none => rfl
    | some found =>
      have different : found ≠ key := by
        rintro rfl
        obtain ⟨bound, at_index⟩ := List.getElem?_eq_some_iff.mp other
        exact here (by rw [← at_index, listed.distinct.idxOf_getElem])
      rw [Option.map_some, Option.map_some, Function.update_of_ne different]

end Lists

end IndexedList

end PacketFence.Foundations
