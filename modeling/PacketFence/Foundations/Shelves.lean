import Mathlib.Data.List.AList

/-!
# Named lists

A name that was never used has the empty list. What is proved is how a change
of one list changes the number of items of a kind in all of them.
-/

namespace PacketFence.Foundations

open List

universe u v

structure Shelves (Name : Type u) (Item : Type v) where
  lists : AList fun _ : Name => List Item

namespace Shelves

variable {Name : Type u} {Item : Type v}

def empty : Shelves Name Item :=
  ⟨∅⟩

def contents (shelves : Shelves Name Item) : List Item :=
  shelves.lists.entries.flatMap Sigma.snd

@[simp]
theorem contents_empty : (empty : Shelves Name Item).contents = [] := rfl

variable [DecidableEq Name]

def get (shelves : Shelves Name Item) (name : Name) : List Item :=
  (shelves.lists.lookup name).getD []

def put (shelves : Shelves Name Item) (name : Name) (items : List Item) :
    Shelves Name Item :=
  ⟨shelves.lists.insert name items⟩

variable {shelves : Shelves Name Item} {name : Name} {items : List Item} {item : Item}

@[simp]
theorem get_put_same : (shelves.put name items).get name = items := by
  rw [get, put, AList.lookup_insert, Option.getD_some]

theorem get_put_of_ne {other : Name} (different : other ≠ name) :
    (shelves.put name items).get other = shelves.get other := by
  rw [get, put, AList.lookup_insert_ne different, get]

theorem countP_kerase (kind : Item → Bool) (entries : List (Sigma fun _ : Name => List Item)) :
    ((List.kerase name entries).flatMap Sigma.snd).countP kind +
        ((List.dlookup name entries).getD []).countP kind =
      (entries.flatMap Sigma.snd).countP kind := by
  induction entries with
  | nil => simp
  | cons entry rest ih =>
    obtain ⟨first, items⟩ := entry
    by_cases same : name = first
    · have erased : List.kerase name (⟨first, items⟩ :: rest) = rest :=
        kerase_cons_eq same
      subst same
      rw [erased, dlookup_cons_eq, Option.getD_some, flatMap_cons, countP_append, Nat.add_comm]
    · rw [kerase_cons_ne same, dlookup_cons_ne _ _ same, flatMap_cons,
        flatMap_cons, countP_append, countP_append, ← ih, Nat.add_assoc]

theorem countP_contents_put (shelves : Shelves Name Item) (name : Name) (items : List Item)
    (kind : Item → Bool) :
    (shelves.put name items).contents.countP kind + (shelves.get name).countP kind =
      items.countP kind + shelves.contents.countP kind := by
  rw [contents, put, AList.entries_insert, flatMap_cons, countP_append, Nat.add_assoc]
  exact congrArg (_ + ·) (countP_kerase kind shelves.lists.entries)

theorem mem_contents_of_mem_get (member : item ∈ shelves.get name) : item ∈ shelves.contents := by
  rw [get] at member
  cases found : shelves.lists.lookup name with
  | none => simp [found] at member
  | some items =>
    rw [found, Option.getD_some] at member
    exact mem_flatMap.mpr ⟨⟨name, items⟩, AList.mem_lookup_iff.mp found, member⟩

theorem mem_contents_of_get_eq_singleton (only : shelves.get name = [item]) :
    item ∈ shelves.contents := by
  apply mem_contents_of_mem_get
  rw [only]
  exact mem_singleton.mpr rfl

theorem mem_contents_iff : item ∈ shelves.contents ↔ ∃ name, item ∈ shelves.get name := by
  constructor
  · intro member
    obtain ⟨⟨name, items⟩, entry, inside⟩ := mem_flatMap.mp member
    have found : shelves.lists.lookup name = some items := AList.mem_lookup_iff.mpr entry
    exact ⟨name, by rwa [get, found, Option.getD_some]⟩
  · rintro ⟨name, member⟩
    exact mem_contents_of_mem_get member

theorem mem_or_mem_of_mem_put (member : item ∈ (shelves.put name items).contents) :
    item ∈ items ∨ item ∈ shelves.contents := by
  obtain ⟨other, inside⟩ := mem_contents_iff.mp member
  by_cases same : other = name
  · subst same
    rw [get_put_same] at inside
    exact .inl inside
  · rw [get_put_of_ne same] at inside
    exact .inr (mem_contents_of_mem_get inside)

theorem count_get_le [BEq Item] : (shelves.get name).count item ≤ shelves.contents.count item := by
  have counted := shelves.countP_contents_put name [] (· == item)
  simp only [List.count, countP_nil] at *
  omega

section Once

variable [BEq Item] [LawfulBEq Item]

theorem name_unique {other : Name} (once : shelves.contents.count item ≤ 1)
    (here : item ∈ shelves.get name) (there : item ∈ shelves.get other) : name = other := by
  by_contra different
  have kept : item ∈ (shelves.put name []).contents := by
    apply mem_contents_of_mem_get
    rwa [get_put_of_ne (Ne.symm different)]
  have counted := shelves.countP_contents_put name [] (· == item)
  have first : 0 < (shelves.get name).count item := count_pos_iff.mpr here
  have second : 0 < (shelves.put name []).contents.count item := count_pos_iff.mpr kept
  simp only [List.count, countP_nil] at *
  omega

end Once

end Shelves

end PacketFence.Foundations
