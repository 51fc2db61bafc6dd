import Mathlib.Order.Lattice
import Mathlib.Data.List.Induction

/-!
# The first maximum of a list

A scan that keeps the best element so far and replaces it only by a strictly
better one ends with the first element, in list order, whose key is maximal.
-/

namespace PacketFence.Foundations

open List

universe u v w

variable {Item : Type u} {Key : Type v} [LinearOrder Key]

/-- `item` has a maximal key in `list`, and everything before it has a smaller
one. -/
def FirstMaximum (key : Item → Key) (list : List Item) (item : Item) : Prop :=
  ∃ before after, list = before ++ item :: after ∧
    (∀ other ∈ before, key other < key item) ∧
    ∀ other ∈ after, key other ≤ key item

namespace FirstMaximum

variable {key : Item → Key} {list : List Item} {item other : Item}

theorem mem (maximum : FirstMaximum key list item) : item ∈ list := by
  obtain ⟨before, after, rfl, _⟩ := maximum
  simp

theorem key_le (maximum : FirstMaximum key list item) (member : other ∈ list) :
    key other ≤ key item := by
  obtain ⟨before, after, rfl, smaller, bounded⟩ := maximum
  rcases mem_append.mp member with earlier | rest
  · exact (smaller other earlier).le
  · rcases mem_cons.mp rest with rfl | later
    · exact le_rfl
    · exact bounded other later

theorem singleton (key : Item → Key) (item : Item) :
    FirstMaximum key [item] item := ⟨[], [], rfl, by simp, by simp⟩

theorem concat (maximum : FirstMaximum key list item) (candidate : Item) :
    FirstMaximum key (list ++ [candidate])
      (if key item < key candidate then candidate else item) := by
  split
  next better =>
    refine ⟨list, [], rfl, ?_, by simp⟩
    intro earlier member
    exact (maximum.key_le member).trans_lt better
  next worse =>
    obtain ⟨before, after, rfl, smaller, bounded⟩ := maximum
    refine ⟨before, after ++ [candidate], by simp, smaller, ?_⟩
    intro later member
    rcases mem_append.mp member with older | newest
    · exact bounded later older
    · rw [mem_singleton.mp newest]
      exact not_lt.mp worse

theorem unique (first : FirstMaximum key list item)
    (second : FirstMaximum key list other) : item = other := by
  obtain ⟨before, after, rfl, smaller, bounded⟩ := first
  obtain ⟨before', after', same, smaller', bounded'⟩ := second
  rcases append_eq_append_iff.mp same with
    ⟨gap, earlier, rest⟩ | ⟨gap, earlier, rest⟩
  · cases gap with
    | nil => exact (List.cons.inj rest).1
    | cons head gap =>
      obtain ⟨rfl, rfl⟩ := List.cons.inj rest
      have ahead := smaller' item (by simp [earlier])
      exact absurd (bounded other (by simp)) ahead.not_ge
  · cases gap with
    | nil => exact (List.cons.inj rest).1.symm
    | cons head gap =>
      obtain ⟨rfl, rfl⟩ := List.cons.inj rest
      have ahead := smaller other (by simp [earlier])
      exact absurd (bounded' item (by simp)) ahead.not_ge

theorem exists_cons (key : Item → Key) (item : Item) (list : List Item) :
    ∃ maximum, FirstMaximum key (item :: list) maximum := by
  induction list using List.reverseRecOn with
  | nil => exact ⟨item, singleton key item⟩
  | append_singleton list candidate ih =>
    obtain ⟨best, maximum⟩ := ih
    exact ⟨_, maximum.concat candidate⟩

theorem congr {other : Item → Key} (maximum : FirstMaximum key list item)
    (same : ∀ item ∈ list, key item = other item) : FirstMaximum other list item := by
  have member := maximum.mem
  obtain ⟨before, after, rfl, smaller, bounded⟩ := maximum
  refine ⟨before, after, rfl, ?_, ?_⟩
  · intro earlier present
    rw [← same earlier (by simp [present]), ← same item member]
    exact smaller earlier present
  · intro later present
    rw [← same later (by simp [present]), ← same item member]
    exact bounded later present

theorem of_map {Source : Type w} {image : Source → Item} {sources : List Source}
    (maximum : FirstMaximum key (sources.map image) item) :
    ∃ source, FirstMaximum (fun source => key (image source)) sources source ∧
      image source = item := by
  obtain ⟨before, after, same, smaller, bounded⟩ := maximum
  obtain ⟨front, rest, rfl, rfl, tail⟩ := map_eq_append_iff.mp same
  obtain ⟨source, back, rfl, rfl, rfl⟩ := map_eq_cons_iff.mp tail
  refine ⟨source, ⟨front, back, rfl, ?_, ?_⟩, rfl⟩
  · intro earlier member
    exact smaller _ (mem_map_of_mem member)
  · intro later member
    exact bounded _ (mem_map_of_mem member)

theorem of_foldl_minOn (key : Item → Key) (item : Item) (list : List Item) :
    FirstMaximum (fun item => OrderDual.toDual (key item)) (item :: list)
      (list.foldl (minOn key) item) := by
  induction list using List.reverseRecOn with
  | nil => exact singleton _ item
  | append_singleton list candidate ih =>
    rw [foldl_append, foldl_cons, foldl_nil]
    generalize list.foldl (minOn key) item = best at ih ⊢
    have step := ih.concat candidate
    unfold minOn
    split
    next worse =>
      rw [if_neg fun less => not_lt.mpr worse (OrderDual.toDual_lt_toDual.mp less)] at step
      exact step
    next better =>
      rw [if_pos (OrderDual.toDual_lt_toDual.mpr (not_le.mp better))] at step
      exact step

theorem minOn?_eq_some_iff :
    list.minOn? key = some item ↔
      FirstMaximum (fun item => OrderDual.toDual (key item)) list item := by
  cases list with
  | nil => exact iff_of_false nofun fun maximum => absurd maximum.mem not_mem_nil
  | cons head list =>
    have best : FirstMaximum _ (head :: list) (list.foldl (minOn key) head) :=
      of_foldl_minOn key head list
    constructor
    · intro found
      rw [← Option.some.inj found]
      exact best
    · intro maximum
      exact congrArg some (best.unique maximum)

end FirstMaximum

end PacketFence.Foundations
