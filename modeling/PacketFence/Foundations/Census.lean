import Mathlib.Algebra.BigOperators.Group.Finset.Piecewise
import Mathlib.Algebra.Order.BigOperators.Group.Finset

/-!
# Items that move between places

A census says how many items of a kind are at a place. A transfer takes some
items from one place to another; where there is no source they are new, where
there is no target they leave. The total over several places changes only by
what crosses their border, so a number that is kept beside them follows it if
it changes by the same.
-/

namespace PacketFence.Foundations

open List

universe u v

abbrev Census (Place : Type u) (Item : Type v) := Place → (Item → Bool) → Nat

variable {Place : Type u} {Item : Type v}

def Census.total (census : Census Place Item) (places : Finset Place) (kind : Item → Bool) :
    Nat :=
  ∑ place ∈ places, census place kind

variable {place : Place} {census : Census Place Item} {places : Finset Place} {kind : Item → Bool}
  {items : List Item}

theorem Census.le_total (census : Census Place Item)
    (member : place ∈ places) (kind : Item → Bool) : census place kind ≤ census.total places kind :=
  Finset.single_le_sum (f := fun place => census place kind) (fun _ _ => Nat.zero_le _) member

variable [DecidableEq Place]

theorem Census.eq_zero_of_total_le_one (once : census.total places kind ≤ 1) {here there : Place}
    (inside : here ∈ places) (present : 0 < census here kind) (also : there ∈ places)
    (other : there ≠ here) : census there kind = 0 := by
  have pair : census there kind + census here kind ≤ census.total places kind := by
    rw [← Finset.sum_pair (f := fun place => census place kind) other]
    apply Finset.sum_le_sum_of_subset
    intro place member
    rcases Finset.mem_insert.mp member with rfl | same
    · exact also
    · rw [Finset.mem_singleton.mp same]
      exact inside
  omega

/-- What an end of a transfer contributes to some places. -/
def flow (places : Finset Place) (amount : Nat) : Option Place → Nat
  | none => 0
  | some place => if place ∈ places then amount else 0

@[simp]
theorem flow_none (places : Finset Place) (amount : Nat) : flow places amount none = 0 := rfl

@[simp]
theorem flow_some (places : Finset Place) (amount : Nat) (place : Place) :
    flow places amount (some place) = if place ∈ places then amount else 0 := rfl

def Transfer (before after : Census Place Item) (source target : Option Place)
    (items : List Item) : Prop :=
  ∀ place kind, after place kind + flow {place} (items.countP kind) source =
    before place kind + flow {place} (items.countP kind) target

@[simp] theorem sum_flow (places : Finset Place) (amount : Nat) (side : Option Place) :
    ∑ place ∈ places, flow {place} amount side = flow places amount side := by
  cases side with
  | none => simp
  | some place => simp

namespace Transfer

variable {before after : Census Place Item} {source target : Option Place}

theorem total (transfer : Transfer before after source target items)
    (places : Finset Place) (kind : Item → Bool) :
    after.total places kind + flow places (items.countP kind) source =
      before.total places kind + flow places (items.countP kind) target := by
  rw [Census.total, Census.total, ← sum_flow, ← sum_flow, ← Finset.sum_add_distrib,
    ← Finset.sum_add_distrib]
  exact Finset.sum_congr rfl fun place _ => transfer place kind

theorem pos (transfer : Transfer before after source target items)
    (present : 0 < after place kind) :
    0 < before place kind ∨ target = some place ∧ 0 < items.countP kind := by
  have balance := transfer place kind
  cases target with
  | none =>
    rw [flow_none] at balance
    omega
  | some other =>
    simp only [flow_some, Finset.mem_singleton] at balance
    split at balance
    next same =>
      subst other
      by_cases come : 0 < items.countP kind
      · exact .inr ⟨rfl, come⟩
      · omega
    · omega

theorem source_pos (transfer : Transfer before after (some place) target items)
    (other : target ≠ some place) (gone : 0 < items.countP kind) : 0 < before place kind := by
  have balance := transfer place kind
  have none : flow {place} (items.countP kind) target = 0 := by
    cases target with
    | none => rfl
    | some last =>
      rw [flow_some, if_neg]
      rw [Finset.mem_singleton]
      exact fun same => other (congrArg some same)
  rw [none, flow_some, if_pos (Finset.mem_singleton_self place)] at balance
  omega

end Transfer

/-- Among items of which each is counted once, those at some of the places are
counted by a test for these places. -/
theorem Census.total_and [BEq Item] [LawfulBEq Item] {items : Place → List Item}
    (listed : ∀ place kind, census place kind = (items place).countP kind)
    {part whole : Finset Place} (subset : part ⊆ whole)
    (once : ∀ item, census.total whole (· == item) ≤ 1) {isIn : Item → Bool}
    (inside : ∀ item, isIn item = true ↔ 0 < census.total part (· == item)) (kind : Item → Bool) :
    census.total whole (fun item => kind item && isIn item) = census.total part kind := by
  have present {place : Place} {item : Item} (member : item ∈ items place) :
      0 < census place (· == item) := by
    rw [listed]
    exact countP_pos_iff.mpr ⟨item, member, beq_self_eq_true item⟩
  have split (kind : Item → Bool) : census.total whole kind =
      census.total (whole \ part) kind + census.total part kind := (Finset.sum_sdiff subset).symm
  have outside : census.total (whole \ part) (fun item => kind item && isIn item) = 0 := by
    apply Finset.sum_eq_zero
    intro place member
    rw [listed, countP_eq_zero]
    intro item there both
    have here := (inside item).mp (Bool.and_eq_true_iff.mp both).2
    have part := census.le_total member (· == item)
    have one := once item
    have also := present there
    rw [split] at one
    omega
  rw [split, outside, Nat.zero_add]
  apply Finset.sum_congr rfl
  intro place member
  rw [listed, listed]
  apply countP_congr
  intro item there
  have isInside : isIn item = true := by
    rw [inside]
    exact Nat.lt_of_lt_of_le (present there) (census.le_total member _)
  rw [isInside, Bool.and_true]

theorem eq_of_countP_le_one {first second : Item}
    (once : items.countP kind ≤ 1) (here : first ∈ items) (isFirst : kind first = true)
    (there : second ∈ items) (isSecond : kind second = true) : first = second := by
  rw [countP_eq_length_filter] at once
  have one : first ∈ items.filter kind := mem_filter.mpr ⟨here, isFirst⟩
  have two : second ∈ items.filter kind := mem_filter.mpr ⟨there, isSecond⟩
  cases chosen : items.filter kind with
  | nil =>
    rw [chosen] at one
    cases one
  | cons head rest =>
    rw [chosen, length_cons] at once
    have empty : rest = [] := length_eq_zero_iff.mp (by omega)
    rw [chosen, empty, mem_singleton] at one two
    rw [one, two]

/-- Of items that are pairwise different at most one is counted if all that are counted
are equal. -/
theorem countP_le_one_iff (distinct : items.Nodup) :
    items.countP kind ≤ 1 ↔ ∀ first ∈ items, ∀ second ∈ items,
      kind first = true → kind second = true → first = second := by
  constructor
  · intro once first here second there isFirst isSecond
    exact eq_of_countP_le_one once here isFirst there isSecond
  · intro equal
    rw [countP_eq_length_filter]
    have kept := distinct.filter kind
    rcases chosen : items.filter kind with _ | ⟨first, _ | ⟨second, rest⟩⟩
    · exact Nat.zero_le 1
    · exact Nat.le_refl 1
    · have here : first ∈ items.filter kind := by simp [chosen]
      have there : second ∈ items.filter kind := by simp [chosen]
      obtain ⟨inside, isFirst⟩ := mem_filter.mp here
      obtain ⟨also, isSecond⟩ := mem_filter.mp there
      rw [chosen, equal first inside second also isFirst isSecond] at kept
      exact absurd mem_cons_self (nodup_cons.mp kept).1

end PacketFence.Foundations
