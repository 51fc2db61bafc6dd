import Mathlib.Order.WellFounded

/-!
# Searching by halving

A search looks at the middle of a window and goes on in the half that the comparison
leaves. If several elements compare as equal, they stand together, and the search ends
at the one that it looks at first: the one that the fewest halvings lead to.
-/

namespace PacketFence.Foundations.BinarySearch

open Nat

/-- The index at which a search ends. Every pass halves the window, so there are no more
passes than the window is long. -/
def searchWithin (compareAt : Nat → Ordering) : (passes low length : Nat) → Option Nat
  | 0, _, _ => none
  | passes + 1, low, length =>
    if length = 0 then none
    else
      match compareAt (low + length / 2) with
      | .eq => some (low + length / 2)
      | .gt => searchWithin compareAt passes (low + length / 2 + 1) ((length - 1) / 2)
      | .lt => searchWithin compareAt passes low (length / 2)

def search (compareAt : Nat → Ordering) (length : Nat) : Option Nat :=
  searchWithin compareAt length 0 length

/-- The number of halvings that lead to an index of a window. -/
def halvingsWithin : (passes length index : Nat) → Nat
  | 0, _, _ => 0
  | passes + 1, length, index =>
    if index = length / 2 then 0
    else if index < length / 2 then halvingsWithin passes (length / 2) index + 1
    else halvingsWithin passes ((length - 1) / 2) (index - (length / 2 + 1)) + 1

def halvings (length index : Nat) : Nat :=
  halvingsWithin length length index

/-- What is compared is larger than the elements up to some point, and smaller than those
from a later point on. -/
structure Ascending (compareAt : Nat → Ordering) (length : Nat) : Prop where
  smaller : ∀ i j, i < j → j < length → compareAt i = .lt → compareAt j = .lt
  larger : ∀ i j, i < j → j < length → compareAt j = .gt → compareAt i = .gt

variable {compareAt : Nat → Ordering} {passes low length total index : Nat}

/-- An index that is found, or that would be found first. -/
structure First (compareAt : Nat → Ordering) (passes low length index : Nat) : Prop where
  low_le : low ≤ index
  lt_high : index < low + length
  equal : compareAt index = .eq
  first : ∀ other, low ≤ other → other < low + length → compareAt other = .eq →
    halvingsWithin passes length (index - low) ≤ halvingsWithin passes length (other - low)

theorem halvingsWithin_middle : halvingsWithin (passes + 1) length (length / 2) = 0 := if_pos rfl

theorem halvingsWithin_left (left : index < length / 2) :
    halvingsWithin (passes + 1) length index = halvingsWithin passes (length / 2) index + 1 := by
  rw [halvingsWithin, if_neg (Nat.ne_of_lt left), if_pos left]

theorem halvingsWithin_right (right : length / 2 < index) :
    halvingsWithin (passes + 1) length index =
      halvingsWithin passes ((length - 1) / 2) (index - (length / 2 + 1)) + 1 := by
  rw [halvingsWithin, if_neg (ne_of_gt right), if_neg (not_lt.mpr (le_of_lt right))]

theorem first_middle_iff (nonempty : length ≠ 0) (equal : compareAt (low + length / 2) = .eq) :
    First compareAt (passes + 1) low length index ↔ low + length / 2 = index := by
  constructor
  · intro found
    have least := found.first (low + length / 2) (by omega) (by omega) equal
    rw [Nat.add_sub_cancel_left, halvingsWithin_middle, Nat.le_zero, halvingsWithin] at least
    have inside := found.low_le
    split at least
    next same => omega
    · split at least <;> cases least
  · rintro rfl
    refine ⟨by omega, by omega, equal, fun other _ _ _ => ?_⟩
    rw [Nat.add_sub_cancel_left, halvingsWithin_middle]
    exact zero_le _

theorem first_left_iff (left : ∀ other, low ≤ other → other < low + length →
      compareAt other = .eq → other < low + length / 2) :
    First compareAt (passes + 1) low length index ↔
      First compareAt passes low (length / 2) index := by
  have shifted : ∀ other, low ≤ other → other < low + length / 2 →
      halvingsWithin (passes + 1) length (other - low) =
        halvingsWithin passes (length / 2) (other - low) + 1 :=
    fun other _ _ => halvingsWithin_left (by omega)
  constructor
  · intro found
    have half := left index found.low_le found.lt_high found.equal
    refine ⟨found.low_le, half, found.equal, fun other above below equal => ?_⟩
    have least := found.first other above (by omega) equal
    rw [shifted index found.low_le half, shifted other above below] at least
    exact le_of_succ_le_succ least
  · intro found
    refine ⟨found.low_le, ?_, found.equal, fun other above below equal => ?_⟩
    · have inside := found.lt_high
      omega
    · have half := left other above below equal
      rw [shifted index found.low_le found.lt_high, shifted other above half]
      exact succ_le_succ (found.first other above half equal)

theorem first_right_iff (nonempty : length ≠ 0)
    (right : ∀ other, low ≤ other → other < low + length →
      compareAt other = .eq → low + length / 2 < other) :
    First compareAt (passes + 1) low length index ↔
      First compareAt passes (low + length / 2 + 1) ((length - 1) / 2) index := by
  have shifted : ∀ other, low + length / 2 < other →
      halvingsWithin (passes + 1) length (other - low) =
        halvingsWithin passes ((length - 1) / 2) (other - (low + length / 2 + 1)) + 1 := by
    intro other above
    rw [halvingsWithin_right (by omega)]
    congr 2
    omega
  have window : low + length / 2 + 1 + (length - 1) / 2 = low + length := by omega
  constructor
  · intro found
    have half := right index found.low_le found.lt_high found.equal
    refine ⟨half, window ▸ found.lt_high, found.equal, fun other above below equal => ?_⟩
    have least := found.first other (by omega) (window ▸ below) equal
    rw [shifted index half, shifted other above] at least
    exact le_of_succ_le_succ least
  · intro found
    have inside := found.low_le
    refine ⟨by omega, window ▸ found.lt_high, found.equal, fun other above below equal => ?_⟩
    have half := right other above below equal
    rw [shifted index found.low_le, shifted other half]
    exact succ_le_succ (found.first other half (window ▸ below) equal)

theorem searchWithin_eq_some_iff (ascending : Ascending compareAt total)
    (enough : length ≤ passes) (inside : low + length ≤ total) :
    searchWithin compareAt passes low length = some index ↔
      First compareAt passes low length index := by
  induction passes generalizing low length with
  | zero =>
    refine iff_of_false nofun fun found => ?_
    have above := found.low_le
    have below := found.lt_high
    omega
  | succ passes ih =>
    unfold searchWithin
    split
    next empty =>
      refine iff_of_false nofun fun found => ?_
      have above := found.low_le
      have below := found.lt_high
      omega
    next nonempty =>
      split
      next equal => rw [Option.some.injEq, first_middle_iff nonempty equal]
      next larger =>
        rw [ih (by omega) (by omega), first_right_iff nonempty]
        intro other above below equal
        by_contra notAbove
        rcases lt_or_eq_of_le (not_lt.mp notAbove) with before | same
        · rw [ascending.larger other _ before (by omega) larger] at equal
          cases equal
        · rw [same, larger] at equal
          cases equal
      next smaller =>
        rw [ih (by omega) (by omega), first_left_iff]
        intro other above below equal
        by_contra notBelow
        rcases lt_or_eq_of_le (not_lt.mp notBelow) with behind | same
        · rw [ascending.smaller _ other behind (by omega) smaller] at equal
          cases equal
        · rw [← same, smaller] at equal
          cases equal

theorem search_eq_some_iff (ascending : Ascending compareAt length) :
    search compareAt length = some index ↔
      index < length ∧ compareAt index = .eq ∧
        ∀ other < length, compareAt other = .eq →
          halvings length index ≤ halvings length other := by
  unfold search halvings
  rw [searchWithin_eq_some_iff ascending (Nat.le_refl _) (Nat.le_of_eq (Nat.zero_add _))]
  constructor
  · intro found
    refine ⟨by simpa using found.lt_high, found.equal, fun other below equal => ?_⟩
    simpa using found.first other (Nat.zero_le _) (by simpa using below) equal
  · rintro ⟨below, equal, first⟩
    refine ⟨Nat.zero_le _, by simpa using below, equal, fun other _ below equal => ?_⟩
    simpa using first other (by simpa using below) equal

theorem search_eq_none_iff (ascending : Ascending compareAt length) :
    search compareAt length = none ↔ ∀ index < length, compareAt index ≠ .eq := by
  constructor
  · intro failed
    by_contra found
    push Not at found
    -- Of the equal elements one has the fewest halvings.
    obtain ⟨index, ⟨below, equal⟩, least⟩ := (measure (halvings length)).wf.has_min
      {index | index < length ∧ compareAt index = .eq} found
    have success := (search_eq_some_iff ascending).mpr
      ⟨below, equal, fun other inside same => not_lt.mp (least other ⟨inside, same⟩)⟩
    rw [failed] at success
    cases success
  · intro none
    rw [Option.eq_none_iff_forall_ne_some]
    intro index found
    obtain ⟨below, equal, _⟩ := (search_eq_some_iff ascending).mp found
    exact none index below equal

end PacketFence.Foundations.BinarySearch
