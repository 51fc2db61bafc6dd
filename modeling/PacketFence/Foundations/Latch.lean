import Mathlib.Data.List.TakeWhile

/-!
# A loop with a flag that is never lowered

A loop raises a flag at an item that is a hit and acts on an item only while the
flag is down. Since nothing lowers the flag again, the loop acts on the items
before the first hit and on no other.
-/

namespace PacketFence.Foundations

open List

universe u v

variable {Item : Type u} {State : Type v}

/-- One round: the flag first, then the action. -/
def latched (hit : Item → Bool) (act : State → Item → State) (state : Bool × State)
    (item : Item) : Bool × State :=
  let found := state.1 || hit item
  (found, if found then state.2 else act state.2 item)

variable {hit : Item → Bool} {act : State → Item → State} (items : List Item)

theorem foldl_latched_of_found (state : State) :
    items.foldl (latched hit act) (true, state) = (true, state) := by
  induction items with
  | nil => rfl
  | cons item rest ih => exact ih

theorem foldl_latched (state : State) : (items.foldl (latched hit act) (false, state)).2 =
      (items.takeWhile fun item => !hit item).foldl act state := by
  induction items generalizing state with
  | nil => rfl
  | cons item rest ih =>
    cases found : hit item with
    | true => simp [latched, found, foldl_latched_of_found]
    | false => simpa [latched, found] using ih (act state item)

/-- The items that are wanted all come before the first hit exactly when no hit
has a wanted item behind it. -/
theorem mem_takeWhile_iff_pairwise {passes : Item → Bool} {wanted : Item → Prop}
    {items : List Item} (distinct : items.Nodup)
    (passing : ∀ item ∈ items, wanted item → passes item = true) :
    (∀ item ∈ items, wanted item → item ∈ items.takeWhile passes) ↔
      items.Pairwise fun earlier later => wanted later → passes earlier = true := by
  induction items with
  | nil => simp
  | cons item rest ih =>
    rcases nodup_cons.mp distinct with ⟨fresh, restDistinct⟩
    have inRest := ih restDistinct fun other member =>
      passing other (mem_cons_of_mem _ member)
    rw [pairwise_cons, ← inRest, takeWhile_cons]
    cases passed : passes item with
    | true =>
      simp only [if_true, mem_cons, forall_eq_or_imp, implies_true, true_or, true_and]
      constructor
      · intro all other member isWanted
        rcases all other member isWanted with rfl | found
        · exact absurd member fresh
        · exact found
      · exact fun all other member isWanted => .inr (all other member isWanted)
    | false =>
      have unwanted : ¬wanted item := fun isWanted => by
        simpa [passed] using passing item mem_cons_self isWanted
      simp only [Bool.false_eq_true, if_false, mem_cons, not_mem_nil,
        forall_eq_or_imp, unwanted, imp_false, not_false_eq_true, true_and]
      constructor
      · exact fun none => ⟨none, fun other member isWanted =>
          absurd isWanted (none other member)⟩
      · exact fun both => both.1

theorem rel_of_lt {items : List Nat} {related : Nat → Nat → Prop}
    (increasing : items.Pairwise (· < ·)) (pairwise : items.Pairwise related)
    {earlier later : Nat} (isEarlier : earlier ∈ items) (isLater : later ∈ items)
    (ordered : earlier < later) : related earlier later := by
  obtain ⟨i, inside, rfl⟩ := getElem_of_mem isEarlier
  obtain ⟨j, also, rfl⟩ := getElem_of_mem isLater
  rcases Nat.lt_trichotomy i j with before | rfl | after
  · exact pairwise_iff_getElem.mp pairwise i j inside also before
  · exact absurd ordered (Nat.lt_irrefl _)
  · exact absurd ordered (Nat.lt_asymm (pairwise_iff_getElem.mp increasing j i also inside after))

end PacketFence.Foundations
