import Mathlib.Init

/-!
# Pages of a listing

A page is a slice of a listing and tells where the next one starts, if there is
more. Following these cursors from the front gives the whole listing.
-/

namespace PacketFence.Foundations

variable {Item : Type}

structure Page (Item : Type) where
  items : List Item
  next : Option Nat

def pageOf (listing : List Item) (cursor limit : Nat) : Page Item where
  items := (listing.drop cursor).take limit
  next := if cursor + limit < listing.length then some (cursor + limit) else none

/-- The items of all pages from a cursor on, if there are not more pages than
steps. -/
def walk (fetch : Nat → Option (Page Item)) : Nat → Nat → Option (List Item)
  | 0, _ => none
  | steps + 1, cursor => do
      let page ← fetch cursor
      match page.next with
      | none => some page.items
      | some next => (walk fetch steps next).map (page.items ++ ·)

theorem walk_pages {fetch : Nat → Option (Page Item)} {listing : List Item} {limit : Nat}
    (positive : 1 ≤ limit)
    (fetches : ∀ cursor, fetch cursor = some (pageOf listing cursor limit)) (steps cursor : Nat)
    (enough : listing.length - cursor < steps) :
    walk fetch steps cursor = some (listing.drop cursor) := by
  induction steps generalizing cursor with
  | zero => exact absurd enough (Nat.not_lt_zero _)
  | succ steps ih =>
    rw [walk, fetches, Option.bind_eq_bind, Option.bind_some, pageOf]
    by_cases more : cursor + limit < listing.length
    · have behind := ih (cursor + limit) (by omega)
      rw [if_pos more]
      dsimp only
      rw [behind, Option.map_some, ← List.drop_drop, List.take_append_drop]
    · rw [if_neg more]
      rw [List.take_of_length_le]
      rw [List.length_drop]
      omega

end PacketFence.Foundations
