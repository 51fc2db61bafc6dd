import PacketFence.Foundations.Bytes
import Mathlib.Data.List.Basic

/-!
# Addresses of option values

The addresses of an option are sent in a random order. `rand.Intn` may return anything in its
range, so what holds of a shuffle holds for every sequence of choices.
-/

namespace PacketFence.Dhcp

open Foundations List

/-- The bytes of a `net.IP` that `To4` returned. -/
abbrev Address := UInt8 × UInt8 × UInt8 × UInt8

def Address.bytes : Address → Bytes
  | (a, b, c, d) => [a, b, c, d]

def addressBytes (array : List Address) : Bytes :=
  array.flatMap Address.bytes

/-- The groups of four bytes; what is left behind them belongs to none. -/
def addresses : Bytes → List Address
  | a :: b :: c :: d :: rest => (a, b, c, d) :: addresses rest
  | _ => []

theorem addressBytes_addresses {a : Bytes} (fourfold : 4 ∣ a.length) :
    addressBytes (addresses a) = a := by
  induction a using addresses.induct with
  | case1 a b c d rest ih =>
    exact congrArg ([a, b, c, d] ++ ·) (ih (by simpa [Nat.add_assoc] using fourfold))
  | case2 a short =>
    rcases a with _ | ⟨a, _ | ⟨b, _ | ⟨c, _ | ⟨d, rest⟩⟩⟩⟩
    · rfl
    · exact absurd fourfold (by simp)
    · exact absurd fourfold (by simp)
    · exact absurd fourfold (by simp)
    · exact absurd rfl (short a b c d rest)

/-! ### Shuffles -/

/-- What `random.Intn (i + 1)` returns in the round of an index `i`. -/
abbrev Random := (i : Nat) → Fin (i + 1)

/-- The rounds of the loop from an index down to 1, which are all in bounds. -/
def swapDownFrom {Element : Type} (random : Random) : Nat → Array Element → Array Element
  | 0, array => array
  | i + 1, array => swapDownFrom random i (array.swapIfInBounds (i + 1) (random (i + 1)))

/-- An address may be nil, and then it has no bytes. -/
def shuffleNetIP (random : Random) (array : List (Option Address)) : Bytes :=
  addressBytes ((swapDownFrom random (array.length - 1) array.toArray).toList.filterMap id)

/-- There are no bytes if an index is out of range. -/
def shuffleIP (random : Random) (a : Bytes) : Option Bytes :=
  if 4 ∣ a.length then some (shuffleNetIP random ((addresses a).map some)) else none

/-- `Shuffle`, where `to4?` is `net.ParseIP` with `To4`. -/
def shuffle (to4? : List Char → Option Address) (random : Random) (addresses : List Char)
    (excluded : List (List Char)) : Bytes :=
  shuffleNetIP random (((addresses.splitOn ',').filter (!excluded.contains ·)).map to4?)

theorem swapDownFrom_perm {Element : Type} (random : Random) (i : Nat) (array : Array Element) :
    (swapDownFrom random i array).Perm array := by
  induction i generalizing array with
  | zero => exact .rfl
  | succ i ih =>
    refine (ih _).trans ?_
    unfold Array.swapIfInBounds
    split
    · split
      · exact Array.swap_perm _ _
      · exact .rfl
    · exact .rfl

theorem shuffleNetIP_perm (random : Random) (array : List (Option Address)) :
    ∃ order, order.Perm (array.filterMap id) ∧ shuffleNetIP random array = addressBytes order :=
  ⟨_, (swapDownFrom_perm random _ array.toArray).toList.filterMap id, rfl⟩

theorem shuffled_perm (random : Random) (to4? : List Char → Option Address) :
    (∀ a : Bytes, 4 ∣ a.length → ∃ array order : List Address, a = addressBytes array ∧
      order.Perm array ∧ shuffleIP random a = some (addressBytes order)) ∧
    ∀ addresses excluded, ∃ order : List Address,
      order.Perm (((addresses.splitOn ',').filter (!excluded.contains ·)).filterMap to4?) ∧
        shuffle to4? random addresses excluded = addressBytes order := by
  constructor
  · intro a fourfold
    obtain ⟨order, permuted, sent⟩ := shuffleNetIP_perm random ((addresses a).map some)
    refine ⟨addresses a, order, (addressBytes_addresses fourfold).symm, by simpa using permuted, ?_⟩
    rw [shuffleIP, if_pos fourfold, sent]
  · intro addresses excluded
    obtain ⟨order, permuted, sent⟩ :=
      shuffleNetIP_perm random (((addresses.splitOn ',').filter (!excluded.contains ·)).map to4?)
    refine ⟨order, ?_, sent⟩
    rwa [filterMap_map] at permuted

end PacketFence.Dhcp
