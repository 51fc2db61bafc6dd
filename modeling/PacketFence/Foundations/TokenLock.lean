import Mathlib.Algebra.Order.BigOperators.Group.List
import Mathlib.Algebra.Order.Ring.Nat

/-!
# Readers and writers with tokens

There is one token of the lock and a number of tokens for readers. Members take tokens and
give them back. A member that has the token of the lock may take one for readers, or it
is allowed to write if all of those are in their place. It keeps the token of the lock as
long as it may write. So nobody reads while another member writes.
-/

namespace PacketFence.Foundations.TokenLock

open List

/-- The tokens that nobody has. -/
structure Channels where
  lock : Nat
  rlock : Nat

/-- What one member has: tokens, and how many of those of the lock allow it to write. -/
@[ext]
structure Tokens where
  lock : Nat
  rlock : Nat
  granted : Nat
  backed : granted ≤ lock

/-- What one step of a member may do. -/
inductive Moves (capacity : Nat) (before : Channels) (own : Tokens) (after : Channels)
    (left : Tokens) : Prop
  | keep : after = before → left = own → Moves capacity before own after left
  | takeLock : before.lock = after.lock + 1 → after.rlock = before.rlock →
      left.lock = own.lock + 1 → left.rlock = own.rlock → left.granted = own.granted →
      Moves capacity before own after left
  | giveLock : after.lock = before.lock + 1 → after.rlock = before.rlock →
      own.lock = left.lock + 1 → left.rlock = own.rlock → left.granted ≤ own.granted →
      Moves capacity before own after left
  | takeRLock : own.granted < own.lock → after.lock = before.lock →
      before.rlock = after.rlock + 1 → left.lock = own.lock → left.rlock = own.rlock + 1 →
      left.granted = own.granted → Moves capacity before own after left
  | giveRLock : after.lock = before.lock → after.rlock = before.rlock + 1 →
      left.lock = own.lock → own.rlock = left.rlock + 1 → left.granted = own.granted →
      Moves capacity before own after left
  | grant : before.rlock = capacity → after = before → left.lock = own.lock →
      left.rlock = own.rlock → Moves capacity before own after left

/-- No token is lost, and nobody has one for readers while a member may write. -/
structure Guarded (capacity : Nat) (channels : Channels) (members : List Tokens) : Prop where
  lock : channels.lock + (members.map Tokens.lock).sum = 1
  rlock : channels.rlock + (members.map Tokens.rlock).sum = capacity
  apart : (members.map Tokens.granted).sum = 0 ∨ (members.map Tokens.rlock).sum = 0

variable {capacity : Nat} {before after : Channels} {own left : Tokens}
  {front back members : List Tokens}

theorem sum_granted_le (members : List Tokens) :
    (members.map Tokens.granted).sum ≤ (members.map Tokens.lock).sum :=
  sum_le_sum fun member _ => member.backed

theorem guarded_split_iff :
    Guarded capacity before (front ++ own :: back) ↔
      before.lock + ((front.map Tokens.lock).sum + (own.lock + (back.map Tokens.lock).sum)) = 1 ∧
        before.rlock + ((front.map Tokens.rlock).sum +
          (own.rlock + (back.map Tokens.rlock).sum)) = capacity ∧
        ((front.map Tokens.granted).sum + (own.granted + (back.map Tokens.granted).sum) = 0 ∨
          (front.map Tokens.rlock).sum + (own.rlock + (back.map Tokens.rlock).sum) = 0) := by
  constructor
  · rintro ⟨lock, rlock, apart⟩
    simp only [map_append, map_cons, sum_append, sum_cons] at lock rlock apart
    exact ⟨lock, rlock, apart⟩
  · rintro ⟨lock, rlock, apart⟩
    constructor <;> simp only [map_append, map_cons, sum_append, sum_cons]
    · exact lock
    · exact rlock
    · exact apart

theorem Guarded.move (guarded : Guarded capacity before (front ++ own :: back))
    (moves : Moves capacity before own after left) :
    Guarded capacity after (front ++ left :: back) := by
  have inFront := sum_granted_le front
  have behind := sum_granted_le back
  rw [guarded_split_iff] at guarded ⊢
  cases moves with
  | keep channels same =>
    subst channels same
    exact guarded
  | takeLock takes channel gets reads grants | giveLock gives channel loses reads grants => omega
  | takeRLock may channel takes same gets grants =>
    -- the only token of the lock is with this member, which may not write
    omega
  | giveRLock channel gives same loses grants => omega
  | grant full same holds reads =>
    subst same
    omega

theorem Guarded.exclusive (guarded : Guarded capacity before members) :
    (members.map Tokens.granted).sum = 0 ∨
      (members.map Tokens.granted).sum = 1 ∧ (members.map Tokens.rlock).sum = 0 := by
  have bounded := sum_granted_le members
  have one := guarded.lock
  have apart := guarded.apart
  omega

theorem Guarded.channels_of_mem (guarded : Guarded capacity before members)
    (member : own ∈ members) :
    before.lock + own.lock ≤ 1 ∧ before.rlock + own.rlock ≤ capacity := by
  obtain ⟨front, back, rfl⟩ := append_of_mem member
  rw [guarded_split_iff] at guarded
  omega

end PacketFence.Foundations.TokenLock
