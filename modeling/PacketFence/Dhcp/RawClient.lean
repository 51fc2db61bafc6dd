import PacketFence.Dhcp.Options
import Mathlib.Data.Nat.Bitwise

/-!
# Checksums of raw replies

A reply that is sent over a raw socket has an IP and a UDP header. The checksum of a header
is the complement of the sum of its words with end-around carry, so that the sum with the
checksum is all ones. Modulo `0xFFFF` the carry changes nothing.
-/

namespace PacketFence.Dhcp

open Foundations List Nat

/-! ### Words -/

/-- The sum of the words, with a zero byte behind an odd number of bytes. -/
def wordSum : Bytes → Nat
  | a :: b :: rest => a.toNat * 256 + b.toNat + wordSum rest
  | [a] => a.toNat * 256
  | [] => 0

/-- The accumulator of `checksum`, of 32 bits. -/
def accumulate (sum : Nat) : Bytes → Nat
  | a :: b :: rest => accumulate ((sum + (a.toNat <<< 8 ||| b.toNat)) % 2 ^ 32) rest
  | [a] => (sum + a.toNat <<< 8) % 2 ^ 32
  | [] => sum

theorem carry_eq (sum : Nat) : (sum >>> 16) + (sum &&& 0xFFFF) = sum / 2 ^ 16 + sum % 2 ^ 16 := by
  have low : sum &&& 0xFFFF = sum % 2 ^ 16 := and_two_pow_sub_one_eq_mod sum 16
  rw [low, shiftRight_eq_div_pow]

/-- The loop that adds the carry to the word. -/
def fold (sum : Nat) : Nat :=
  if large : 0xFFFF < sum then fold ((sum >>> 16) + (sum &&& 0xFFFF)) else sum
termination_by sum
decreasing_by
  rw [carry_eq]
  omega

def checksum (buf : Bytes) : Nat :=
  let csum := 0xFFFF - fold (accumulate 0 buf)
  if csum = 0 then 0xFFFF else csum

theorem fold_spec (sum : Nat) :
    fold sum ≤ 0xFFFF ∧ fold sum % 0xFFFF = sum % 0xFFFF ∧ (fold sum = 0 ↔ sum = 0) := by
  induction sum using fold.induct with
  | case1 sum large ih =>
    rw [fold, dif_pos large]
    rw [carry_eq] at ih ⊢
    omega
  | case2 sum small =>
    rw [fold, dif_neg small]
    omega

theorem wordSum_le (buf : Bytes) : wordSum buf ≤ 0xFFFF * ((buf.length + 1) / 2) := by
  induction buf using wordSum.induct with
  | case1 a b rest ih =>
    have first := a.toNat_lt
    have second := b.toNat_lt
    rw [wordSum, length_cons, length_cons]
    omega
  | case2 a =>
    have first := a.toNat_lt
    rw [wordSum, length_singleton]
    omega
  | case3 => exact zero_le _

theorem accumulate_eq {buf : Bytes} {sum : Nat} (bounded : sum + wordSum buf < 2 ^ 32) :
    accumulate sum buf = sum + wordSum buf := by
  induction buf using wordSum.induct generalizing sum with
  | case1 a b rest ih =>
    rw [wordSum, ← add_assoc] at bounded
    have room : sum + (a.toNat * 256 + b.toNat) < 2 ^ 32 :=
      (le_add_right _ _).trans_lt bounded
    have word : a.toNat <<< 8 ||| b.toNat = a.toNat * 256 + b.toNat := by
      rw [← shiftLeft_add_eq_or_of_lt b.toNat_lt, shiftLeft_eq]
    rw [accumulate, word, mod_eq_of_lt room, ih bounded, wordSum, add_assoc]
  | case2 a =>
    have shifted : a.toNat <<< 8 = a.toNat * 256 := shiftLeft_eq _ _
    rw [wordSum] at bounded
    rw [accumulate, shifted, mod_eq_of_lt bounded, wordSum]
  | case3 => rfl

/-- The words of a buffer and its checksum fold to all ones. -/
theorem checksum_spec {buf : Bytes} (bounded : wordSum buf < 2 ^ 32) :
    0 < checksum buf ∧ checksum buf ≤ 0xFFFF ∧ fold (wordSum buf + checksum buf) = 0xFFFF := by
  have sum : accumulate 0 buf = wordSum buf := by rw [accumulate_eq (by omega), zero_add]
  obtain ⟨small, same, zero⟩ := fold_spec (wordSum buf)
  obtain ⟨small', same', zero'⟩ := fold_spec (wordSum buf + checksum buf)
  have value : checksum buf =
      if 0xFFFF - fold (wordSum buf) = 0 then 0xFFFF else 0xFFFF - fold (wordSum buf) := by
    rw [checksum, sum]
  split at value <;> omega

/-! ### Headers -/

/-- The bytes of a word, in network order. -/
def word (w : Nat) : Bytes :=
  [UInt8.ofNat (w / 256), UInt8.ofNat w]

structure Udphdr where
  src : Nat
  dst : Nat
  ulen : Nat
  csum : Nat

structure Iphdr where
  vhl : UInt8
  tos : UInt8
  iplen : Nat
  id : Nat
  off : Nat
  ttl : UInt8
  proto : UInt8
  csum : Nat
  src : Address
  dst : Address

variable (u : Udphdr)

def Udphdr.bytes : Bytes :=
  word u.src ++ word u.dst ++ word u.ulen ++ word u.csum

def Iphdr.bytes (h : Iphdr) : Bytes :=
  [h.vhl, h.tos] ++ word h.iplen ++ word h.id ++ word h.off ++ [h.ttl, h.proto] ++ word h.csum ++
    h.src.bytes ++ h.dst.bytes

/-- The pseudo header that the UDP checksum covers. -/
def pseudohdr (ip : Iphdr) : Bytes :=
  ip.src.bytes ++ ip.dst.bytes ++ [0, ip.proto] ++ word u.ulen

/-- What the UDP checksum covers. -/
def Udphdr.covered (ip : Iphdr) (payload : Bytes) : Bytes :=
  pseudohdr u ip ++ u.bytes ++ payload

def Udphdr.checksum (u : Udphdr) (ip : Iphdr) (payload : Bytes) : Udphdr :=
  { u with csum := Dhcp.checksum ({ u with csum := 0 }.covered ip payload) }

def Iphdr.checksum (h : Iphdr) : Iphdr :=
  { h with csum := Dhcp.checksum { h with csum := 0 }.bytes }

/-- The headers that `sendDHCP` puts in front of a reply. -/
def sendDHCP (dhcp : Bytes) (dstIP srcIP : Address) : Iphdr × Udphdr :=
  let udplen := 8 + dhcp.length
  let ip : Iphdr := {
    vhl := 0x45, tos := 0, iplen := 0, id := 0, off := 0, ttl := 128, proto := 17, csum := 0,
    src := srcIP, dst := dstIP }
  let udp : Udphdr := { src := 67, dst := 68, ulen := udplen % 2 ^ 16, csum := 0 }
  let totalLen := 20 + udplen
  ({ ip with iplen := totalLen % 2 ^ 16 }.checksum, udp.checksum ip dhcp)

@[simp] theorem wordSum_word (w : Nat) (rest : Bytes) :
    wordSum (word w ++ rest) = w % 2 ^ 16 + wordSum rest := by
  rw [word, cons_append, cons_append, wordSum, UInt8.toNat_ofNat', UInt8.toNat_ofNat']
  simp only [nil_append]
  omega

theorem wordSum_covered (ip : Iphdr) (payload : Bytes) : wordSum (u.covered ip payload) =
      wordSum ({ u with csum := 0 }.covered ip payload) + u.csum % 2 ^ 16 := by
  simp only [Udphdr.covered, pseudohdr, Udphdr.bytes, Address.bytes, cons_append,
    append_assoc, nil_append, wordSum, wordSum_word]
  omega

theorem wordSum_bytes (h : Iphdr) :
    wordSum h.bytes = wordSum { h with csum := 0 }.bytes + h.csum % 2 ^ 16 := by
  simp only [Iphdr.bytes, Address.bytes, cons_append, append_assoc, nil_append,
    wordSum, wordSum_word]
  omega

@[simp] theorem length_covered (ip : Iphdr) (payload : Bytes) :
    (u.covered ip payload).length = 20 + payload.length := by
  rw [Udphdr.covered, length_append]
  rfl

/-- A checksum that was computed from a buffer and stands in another one. -/
structure Sound (before after : Bytes) (csum : Nat) : Prop where
  /-- the accumulator does not overflow -/
  fits : wordSum before < 2 ^ 32
  nonzero : csum ≠ 0
  folds : fold (wordSum after) = 0xFFFF

theorem sound_of_length {before after : Bytes} (small : before.length ≤ 20 + 65507)
    (added : wordSum after = wordSum before + checksum before % 2 ^ 16) :
    Sound before after (checksum before) := by
  have bound := wordSum_le before
  have fits : wordSum before < 2 ^ 32 := by omega
  obtain ⟨positive, most, folded⟩ := checksum_spec fits
  rw [mod_eq_of_lt (by omega)] at added
  exact ⟨fits, positive.ne', added ▸ folded⟩

theorem sendDHCP_sound {dhcp : Bytes} (small : dhcp.length ≤ 65507) (dstIP srcIP : Address) :
    let (ip, udp) := sendDHCP dhcp dstIP srcIP
    Sound { ip with csum := 0 }.bytes ip.bytes ip.csum ∧
      Sound ({ udp with csum := 0 }.covered ip dhcp) (udp.covered ip dhcp) udp.csum := by
  constructor
  · exact sound_of_length (by simp [Iphdr.bytes, word, Address.bytes]) (wordSum_bytes _)
  · refine sound_of_length ?_ (wordSum_covered _ _ _)
    rw [length_covered]
    exact Nat.add_le_add_left small 20

theorem sendDHCP_sound_discover : [1, 1, 6].length ≤ 65507 ∧
    (sendDHCP [1, 1, 6] (10, 0, 0, 2) (10, 0, 0, 1)).2.csum ≠ 0 :=
  ⟨by decide, (sendDHCP_sound (by decide) (10, 0, 0, 2) (10, 0, 0, 1)).2.nonzero⟩

end PacketFence.Dhcp
