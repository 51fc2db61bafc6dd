import PacketFence.Foundations.Bytes
import PacketFence.Ip4log.Log

/-!
# Node identifiers

`pf::util` packs a tenant and a MAC address into one number of 64 bits, and so does the
statement that stores NetFlow records.
-/

namespace PacketFence.Util

open Foundations Lexing Ip4log List Nat

def digitValue (char : Char) : Nat :=
  if char.isDigit then char.toNat - 48 else char.toLower.toNat - 87

/-- The number in front of a text, as Perl's `hex` reads it if there is no `0x` and no
underscore in it. -/
def hex (text : Text) : Nat :=
  (text.takeWhile fun char => isHexDigit char.toLower).foldl
    (fun value char => 16 * value + digitValue char) 0

def makeNodeId (tenantId : Nat) (mac : Text) : Nat :=
  (tenantId <<< 48) % 2 ^ 64 ||| hex (mac.filter (· != ':'))

def splitNodeId (nodeId : Nat) : Nat × Text :=
  (nodeId >>> 48, cleanMac (hexDigits 12 (nodeId &&& 0x0000FFFFFFFFFFFF)))

/-- `((tenant_id << 48) | CAST(CONV(REPLACE(mac,":",""), 16, 10) AS UNSIGNED))` -/
def netFlowNodeId (tenantId : Nat) (mac : Text) : Nat :=
  (tenantId <<< 48) % 2 ^ 64 |||
    ofDigitChars 10 (toDigits 10 (hex (mac.filter (· != ':')))) 0

/-- Twelve characters by two. -/
def grouped : Text → Text
  | [a, b, c, d, e, f, g, h, i, j, k, l] =>
    intercalate [':'] [[a, b], [c, d], [e, f], [g, h], [i, j], [k, l]]
  | _ => []

/-- The canonical text of an address. -/
def macOf (address : Nat) : Text :=
  grouped (hexDigits 12 address)

theorem spec_of_mem_hexDigits {count number : Nat} {char : Char}
    (member : char ∈ hexDigits count number) :
    isHexDigit char = true ∧ char.toLower = char ∧ char ≠ ':' ∧ char ≠ '\n' ∧
      (!"-.:\t\n\r ".toList.contains char) = true ∧ (char.isDigit || char.isLower) = true := by
  obtain ⟨value, rfl⟩ := exists_of_mem_hexDigits member
  clear member
  revert value
  decide

@[simp] theorem hex_hexDigits (count number : Nat) :
    hex (hexDigits count number) = number % 16 ^ count := by
  have all (number : Nat) : (hexDigits count number).takeWhile
      (fun char => isHexDigit char.toLower) = hexDigits count number := by
    rw [takeWhile_eq_self_iff]
    intro char member
    obtain ⟨hex, small, -⟩ := spec_of_mem_hexDigits member
    rwa [small]
  have digitValue_digitChar : ∀ value : Fin 16, digitValue (digitChar value) = value := by decide
  rw [hex, all]
  clear all
  induction count generalizing number with
  | zero => exact (mod_one number).symm
  | succ count ih =>
    rw [hexDigits, foldl_append, ih, foldl_cons, foldl_nil,
      digitValue_digitChar ⟨number % 16, mod_lt _ (by decide)⟩, pow_succ,
      mul_comm (16 ^ count), mod_mul]
    exact add_comm _ _

/-- Twelve digits are accepted and grouped. -/
theorem cleanMac_hexDigits (number : Nat) :
    cleanMac (hexDigits 12 number) = macOf number ∧
      (macOf number).filter (· != ':') = hexDigits 12 number := by
  have spec (char) (member : char ∈ hexDigits 12 number) := spec_of_mem_hexDigits member
  have length := length_hexDigits 12 number
  simp only [cleanMac, macOf]
  rw [filter_eq_self.mpr fun char member => (spec char member).2.2.2.2.1,
    map_congr_left fun char member => (spec char member).2.1, map_id']
  generalize hexDigits 12 number = text at spec length ⊢
  match text, length with
  | [a, b, c, d, e, f, g, h, i, j, k, l], _ =>
    simp only [forall_mem_cons] at spec
    have spaced : injectColons [a, b, c, d, e, f, g, h, i, j, k, l] =
        grouped [a, b, c, d, e, f, g, h, i, j, k, l] := by
      simp [injectColons, grouped, intercalate, spec]
    have pairs : isSixPairs (fun char => char.isDigit || char.isLower)
        (grouped [a, b, c, d, e, f, g, h, i, j, k, l]) = true := by
      have single : (grouped [a, b, c, d, e, f, g, h, i, j, k, l]).getLast? ≠ some '\n' := by
        simp [grouped, intercalate, spec]
      rw [isSixPairs, chomp, if_neg single, grouped, splitOn_intercalate]
      · simp only [all_cons, spec]
        rfl
      · simp [spec, Ne.symm]
      · simp
    refine ⟨?_, ?_⟩
    · rw [spaced]
      exact if_pos pairs
    · simp [grouped, intercalate, spec]

section NodeIds

variable (tenantId : Fin (2 ^ 16)) (address : Fin (2 ^ 48))

@[simp] theorem hex_macOf : hex ((macOf address).filter (· != ':')) = address := by
  rw [(cleanMac_hexDigits address).2, hex_hexDigits]
  exact mod_eq_of_lt address.isLt

theorem makeNodeId_eq : makeNodeId tenantId (macOf address) = tenantId * 2 ^ 48 + address := by
  have small : tenantId.val <<< 48 < 2 ^ 64 := by
    rw [shiftLeft_eq]
    exact Nat.mul_lt_mul_of_pos_right tenantId.isLt (by decide)
  rw [makeNodeId, hex_macOf, mod_eq_of_lt small,
    ← shiftLeft_add_eq_or_of_lt address.isLt, shiftLeft_eq]

theorem splitNodeId_makeNodeId :
    splitNodeId (makeNodeId tenantId (macOf address)) = (tenantId.val, macOf address) := by
  have low : (tenantId.val * 2 ^ 48 + address.val) &&& 0x0000FFFFFFFFFFFF = address.val := by
    refine (and_two_pow_sub_one_eq_mod _ 48).trans ?_
    rw [mul_add_mod_self_right, mod_eq_of_lt address.isLt]
  have high : (tenantId.val * 2 ^ 48 + address.val) >>> 48 = tenantId.val := by
    rw [shiftRight_eq_div_pow, add_comm, add_mul_div_right _ _ (by decide),
      div_eq_of_lt address.isLt, zero_add]
  rw [makeNodeId_eq, splitNodeId, low, high, (cleanMac_hexDigits address).1]

/-- Identifiers can be split, are distinct, and are those of the NetFlow statement. -/
theorem nodeId_faithful :
    splitNodeId (makeNodeId tenantId (macOf address)) = (tenantId.val, macOf address) ∧
      (∀ (other : Fin (2 ^ 16)) (second : Fin (2 ^ 48)),
        makeNodeId other (macOf second) = makeNodeId tenantId (macOf address) →
          other = tenantId ∧ second = address) ∧
      makeNodeId tenantId (macOf address) = netFlowNodeId tenantId (macOf address) := by
  refine ⟨splitNodeId_makeNodeId tenantId address, ?_, ?_⟩
  · intro other second same
    have pairs := congrArg splitNodeId same
    rw [splitNodeId_makeNodeId, splitNodeId_makeNodeId] at pairs
    obtain ⟨tenants, macs⟩ := Prod.mk.inj pairs
    have addresses := congrArg (fun mac => hex (mac.filter (· != ':'))) macs
    simp only [hex_macOf] at addresses
    exact ⟨Fin.ext tenants, Fin.ext addresses⟩
  · rw [netFlowNodeId, ofDigitChars_ten_toDigits]
    rfl

end NodeIds

end PacketFence.Util
