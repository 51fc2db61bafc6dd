import Mathlib.Data.UInt

/-!
# Texts as bytes

A text is a list of bytes. `decodeRune` reads a code point off its beginning; a
byte that begins none counts as one wrong rune of length 1.
-/

namespace PacketFence.Foundations

abbrev Bytes := List UInt8

def ascii (char : Char) : UInt8 :=
  char.toNat.toUInt8

def asciiBytes (text : String) : Bytes :=
  text.toList.map ascii

/-! ### Hexadecimal digits -/

/-- The last so many digits of a number. -/
def hexDigits : Nat → Nat → List Char
  | 0, _ => []
  | count + 1, number => hexDigits count (number / 16) ++ [Nat.digitChar (number % 16)]

theorem length_hexDigits (count number : Nat) : (hexDigits count number).length = count := by
  induction count generalizing number with
  | zero => rfl
  | succ count ih => rw [hexDigits, List.length_append, ih, List.length_singleton]

theorem exists_of_mem_hexDigits {count number : Nat} {char : Char}
    (member : char ∈ hexDigits count number) : ∃ value : Fin 16, char = Nat.digitChar value := by
  induction count generalizing number with
  | zero => cases member
  | succ count ih =>
    rcases List.mem_append.mp member with member | member
    · exact ih member
    · exact ⟨⟨number % 16, Nat.mod_lt _ (by decide)⟩, List.mem_singleton.mp member⟩

/-! ### Runes -/

/-- U+FFFD -/
def runeError : Nat := 0xFFFD

/-- How many bytes follow the first one of a sequence, and the range of the second. -/
def leadingByte (byte : UInt8) : Option (Nat × UInt8 × UInt8) :=
  if 0xC2 ≤ byte ∧ byte ≤ 0xDF then some (1, 0x80, 0xBF)
  else if byte = 0xE0 then some (2, 0xA0, 0xBF)
  else if byte = 0xED then some (2, 0x80, 0x9F)
  else if 0xE1 ≤ byte ∧ byte ≤ 0xEF then some (2, 0x80, 0xBF)
  else if byte = 0xF0 then some (3, 0x90, 0xBF)
  else if 0xF1 ≤ byte ∧ byte ≤ 0xF3 then some (3, 0x80, 0xBF)
  else if byte = 0xF4 then some (3, 0x80, 0x8F)
  else none

/-- The code point whose remaining bytes are in front. -/
def continuation? : Nat → UInt8 → UInt8 → Nat → Bytes → Option Nat
  | 0, _, _, rune, _ => some rune
  | _ + 1, _, _, _, [] => none
  | count + 1, low, high, rune, byte :: rest =>
    if low ≤ byte ∧ byte ≤ high then
      continuation? count 0x80 0xBF (rune * 64 + byte.toNat % 64) rest
    else
      none

def decodeRune : Bytes → Nat × Nat
  | [] => (runeError, 0)
  | byte :: rest =>
    if byte < 0x80 then
      (byte.toNat, 1)
    else
      match leadingByte byte with
      | none => (runeError, 1)
      | some (count, low, high) =>
        match continuation? count low high (byte.toNat % 2 ^ (6 - count)) rest with
        | some rune => (rune, count + 1)
        | none => (runeError, 1)

variable {count : Nat} {low high byte : UInt8} {text : Bytes}

theorem continuation?_append {rune : Nat} (small : byte < 0x80) (above : 0x80 ≤ low)
    (rest : Bytes) :
    continuation? count low high rune (text ++ byte :: rest) =
      continuation? count low high rune text := by
  induction text generalizing count low high rune with
  | nil =>
    cases count with
    | zero => rfl
    | succ count =>
      have outside : ¬ (low ≤ byte ∧ byte ≤ high) := fun inside =>
        UInt8.lt_irrefl _ (UInt8.lt_of_lt_of_le small (UInt8.le_trans above inside.1))
      exact if_neg outside
  | cons first text ih =>
    cases count with
    | zero => rfl
    | succ count => rw [List.cons_append, continuation?, continuation?, ih (UInt8.le_refl _)]

theorem count_le_of_continuation? {rune result : Nat}
    (found : continuation? count low high rune text = some result) :
    count ≤ text.length := by
  induction text generalizing count low high rune with
  | nil =>
    cases count with
    | zero => exact le_rfl
    | succ count => cases found
  | cons first text ih =>
    cases count with
    | zero => exact Nat.zero_le _
    | succ count =>
      rw [continuation?] at found
      split at found
      · exact Nat.succ_le_succ (ih found)
      · cases found

theorem low_of_leadingByte (leads : leadingByte byte = some (count, low, high)) : 0x80 ≤ low := by
  unfold leadingByte at leads
  grind

theorem decodeRune_append (nonempty : text ≠ []) (small : byte < 0x80) (rest : Bytes) :
    decodeRune (text ++ byte :: rest) = decodeRune text := by
  obtain ⟨first, text, rfl⟩ := List.exists_cons_of_ne_nil nonempty
  rw [List.cons_append, decodeRune, decodeRune]
  split
  · rfl
  · split
    · rfl
    next count low high leads => rw [continuation?_append small (low_of_leadingByte leads)]

theorem size_decodeRune_le (first : UInt8) (text : Bytes) :
    (decodeRune (first :: text)).2 - 1 ≤ text.length := by
  rw [decodeRune]
  split
  · exact Nat.zero_le _
  · split
    · exact Nat.zero_le _
    · split
      next found => exact count_le_of_continuation? found
      · exact Nat.zero_le _

theorem decodeRune_ascii (small : byte < 0x80) (rest : Bytes) :
    decodeRune (byte :: rest) = (byte.toNat, 1) := by rw [decodeRune, if_pos small]

end PacketFence.Foundations
