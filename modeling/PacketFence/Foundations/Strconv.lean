import Mathlib.Data.Char
import Mathlib.Data.List.Lex
import Mathlib.Data.Nat.Digits.Defs
import Mathlib.Tactic.IntervalCases

/-!
# Decimal texts of 64-bit integers

`atoi` and `itoa` as Go's `strconv` has them: an optional sign, at least one
digit, any number of leading zeros, and a range check that stops at the digit
that leaves the range. Writing a number and reading it back gives it again.
-/

namespace PacketFence.Foundations

inductive NumError where
  | invalid
  | outOfRange
  deriving DecidableEq

def parseUint (value : Nat) : List Char → Except NumError Nat
  | [] => .ok value
  | digit :: rest =>
    if digit.isDigit then
      if 10 * value + (digit.toNat - '0'.toNat) < 2 ^ 64 then
        parseUint (10 * value + (digit.toNat - '0'.toNat)) rest
      else
        .error .outOfRange
    else
      .error .invalid

def fitInt64 (value : Int) : Except NumError Int64 :=
  if -2 ^ 63 ≤ value ∧ value < 2 ^ 63 then .ok (Int64.ofInt value) else .error .outOfRange

def parseInt (negative : Bool) (digits : List Char) : Except NumError Int64 :=
  if digits = [] then .error .invalid
  else do
    let magnitude ← parseUint 0 digits
    fitInt64 (if negative then -magnitude else magnitude)

def atoi (text : String) : Except NumError Int64 :=
  match text.toList with
  | '-' :: digits => parseInt true digits
  | '+' :: digits => parseInt false digits
  | digits => parseInt false digits

def itoa (value : Int64) : String :=
  toString value.toInt

theorem le_ofDigitChars (digits : List Char) (value : Nat) :
    value ≤ Nat.ofDigitChars 10 digits value := by
  induction digits generalizing value with
  | nil => simp
  | cons digit digits ih =>
    rw [Nat.ofDigitChars_cons]
    have later := ih (10 * value + (digit.toNat - '0'.toNat))
    omega

variable {digits : List Char}

theorem parseUint_eq {value : Nat} (valid : ∀ digit ∈ digits, digit.isDigit = true)
    (bounded : Nat.ofDigitChars 10 digits value < 2 ^ 64) :
    parseUint value digits = .ok (Nat.ofDigitChars 10 digits value) := by
  induction digits generalizing value with
  | nil => simp [parseUint]
  | cons digit digits ih =>
    have small := (le_ofDigitChars digits _).trans_lt bounded
    rw [parseUint, if_pos (valid digit List.mem_cons_self), if_pos small]
    exact ih (fun later member => valid later (List.mem_cons_of_mem _ member)) bounded

theorem isDigit_toDigits (number : Nat) : ∀ digit ∈ Nat.toDigits 10 number, digit.isDigit = true :=
  fun _ member => Nat.isDigit_of_mem_toDigits (by decide) (by decide) member

theorem parseInt_toDigits {magnitude : Nat} (bounded : magnitude < 2 ^ 64)
    (negative : Bool) :
    parseInt negative (Nat.toDigits 10 magnitude) =
      fitInt64 (if negative then -magnitude else magnitude) := by
  have parsed : parseUint 0 (Nat.toDigits 10 magnitude) = .ok magnitude := by
    have value : Nat.ofDigitChars 10 (Nat.toDigits 10 magnitude) 0 = magnitude :=
      Nat.ofDigitChars_ten_toDigits
    have read := parseUint_eq (isDigit_toDigits magnitude) (by rwa [value])
    rwa [value] at read
  have nonempty : Nat.toDigits 10 magnitude ≠ [] := Nat.toDigits_ne_nil
  rw [parseInt, if_neg nonempty, parsed]
  rfl

@[simp] theorem fitInt64_toInt (value : Int64) : fitInt64 value.toInt = .ok value := by
  rw [fitInt64, if_pos ⟨value.le_toInt, value.toInt_lt⟩, Int64.ofInt_toInt]

theorem atoi_of_digits {text : String} (spelled : text.toList = digits)
    (valid : ∀ digit ∈ digits, digit.isDigit = true) : atoi text = parseInt false digits := by
  unfold atoi
  rw [spelled]
  split
  · exact absurd (valid '-' List.mem_cons_self) (by decide)
  · exact absurd (valid '+' List.mem_cons_self) (by decide)
  · rfl

theorem atoi_itoa (value : Int64) : atoi (itoa value) = .ok value := by
  have upper := value.toInt_lt
  have lower := value.le_toInt
  rw [← fitInt64_toInt value]
  cases number : value.toInt with
  | ofNat magnitude =>
    have spelled : (itoa value).toList = Nat.toDigits 10 magnitude := by
      simp [itoa, number, Int.repr]
    have bounded : (magnitude : Int) < 2 ^ 63 := by rwa [number] at upper
    rw [atoi_of_digits spelled (isDigit_toDigits magnitude), parseInt_toDigits (by omega)]
    rfl
  | negSucc magnitude =>
    have spelled : (itoa value).toList = '-' :: Nat.toDigits 10 (magnitude + 1) := by
      simp [itoa, number, Int.repr]
    rw [atoi, spelled]
    exact parseInt_toDigits (by omega) true

/-! ### Decimal texts in dictionary order

Two decimal texts of one length compare in dictionary order as their numbers
do, and the text of 0 comes before every other one. -/

open List Nat

theorem ofDigitChars_lt_of_lt {first second : List Char}
    (digits : ∀ digit ∈ first, digit.isDigit = true)
    (length : first.length = second.length) {low high : Nat} (ahead : low < high) :
    ofDigitChars 10 first low < ofDigitChars 10 second high := by
  induction first generalizing second low high with
  | nil =>
    cases second with
    | nil => simpa using ahead
    | cons => simp at length
  | cons digit first ih =>
    cases second with
    | nil => simp at length
    | cons other second =>
      rw [ofDigitChars_cons, ofDigitChars_cons]
      refine ih (fun later member =>
        digits later (mem_cons_of_mem _ member)) (by simpa using length) ?_
      have bounded : digit.toNat ≤ 57 := by
        have valid := digits digit mem_cons_self
        simp only [Char.isDigit, Bool.and_eq_true, decide_eq_true_eq] at valid
        exact valid.2
      have value : digit.toNat - '0'.toNat ≤ 9 := by
        have zero : '0'.toNat = 48 := rfl
        omega
      omega

theorem ofDigitChars_lt_of_text_lt {first second : List Char} {start : Nat}
    (firstDigits : ∀ digit ∈ first, digit.isDigit = true)
    (secondDigits : ∀ digit ∈ second, digit.isDigit = true)
    (length : first.length = second.length) (before : first < second) :
    ofDigitChars 10 first start < ofDigitChars 10 second start := by
  induction first generalizing second start with
  | nil =>
    cases second with
    | nil => simp at before
    | cons => simp at length
  | cons digit first ih =>
    cases second with
    | nil => simp at length
    | cons other second =>
      have later : ∀ later ∈ first, later.isDigit = true := fun later member =>
        firstDigits later (mem_cons_of_mem _ member)
      have rest : first.length = second.length := by simpa using length
      rw [ofDigitChars_cons, ofDigitChars_cons]
      rcases cons_lt_cons_iff.mp before with smaller | ⟨rfl, remaining⟩
      · refine ofDigitChars_lt_of_lt later rest ?_
        have value : digit.toNat < other.toNat := smaller
        have valid := firstDigits digit mem_cons_self
        simp only [Char.isDigit, Bool.and_eq_true, decide_eq_true_eq] at valid
        have least : 48 ≤ digit.toNat := valid.1
        have zero : '0'.toNat = 48 := rfl
        omega
      · exact ih later (fun digit member =>
          secondDigits digit (mem_cons_of_mem _ member)) rest remaining

theorem toDigits_lt_of_text_lt {first second : Nat}
    (length : (toDigits 10 first).length = (toDigits 10 second).length)
    (before : toDigits 10 first < toDigits 10 second) : first < second := by
  have valid (number : Nat) : ∀ digit ∈ toDigits 10 number, digit.isDigit = true :=
    fun digit member => isDigit_of_mem_toDigits (by decide) (by decide) member
  have smaller : ofDigitChars 10 (toDigits 10 first) 0 <
      ofDigitChars 10 (toDigits 10 second) 0 :=
    ofDigitChars_lt_of_text_lt (valid first) (valid second) length before
  simpa using smaller

/-- Decimal texts of one length are in dictionary order exactly if their numbers
are in order. -/
theorem toDigits_le_iff {first second : Nat}
    (length : (toDigits 10 first).length = (toDigits 10 second).length) :
    toDigits 10 first ≤ toDigits 10 second ↔ first ≤ second := by
  constructor
  · intro before
    by_contra larger
    rcases lt_trichotomy (toDigits 10 first) (toDigits 10 second) with
      smaller | same | greater
    · exact larger (toDigits_lt_of_text_lt length smaller).le
    · have equal := congrArg (fun text => ofDigitChars 10 text 0) same
      simp only [ofDigitChars_ten_toDigits] at equal
      exact larger equal.le
    · exact absurd before greater.not_ge
  · intro ordered
    by_contra greater
    have smaller := toDigits_lt_of_text_lt length.symm (not_le.mp greater)
    exact absurd ordered smaller.not_ge

theorem toDigits_head_of_pos {number : Nat} (positive : 0 < number) :
    ∃ head rest, toDigits 10 number = head :: rest ∧ '0' < head := by
  induction number using Nat.strong_induction_on with
  | h number ih =>
    by_cases single : number < 10
    · refine ⟨number.digitChar, [], toDigits_of_lt_base single, ?_⟩
      interval_cases number <;> decide
    · have quotient : 0 < number / 10 := by omega
      obtain ⟨head, rest, front, after⟩ := ih (number / 10) (by omega) quotient
      rw [toDigits_of_base_le (by decide) (by omega), front]
      exact ⟨head, _, rfl, after⟩

theorem toDigits_zero_lt {number : Nat} (positive : 0 < number) :
    toDigits 10 0 < toDigits 10 number := by
  obtain ⟨head, rest, front, after⟩ := toDigits_head_of_pos positive
  rw [front, toDigits_zero]
  exact cons_lt_cons_iff.mpr (.inl after)

end PacketFence.Foundations
