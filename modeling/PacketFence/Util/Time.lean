import PacketFence.Foundations.Lexing
import PacketFence.Foundations.Strconv
import Mathlib.Tactic.Ring

/-!
# Intervals

`pf::util` and the Go services read the same interval texts, a number and a unit, each with a
regular expression of its own. The one of Go is not anchored, takes any number of units, and
its durations are 64-bit numbers of nanoseconds.
-/

namespace PacketFence.Util

open Foundations Lexing List Nat

/-- `$TIME_MODIFIER_RE`, in seconds -/
def modifier? : Char → Option Nat
  | 's' => some 1
  | 'm' => some 60
  | 'h' => some (60 * 60)
  | 'D' => some (24 * 60 * 60)
  | 'W' => some (7 * 24 * 60 * 60)
  | 'M' => some (30 * 24 * 60 * 60)
  | 'Y' => some (365 * 24 * 60 * 60)
  | _ => none

def number (text : Text) : Nat :=
  ofDigitChars 10 (text.takeWhile Char.isDigit) 0

/-- `normalize_time` of a defined text, without a result where that returns 0 because the text
matches no pattern. -/
def normalizeTime (date : Text) : Option Nat :=
  if date.takeWhile Char.isDigit = [] then none
  else
    match date.dropWhile Char.isDigit with
    | [] => some (number date)
    | ['\n'] => some (number date)
    | modifier :: _ => (modifier? modifier).map (number date * ·)

def getAbbrTime (time : Nat) : Text :=
  if time < 60 then toDigits 10 time ++ ['s']
  else if time < 3600 ∨ time % 3600 > 0 then toDigits 10 (time / 60) ++ ['m']
  else if time < 86400 ∨ time % 86400 > 0 then toDigits 10 (time / 3600) ++ ['h']
  else if time < 604800 ∨ time % 604800 > 0 then toDigits 10 (time / 86400) ++ ['D']
  else if time < 2592000 ∨ time % 2592000 > 0 then toDigits 10 (time / 604800) ++ ['W']
  else if time < 31536000 ∨ time % 31536000 > 0 then toDigits 10 (time / 2592000) ++ ['M']
  else toDigits 10 (time / 31536000) ++ ['Y']

variable {seconds : Nat}

theorem not_isDigit_of_modifier? {modifier : Char}
    (unit : modifier? modifier = some seconds) : modifier.isDigit = false := by
  unfold modifier? at unit
  split at unit
  all_goals first | rfl | cases unit

theorem normalizeTime_append {digits rest : Text} {modifier : Char}
    (nonempty : digits ≠ []) (valid : ∀ char ∈ digits, char.isDigit = true)
    (unit : modifier? modifier = some seconds) :
    normalizeTime (digits ++ modifier :: rest) = some (ofDigitChars 10 digits 0 * seconds) := by
  have ends : ∀ char ∈ (modifier :: rest).head?, char.isDigit = false := by
    rintro char ⟨⟩
    exact not_isDigit_of_modifier? unit
  obtain ⟨front, behind⟩ := span_append valid ends
  rw [normalizeTime, number, front, behind, if_neg nonempty]
  split
  · contradiction
  next same =>
    rw [(cons.inj same).1] at unit
    cases unit
  next same => rw [← (cons.inj same).1, unit, Option.map_some]

/-- A time that is written with a unit is read back as the multiple of it. -/
theorem normalizeTime_abbr_iff {time : Nat} {modifier : Char}
    (unit : modifier? modifier = some seconds) :
    normalizeTime (toDigits 10 (time / seconds) ++ [modifier]) = some time ↔
      seconds ∣ time := by
  rw [normalizeTime_append Nat.toDigits_ne_nil (isDigit_toDigits _) unit,
    ofDigitChars_ten_toDigits, Option.some_inj]
  exact ⟨fun same => Dvd.intro_left _ same, Nat.div_mul_cancel⟩

theorem normalizeTime_getAbbrTime_iff (time : Nat) :
    normalizeTime (getAbbrTime time) = some time ↔ time < 60 ∨ 60 ∣ time := by
  -- from the hour on, the unit was chosen because it divides the time
  have larger {modifier : Char} {seconds bound : Nat} (unit : modifier? modifier = some seconds)
      (minutes : 60 ∣ seconds) (chosen : ¬ (time < bound ∨ time % seconds > 0)) :
      normalizeTime (toDigits 10 (time / seconds) ++ [modifier]) = some time ↔
        time < 60 ∨ 60 ∣ time := by
    have whole : seconds ∣ time :=
      Nat.dvd_of_mod_eq_zero (Nat.eq_zero_of_not_pos (not_or.mp chosen).2)
    exact iff_of_true ((normalizeTime_abbr_iff unit).mpr whole) (.inr (minutes.trans whole))
  unfold getAbbrTime
  split
  next small =>
    refine iff_of_true ?_ (.inl small)
    rw [normalizeTime_append Nat.toDigits_ne_nil (isDigit_toDigits _) rfl,
      ofDigitChars_ten_toDigits, mul_one]
  split
  · rw [normalizeTime_abbr_iff rfl]
    omega
  split
  next chosen _ => exact larger rfl ⟨60, rfl⟩ chosen
  split
  next chosen _ => exact larger rfl ⟨1440, rfl⟩ chosen
  split
  next chosen _ => exact larger rfl ⟨10080, rfl⟩ chosen
  split
  next chosen _ => exact larger rfl ⟨43200, rfl⟩ chosen
  next chosen => exact larger rfl ⟨525600, rfl⟩ chosen

theorem time_truncated : normalizeTime (getAbbrTime 90) = some 60 := by decide

/-! ### The reader of the Go services -/

inductive TimeError where
  | notValid (spec : Text)
  | outOfRange (digits : Text)
  deriving DecidableEq

def second : Int64 := 1000000000

def minute : Int64 := 60 * second

def hour : Int64 := 60 * minute

/-- The duration of a number of units; there is one also for units that are not known. -/
def duration (i : Int64) : Text → Int64
  | [] => i * second
  | ['s'] => i * second
  | ['m'] => i * minute
  | ['h'] => i * hour
  | ['D'] => i * hour * 24
  | ['W'] => i * hour * 24 * 7
  | ['M'] => i * hour * 24 * 30
  | ['Y'] => i * hour * 24 * 365
  | _ => 0

def isModifier (char : Char) : Bool :=
  (modifier? char).isSome

/-- What the second group of the pattern matches behind the first number. -/
def modifiers (spec : Text) : Text :=
  ((spec.dropWhile (!·.isDigit)).dropWhile Char.isDigit).takeWhile isModifier

def goNormalizeTime (spec : Text) : Except TimeError Int64 :=
  let found := spec.dropWhile (!·.isDigit)
  if found = [] then .error (.notValid spec)
  else if number found < 2 ^ 63 then
    .ok (duration (Int64.ofNat (number found)) (modifiers spec))
  else .error (.outOfRange (found.takeWhile Char.isDigit))

/-- What the two readers agree about. -/
structure Agree (spec : Text) : Prop where
  accepted : (∃ interval, goNormalizeTime spec = .ok interval) ↔
    ∃ seconds, normalizeTime spec = some seconds
  same : ∀ seconds, normalizeTime spec = some seconds → seconds * 10 ^ 9 < 2 ^ 63 →
    ∃ interval, goNormalizeTime spec = .ok interval ∧ interval.toInt = seconds * 10 ^ 9
  understood : ∀ interval, goNormalizeTime spec = .ok interval →
    ∃ seconds, normalizeTime spec = some seconds ∧ interval.toInt = seconds * 10 ^ 9

theorem toInt_ofNat_eq_iff (value : Nat) : (Int64.ofNat value).toInt = value ↔ value < 2 ^ 63 := by
  constructor
  · intro same
    have bound := (Int64.ofNat value).toInt_lt
    omega
  · exact Int64.toInt_ofNat_of_lt

theorem duration_singleton {modifier : Char}
    (unit : modifier? modifier = some seconds) (i : Int64) :
    duration i [modifier] = i * Int64.ofNat (seconds * 10 ^ 9) := by
  unfold modifier? at unit
  split at unit <;> cases unit
  all_goals
    simp only [duration, Int64.mul_assoc]
    exact congrArg (i * ·) (by decide)

@[simp] theorem duration_cons_cons (i : Int64) (first second : Char) (rest : Text) :
    duration i (first :: second :: rest) = 0 := by
  simp [duration]

variable {spec : Text}

/-- How a text that Perl accepts is read by both. -/
theorem of_normalizeTime (read : normalizeTime spec = some seconds) :
    spec.dropWhile (!·.isDigit) = spec ∧ spec ≠ [] ∧
      ∃ unit, 0 < unit ∧ seconds = number spec * unit ∧ ((modifiers spec).length ≤ 1 →
        ∀ i, duration i (modifiers spec) = i * Int64.ofNat (unit * 10 ^ 9)) := by
  unfold normalizeTime at read
  split at read
  · cases read
  next digits =>
    rcases spec with _ | ⟨first, spec⟩
    · exact absurd rfl digits
    have digit : first.isDigit = true := by
      by_contra other
      exact digits (by simp [other])
    have whole : (first :: spec).dropWhile (!·.isDigit) = first :: spec := by simp [digit]
    refine ⟨whole, cons_ne_nil _ _, ?_⟩
    unfold modifiers
    rw [whole]
    have plain (i : Int64) : duration i [] = i * Int64.ofNat (1 * 10 ^ 9) :=
      congrArg (i * ·) (by decide)
    split at read
    next none =>
      exact ⟨1, one_pos, by simpa using read.symm, fun _ => by rw [none]; exact plain⟩
    next line =>
      exact ⟨1, one_pos, by simpa using read.symm, fun _ => by rw [line]; exact plain⟩
    next modifier rest behind =>
      obtain ⟨unit, known, rfl⟩ := Option.map_eq_some_iff.mp read
      refine ⟨unit, ?_, rfl, fun single i => ?_⟩
      · unfold modifier? at known
        split at known <;> cases known <;> decide
      · rw [behind, takeWhile_cons_of_pos (by simp [isModifier, known])] at single ⊢
        rw [length_eq_zero_iff.mp (le_zero.mp (le_of_succ_le_succ single)),
          duration_singleton known]

theorem agree_of_error {error : TimeError} (failed : goNormalizeTime spec = .error error) :
    Agree spec ↔ normalizeTime spec = none := by
  constructor
  · intro agree
    rw [Option.eq_none_iff_forall_not_mem]
    intro seconds read
    obtain ⟨interval, accepted⟩ := agree.accepted.mpr ⟨seconds, read⟩
    rw [failed] at accepted
    cases accepted
  · intro rejected
    refine ⟨?_, ?_, ?_⟩ <;> simp [failed, rejected]

theorem agree_of_ok {interval : Int64} (read : goNormalizeTime spec = .ok interval) :
    Agree spec ↔
      ∃ seconds, normalizeTime spec = some seconds ∧ interval.toInt = seconds * 10 ^ 9 := by
  constructor
  · intro agree
    exact agree.understood interval read
  · rintro ⟨seconds, perl, same⟩
    refine ⟨?_, ?_, ?_⟩
    · exact iff_of_true ⟨interval, read⟩ ⟨seconds, perl⟩
    · intro other found _
      cases perl.symm.trans found
      exact ⟨interval, read, same⟩
    · intro other found
      cases read.symm.trans found
      exact ⟨seconds, perl, same⟩

/-- A duration is exact if it fits and has one unit, or if there is nothing to be lost. -/
theorem duration_exact_iff (read : normalizeTime spec = some seconds) :
    (duration (Int64.ofNat (number spec)) (modifiers spec)).toInt = seconds * 10 ^ 9 ↔
      seconds * 10 ^ 9 < 2 ^ 63 ∧ ((modifiers spec).length ≤ 1 ∨ seconds = 0) := by
  obtain ⟨-, -, unit, -, value, exactly⟩ := of_normalizeTime read
  by_cases single : (modifiers spec).length ≤ 1
  · rw [exactly single, ← Int64.ofNat_mul, ← mul_assoc, ← value,
      and_iff_left (.inl single), ← toInt_ofNat_eq_iff]
    push_cast
    rfl
  · have lost : duration (Int64.ofNat (number spec)) (modifiers spec) = 0 := by
      generalize modifiers spec = units at single ⊢
      rcases units with _ | ⟨first, _ | ⟨second, rest⟩⟩
      · exact absurd (zero_le _) single
      · exact absurd (le_refl _) single
      · exact duration_cons_cons _ _ _ _
    have zero : (0 : Int64).toInt = 0 := rfl
    rw [lost, zero]
    omega

theorem agree_iff (spec : Text) :
    Agree spec ↔
      (∀ char ∈ spec, char.isDigit = false) ∨
      2 ^ 63 ≤ number (spec.dropWhile (!·.isDigit)) ∧ normalizeTime spec = none ∨
      ∃ seconds, normalizeTime spec = some seconds ∧ seconds * 10 ^ 9 < 2 ^ 63 ∧
        ((modifiers spec).length ≤ 1 ∨ seconds = 0) := by
  by_cases none : spec.dropWhile (!·.isDigit) = []
  · have noDigit : ∀ char ∈ spec, char.isDigit = false := by simpa using none
    have failed : goNormalizeTime spec = .error (.notValid spec) := if_pos none
    refine iff_of_true ((agree_of_error failed).mpr ?_) (.inl noDigit)
    rw [Option.eq_none_iff_forall_not_mem]
    intro seconds read
    obtain ⟨same, nonempty, -⟩ := of_normalizeTime read
    exact nonempty (same.symm.trans none)
  · have digit : ¬ ∀ char ∈ spec, char.isDigit = false := fun all => none (by simpa using all)
    by_cases small : number (spec.dropWhile (!·.isDigit)) < 2 ^ 63
    · have accepted : goNormalizeTime spec =
          .ok (duration (Int64.ofNat (number (spec.dropWhile (!·.isDigit)))) (modifiers spec)) := by
        rw [goNormalizeTime]
        simp only [none, small, if_true, if_false]
      rw [agree_of_ok accepted, or_iff_right digit,
        or_iff_right fun large => absurd small (not_lt.mpr large.1)]
      refine exists_congr fun seconds => and_congr_right fun read => ?_
      rw [(of_normalizeTime read).1]
      exact duration_exact_iff read
    · have failed : ∃ error, goNormalizeTime spec = .error error := by
        rw [goNormalizeTime]
        simp only [none, small, if_false]
        exact ⟨_, rfl⟩
      obtain ⟨error, failed⟩ := failed
      rw [agree_of_error failed, or_iff_right digit, or_iff_left]
      · exact (and_iff_right (not_lt.mp small)).symm
      · rintro ⟨seconds, read, fits, -⟩
        obtain ⟨same, -, unit, positive, rfl, -⟩ := of_normalizeTime read
        rw [same] at small
        have larger : number spec ≤ number spec * unit := Nat.le_mul_of_pos_right _ positive
        omega

theorem readers_differ :
    (goNormalizeTime "5Z".toList = .ok (5 * second) ∧ normalizeTime "5Z".toList = none) ∧
      (goNormalizeTime "5mm".toList = .ok 0 ∧ normalizeTime "5mm".toList = some 300) ∧
        goNormalizeTime "999Y".toList = .ok (-5389024147419103232) := by decide

end PacketFence.Util
