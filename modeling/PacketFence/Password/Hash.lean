import Mathlib.Logic.Equiv.List
import PacketFence.Foundations.Bytes
import PacketFence.Foundations.Lexing

/-!
# Stored passwords

A password is stored as it is, or as a record that begins with the name of its
algorithm. The check reads the algorithm off the stored text, so a password that is
stored as it is and begins like a record is checked as one.

The hash functions and their base 64 are given. A function that dies gives nothing.
-/

namespace PacketFence.Password

open Foundations Lexing List Option

/-- The functions of `Crypt::Eksblowfish::Bcrypt` and `Crypt::SmbHash`. -/
structure Crypt where
  enBase64 : Bytes → Text
  deBase64 : Text → Option Bytes
  bcryptHash : Int → Bytes → Text → Option Bytes
  nthash : Text → Text

structure Crypt.Documented (crypt : Crypt) : Prop where
  deBase64_enBase64 : ∀ bytes, crypt.deBase64 (crypt.enBase64 bytes) = some bytes
  length_enBase64 : ∀ bytes : Bytes, bytes.length = 16 → (crypt.enBase64 bytes).length = 22
  bcryptHash_defined : ∀ (cost : Int) (salt : Bytes) (plaintext : Text),
    0 ≤ cost → cost < 100 → salt.length = 16 → crypt.bcryptHash cost salt plaintext ≠ none
  bcryptHash_injective : ∀ (cost : Int) (salt : Bytes) (first second : Text) (hash : Bytes),
    crypt.bcryptHash cost salt first = some hash → crypt.bcryptHash cost salt second = some hash →
      first = second
  nthash_injective : ∀ first second, crypt.nthash first = crypt.nthash second → first = second

/-! ### Texts and numbers -/

def digitsValue (text : Text) : Nat :=
  (text.takeWhile Char.isDigit).foldl (fun value digit => value * 10 + (digit.toNat - '0'.toNat)) 0

/-- The integer a text stands for where a number is wanted. -/
def numeric (text : Text) : Int :=
  match skipSpace text with
  | '-' :: rest => -(digitsValue rest : Int)
  | '+' :: rest => digitsValue rest
  | rest => digitsValue rest

def formatCost (cost : Int) : Text :=
  let digits := Nat.toDigits 10 cost.natAbs
  if cost < 0 then '-' :: digits
  else if digits.length < 2 then '0' :: digits
  else digits

/-- Behind the end of the text there is nothing. -/
def substr (text : Text) (offset length : Nat) : Option Text :=
  if offset ≤ text.length then some ((text.drop offset).take length) else none

def isTrue (text : Option Text) : Bool :=
  text != none && text != some [] && text != some ['0']

/-- A regular expression without special characters matches somewhere in the text. -/
def mentions (name : Text) : Text → Bool
  | [] => name.isEmpty
  | char :: rest => name.isPrefixOf (char :: rest) || mentions name rest

/-! ### Hashing and checking -/

def bcryptPrefix : Text := "{bcrypt}".toList

def ntlmPrefix : Text := "{ntlm}".toList

namespace Crypt

variable (crypt : Crypt)

def record (cost : Int) (salt hash : Bytes) : Text :=
  bcryptPrefix ++ "$2a$".toList ++ formatCost cost ++ "$".toList ++ crypt.enBase64 salt ++
    crypt.enBase64 hash

def saltBytes (random : Bytes) (salt : Option Text) : Option Bytes :=
  if isTrue salt then crypt.deBase64 (salt.getD []) else some random

variable (hashingCost : Option Int)

/-- `bcrypt`, with the random bytes it draws and the cost of the configuration. -/
def bcrypt (random : Bytes) (salt : Option Text) (cost : Option Int)
    (plaintext : Text) : Option Text := do
  let salt ← crypt.saltBytes random salt
  let cost := cost.getD (hashingCost.getD 8)
  let hash ← crypt.bcryptHash cost salt plaintext
  some (crypt.record cost salt hash)

def ntlm (plaintext : Text) : Text :=
  ntlmPrefix ++ crypt.nthash plaintext

/-- `_hash_password`; an algorithm that is not supported is logged. -/
def hashPassword (random : Bytes) (algorithm plaintext : Text) : Option Text :=
  if mentions "plaintext".toList algorithm then some plaintext
  else if mentions "bcrypt".toList algorithm then
    crypt.bcrypt hashingCost random none none plaintext
  else if mentions "ntlm".toList algorithm then some (crypt.ntlm plaintext)
  else none

/-- The record that `_check_bcrypt` compares with. -/
def bcryptAgain (random : Bytes) (plaintext hashString : Text) : Option Text :=
  crypt.bcrypt hashingCost random (substr hashString 15 22)
    ((substr hashString 12 2).map numeric) plaintext

def checkBcrypt (random : Bytes) (plaintext hashString : Text) : Option Bool :=
  (crypt.bcryptAgain hashingCost random plaintext hashString).map
    fun hashedPlaintext => hashedPlaintext == hashString

def checkNtlm (plaintext hashString : Text) : Bool :=
  crypt.ntlm plaintext == hashString

def checkPassword (random : Bytes) (plaintext hashString : Text) : Option Bool :=
  if bcryptPrefix.isPrefixOf hashString then
    crypt.checkBcrypt hashingCost random plaintext hashString
  else if ntlmPrefix.isPrefixOf hashString then
    some (crypt.checkNtlm plaintext hashString)
  else
    some (plaintext == hashString)

end Crypt

inductive Setting where
  | plaintext
  | bcrypt
  | ntlm

def Setting.name : Setting → Text
  | plaintext => "plaintext".toList
  | bcrypt => "bcrypt".toList
  | ntlm => "ntlm".toList

/-- A password that is stored as it is, begins like a record and is not the record of
itself. -/
def Crypt.Mistaken (crypt : Crypt) (hashingCost : Option Int) (random : Bytes)
    (plaintext : Text) : Prop :=
  (bcryptPrefix.isPrefixOf plaintext = true ∧
      crypt.bcryptAgain hashingCost random plaintext plaintext ≠ some plaintext) ∨
    (ntlmPrefix.isPrefixOf plaintext = true ∧ crypt.ntlm plaintext ≠ plaintext)

namespace Crypt

variable {crypt : Crypt} {hashingCost : Option Int} {random salt hash : Bytes} {cost : Int}
  {first second plaintext hashString stored : Text}

section Records

theorem formatCost_spec (low : 0 ≤ cost) (high : cost < 100) :
    (formatCost cost).length = 2 ∧ numeric (formatCost cost) = cost := by
  have all : ∀ digits : Fin 100, (formatCost digits.val).length = 2 ∧
      numeric (formatCost digits.val) = digits.val := by decide
  obtain ⟨value, rfl⟩ := Int.eq_ofNat_of_zero_le low
  exact all ⟨value, by omega⟩

theorem substr_cost (length : (formatCost cost).length = 2) :
    substr (crypt.record cost salt hash) 12 2 = some (formatCost cost) := by
  have front : (bcryptPrefix ++ "$2a$".toList).length = 12 := by decide
  rw [substr, if_pos (by simp only [record, length_append] at front ⊢; omega)]
  simp only [record, append_assoc]
  rw [← append_assoc, drop_left' front, take_left' length]

variable (documented : crypt.Documented)

include documented

theorem substr_salt (length : (formatCost cost).length = 2) (sixteen : salt.length = 16) :
    substr (crypt.record cost salt hash) 15 22 = some (crypt.enBase64 salt) := by
  have front : (bcryptPrefix ++ "$2a$".toList ++ formatCost cost ++ "$".toList).length = 15 := by
    have fixed : (bcryptPrefix ++ "$2a$".toList).length = 12 := by decide
    have dollar : "$".toList.length = 1 := by decide
    rw [length_append, length_append, fixed, length, dollar]
  rw [substr, if_pos (by simp only [record, length_append] at front ⊢; omega), record,
    append_assoc, drop_left' front, take_left' (documented.length_enBase64 salt sixteen)]

theorem enBase64_injective {one two : Bytes}
    (same : crypt.enBase64 one = crypt.enBase64 two) : one = two := by
  have read := documented.deBase64_enBase64 one
  rw [same, documented.deBase64_enBase64 two] at read
  exact (some.inj read).symm

theorem record_injective {one two : Bytes}
    (same : crypt.record cost salt one = crypt.record cost salt two) : one = two :=
  enBase64_injective documented (append_cancel_left same)

theorem bcrypt_injective {saltText : Option Text}
    {given : Option Int} (one : crypt.bcrypt hashingCost random saltText given first = some stored)
    (two : crypt.bcrypt hashingCost random saltText given second = some stored) :
    first = second := by
  obtain ⟨salt, isSalt, one⟩ := bind_eq_some_iff.mp one
  obtain ⟨other, isOther, two⟩ := bind_eq_some_iff.mp two
  rw [isSalt, some.injEq] at isOther
  subst isOther
  obtain ⟨hash, hashed, isRecord⟩ := bind_eq_some_iff.mp one
  obtain ⟨otherHash, otherHashed, isOther⟩ := bind_eq_some_iff.mp two
  have same := record_injective documented (some.inj (isRecord.trans isOther.symm))
  subst same
  exact documented.bcryptHash_injective _ salt first second hash hashed otherHashed

theorem bcryptAgain_record (low : 0 ≤ cost) (high : cost < 100) (sixteen : salt.length = 16) :
    crypt.bcryptAgain hashingCost random plaintext (crypt.record cost salt hash) =
      crypt.bcrypt (some cost) salt none none plaintext := by
  obtain ⟨twoDigits, value⟩ := formatCost_spec low high
  have length := documented.length_enBase64 salt sixteen
  have given : isTrue (some (crypt.enBase64 salt)) = true := by
    simp only [isTrue, bne_iff_ne, Bool.and_eq_true, ne_eq, some.injEq, reduceCtorEq,
      not_false_eq_true, true_and]
    constructor <;> intro short <;> rw [short] at length <;> exact absurd length (by decide)
  have same : crypt.saltBytes random (some (crypt.enBase64 salt)) = crypt.saltBytes salt none := by
    rw [saltBytes, if_pos given, getD_some, documented.deBase64_enBase64]
    rfl
  rw [bcryptAgain, substr_cost twoDigits, substr_salt documented twoDigits sixteen, bcrypt, same,
    map_some, value]
  rfl

end Records

theorem checkBcrypt_eq_true_iff :
    crypt.checkBcrypt hashingCost random plaintext hashString = some true ↔
      crypt.bcryptAgain hashingCost random plaintext hashString = some hashString := by
  rw [checkBcrypt, map_eq_some_iff]
  constructor
  · rintro ⟨again, isAgain, same⟩
    rw [isAgain, beq_iff_eq.mp same]
  · exact fun isAgain => ⟨hashString, isAgain, beq_self_eq_true _⟩

theorem ntlm_injective (documented : crypt.Documented)
    (same : crypt.ntlm first = crypt.ntlm second) : first = second :=
  documented.nthash_injective first second (append_cancel_left same)

@[simp]
theorem isPrefixOf_record : bcryptPrefix.isPrefixOf (crypt.record cost salt hash) = true := by
  rw [ isPrefixOf_iff_prefix, record]
  exact prefix_append _ _

theorem isPrefixOf_ntlm : ntlmPrefix.isPrefixOf (crypt.ntlm plaintext) = true :=
  isPrefixOf_iff_prefix.mpr (prefix_append _ _)

theorem not_bcrypt_of_ntlm (isNtlm : ntlmPrefix.isPrefixOf hashString = true) :
    bcryptPrefix.isPrefixOf hashString = false := by
  by_contra isBcrypt
  rw [Bool.not_eq_false, isPrefixOf_iff_prefix] at isBcrypt
  rw [ isPrefixOf_iff_prefix] at isNtlm
  exact absurd ( prefix_or_prefix_of_prefix isBcrypt isNtlm) (by decide)

theorem checkPassword_of_bcrypt (isBcrypt : bcryptPrefix.isPrefixOf hashString = true) :
    crypt.checkPassword hashingCost random plaintext hashString = some true ↔
      crypt.bcryptAgain hashingCost random plaintext hashString = some hashString := by
  rw [checkPassword, if_pos isBcrypt, checkBcrypt_eq_true_iff]

theorem checkPassword_of_ntlm (isNtlm : ntlmPrefix.isPrefixOf hashString = true) :
    crypt.checkPassword hashingCost random plaintext hashString = some true ↔
      crypt.ntlm plaintext = hashString := by
  rw [checkPassword, if_neg (by simp [not_bcrypt_of_ntlm isNtlm]), if_pos isNtlm, checkNtlm,
    some.injEq, beq_iff_eq]

theorem checkPassword_of_neither (notBcrypt : bcryptPrefix.isPrefixOf hashString = false)
    (notNtlm : ntlmPrefix.isPrefixOf hashString = false) :
    crypt.checkPassword hashingCost random plaintext hashString = some true ↔
      plaintext = hashString := by
  rw [checkPassword, if_neg (by simp [notBcrypt]), if_neg (by simp [notNtlm]), some.injEq,
    beq_iff_eq]

theorem checkPassword_plaintext_iff (documented : crypt.Documented) (password : Text) :
    (∀ given, crypt.checkPassword hashingCost random given password = some true ↔
      password = given) ↔ ¬ crypt.Mistaken hashingCost random password := by
  unfold Mistaken
  cases isBcrypt : bcryptPrefix.isPrefixOf password with
  | true =>
    have notNtlm : ntlmPrefix.isPrefixOf password = false := by
      by_contra isNtlm
      rw [not_bcrypt_of_ntlm (by simpa using isNtlm)] at isBcrypt
      cases isBcrypt
    simp only [checkPassword_of_bcrypt isBcrypt, notNtlm, Bool.false_eq_true, true_and,
      false_and, or_false, not_not, ne_eq]
    constructor
    · exact fun exactly => (exactly password).mpr rfl
    · intro itself given
      constructor
      · exact fun again => bcrypt_injective documented itself again
      · rintro rfl
        exact itself
  | false =>
    cases isNtlm : ntlmPrefix.isPrefixOf password with
    | true =>
      simp only [checkPassword_of_ntlm isNtlm, Bool.false_eq_true, false_and, true_and,
        false_or, not_not]
      constructor
      · exact fun exactly => (exactly password).mpr rfl
      · intro itself given
        constructor
        · exact fun same => ntlm_injective documented (itself.trans same.symm)
        · rintro rfl
          exact itself
    | false => simp [checkPassword_of_neither isBcrypt isNtlm, eq_comm]

theorem hashPassword_plaintext :
    crypt.hashPassword hashingCost random Setting.plaintext.name plaintext = some plaintext :=
  if_pos (by decide)

@[simp] theorem hashPassword_ntlm :
    crypt.hashPassword hashingCost random Setting.ntlm.name plaintext =
      some (crypt.ntlm plaintext) := by
  rw [hashPassword, if_neg (by decide), if_neg (by decide), if_pos (by decide)]

@[simp] theorem hashPassword_bcrypt :
    crypt.hashPassword hashingCost random Setting.bcrypt.name plaintext =
      crypt.bcrypt hashingCost random none none plaintext := by
  rw [hashPassword, if_neg (by decide), if_pos (by decide)]

theorem exists_record (documented : crypt.Documented) (low : 0 ≤ cost) (high : cost < 100)
    (sixteen : salt.length = 16) (plaintext : Text) :
    ∃ hash, crypt.bcrypt (some cost) salt none none plaintext =
      some (crypt.record cost salt hash) := by
  obtain ⟨hash, hashed⟩ := ne_none_iff_exists'.mp
    (documented.bcryptHash_defined cost salt plaintext low high sixteen)
  refine ⟨hash, ?_⟩
  change (crypt.bcryptHash cost salt plaintext).bind _ = _
  rw [hashed]
  rfl

/-- A stored password verifies exactly, unless it is stored as it is and taken for a record. -/
theorem stored_password_verifies_iff {crypt : Crypt} (documented : crypt.Documented)
    (setting : Setting) {cost : Int} (low : 0 ≤ cost) (high : cost < 100) {salt : Bytes}
    (sixteen : salt.length = 16) (hashingCost : Option Int) (random : Bytes) (password : Text) :
    (∀ given, (∃ stored, crypt.hashPassword (some cost) salt setting.name password = some stored ∧
          crypt.checkPassword hashingCost random given stored = some true) ↔
      password = given) ↔
      ¬ (setting = .plaintext ∧ crypt.Mistaken hashingCost random password) := by
  cases setting with
  | plaintext =>
    simp only [hashPassword_plaintext, some.injEq, exists_eq_left', true_and]
    exact checkPassword_plaintext_iff documented password
  | ntlm =>
    refine iff_of_true (fun given => ?_) (by simp)
    simp only [hashPassword_ntlm, some.injEq, exists_eq_left',
      checkPassword_of_ntlm isPrefixOf_ntlm]
    constructor
    · exact fun same => (ntlm_injective documented same).symm
    · rintro rfl
      rfl
  | bcrypt =>
    refine iff_of_true (fun given => ?_) (by simp)
    obtain ⟨hash, isRecord⟩ := exists_record documented low high sixteen password
    simp only [hashPassword_bcrypt, isRecord, some.injEq, exists_eq_left',
      checkPassword_of_bcrypt isPrefixOf_record, bcryptAgain_record documented low high sixteen]
    constructor
    · exact fun same => bcrypt_injective documented isRecord same
    · rintro rfl
      exact isRecord

end Crypt

def plainCrypt : Crypt where
  enBase64 := fun bytes => bytes.map (fun byte => Char.ofNat byte.toNat) ++ List.replicate 6 '.'
  deBase64 := fun text =>
    some ((text.take (text.length - 6)).map fun char => UInt8.ofNat char.toNat)
  bcryptHash := fun _ _ plaintext =>
    some (List.replicate (Encodable.encode (plaintext.map Char.toNat)) 0)
  nthash := id

theorem plainCrypt_documented : plainCrypt.Documented where
  deBase64_enBase64 := by
    have back : ((fun char : Char => UInt8.ofNat char.toNat) ∘
        fun byte : UInt8 => Char.ofNat byte.toNat) = id := by
      have all : ∀ byte : Fin 256, (Char.ofNat byte.val).toNat = byte.val := by
        decide +kernel
      funext byte
      rw [Function.comp_apply, all ⟨byte.toNat, byte.toNat_lt⟩, UInt8.ofNat_toNat, id]
    simp [plainCrypt, back]
  length_enBase64 := by
    intro bytes sixteen
    simp [plainCrypt, sixteen]
  bcryptHash_defined := fun _ _ _ _ _ _ => some_ne_none _
  bcryptHash_injective := by
    intro cost salt first second hash one two
    have same := congrArg List.length (some.inj (one.trans two.symm))
    rw [length_replicate, length_replicate] at same
    exact map_injective_iff.mpr (fun _ _ => Char.toNat_inj.mp) (Encodable.encode_injective same)
  nthash_injective := fun _ _ same => same

theorem hashed_password_verifies :
    ∃ stored, plainCrypt.hashPassword (some 8) (List.replicate 16 7) Setting.bcrypt.name
        "{ntlm}".toList = some stored ∧
      plainCrypt.checkPassword none [] "{ntlm}".toList stored = some true :=
  ((Crypt.stored_password_verifies_iff plainCrypt_documented .bcrypt (by decide) (by decide)
    (length_replicate) none [] "{ntlm}".toList).mpr (by simp) _).mpr rfl

/-- A password that begins like a record is stored as it is, and does not verify. -/
theorem plaintext_password_refused :
    plainCrypt.Documented ∧
      plainCrypt.hashPassword (some 8) (List.replicate 16 7) Setting.plaintext.name
        "{ntlm}secret".toList = some "{ntlm}secret".toList ∧
      plainCrypt.checkPassword none [] "{ntlm}secret".toList "{ntlm}secret".toList =
        some false := ⟨plainCrypt_documented, by decide, by decide⟩

end PacketFence.Password
