import Mathlib.Data.List.DropRight

/-!
# Reading tokens off a text

White space, identifiers and quoted literals, as the usual regular expressions
read them. An identifier is words joined by single dots or dashes. A quoted
literal ends at the first quote that is not escaped; what is written with
`escape` is read back as it was.

`Spaced` says what a token stands behind without saying how it is found; the
scanners find exactly the tokens it describes.
-/

namespace PacketFence.Foundations.Lexing

open List Option

abbrev Text := List Char

def isSpace (char : Char) : Bool :=
  char == ' ' || char == '\t' || char == '\n' || char == '\r' || char == '\x0b' ||
    char == '\x0c'

def skipSpace (text : Text) : Text :=
  text.dropWhile isSpace

def symbol? (symbol : Char) (text : Text) : Option Text :=
  match skipSpace text with
  | char :: rest => if char = symbol then some rest else none
  | [] => none

/-- What `(.*)$` captures: `.` stops at a line feed, and `$` is the end or in
front of a last line feed. -/
def captureLine? (text : Text) : Option Text :=
  match text.dropWhile (· != '\n') with
  | [] => some text
  | ['\n'] => some (text.takeWhile (· != '\n'))
  | _ => none

variable {text rest name : Text} {char quote : Char}

theorem captureLine?_of_notMem (single : '\n' ∉ text) : captureLine? text = some text := by
  have whole : text.dropWhile (· != '\n') = [] := by
    rw [dropWhile_eq_nil_iff]
    intro char member
    rw [bne_iff_ne]
    rintro rfl
    exact single member
  rw [captureLine?, whole]

/-- What is taken up to the first character that does not belong to it. -/
theorem span_append {belongs : Char → Bool} {front : Text}
    (inside : ∀ char ∈ front, belongs char = true)
    (ends : ∀ char ∈ rest.head?, belongs char = false) :
    (front ++ rest).takeWhile belongs = front ∧ (front ++ rest).dropWhile belongs = rest := by
  rw [takeWhile_append_of_pos inside, dropWhile_append_of_pos inside]
  cases rest with
  | nil => simp
  | cons char rest => simp [ends char rfl]

def isWord (char : Char) : Bool :=
  char.isAlphanum || char == '_'

def startsWord : Text → Bool
  | char :: _ => isWord char
  | [] => false

/-- The longest continuation of an identifier, and what is behind it. -/
def identifierRest : Text → Text × Text
  | [] => ([], [])
  | char :: rest =>
    if isWord char || ((char == '.' || char == '-') && startsWord rest) then
      (char :: (identifierRest rest).1, (identifierRest rest).2)
    else
      ([], char :: rest)

def identifier? (text : Text) : Option (Text × Text) :=
  if startsWord (skipSpace text) then some (identifierRest (skipSpace text)) else none

def isIdentifier (name : Text) : Bool :=
  startsWord name && (identifierRest name).2.isEmpty

/-- The raw content of a literal and what is behind its closing quote. -/
def quotedBody (quote : Char) : Text → Option (Text × Text)
  | [] => none
  | char :: rest =>
    if char = quote then
      some ([], rest)
    else if char = '\\' then
      match rest with
      | [] => none
      | escaped :: rest =>
        if escaped = quote ∨ escaped = '\\' then
          (quotedBody quote rest).map fun read => ('\\' :: escaped :: read.1, read.2)
        else
          none
    else
      (quotedBody quote rest).map fun read => (char :: read.1, read.2)

/-- Replace every `first` followed by `second`, from the left. -/
def substitute (first second replacement : Char) : Text → Text
  | [] => []
  | [char] => [char]
  | char :: next :: rest =>
    if char = first ∧ next = second then
      replacement :: substitute first second replacement rest
    else
      char :: substitute first second replacement (next :: rest)

def unescape (quote : Char) (raw : Text) : Text :=
  substitute '\\' '\\' '\\' (substitute '\\' quote quote raw)

def quoted? (quote : Char) (text : Text) : Option (Text × Text) :=
  (symbol? quote text).bind fun body =>
    (quotedBody quote body).map fun read => (unescape quote read.1, read.2)

def escape (quote : Char) : Text → Text
  | [] => []
  | char :: rest =>
    if char = quote ∨ char = '\\' then
      '\\' :: char :: escape quote rest
    else
      char :: escape quote rest

theorem skipSpace_skipSpace (text : Text) : skipSpace (skipSpace text) = skipSpace text :=
  dropWhile_idempotent ..

theorem skipSpace_cons (text : Text) (visible : isSpace char = false) :
    skipSpace (char :: text) = char :: text := by simp [skipSpace, visible]

theorem not_isWord_of_isSpace (space : isSpace char = true) : isWord char = false := by
  simp only [isSpace, Bool.or_eq_true, beq_iff_eq] at space
  rcases space with ((((rfl | rfl) | rfl) | rfl) | rfl) | rfl <;> decide

theorem skipSpace_of_startsWord (word : startsWord text = true) : skipSpace text = text := by
  cases text with
  | nil => rfl
  | cons char rest =>
    refine skipSpace_cons rest ?_
    by_contra space
    rw [Bool.not_eq_false] at space
    simp [startsWord, not_isWord_of_isSpace space] at word

theorem startsWord_append (word : startsWord text = true) (rest : Text) :
    startsWord (text ++ rest) = true := by
  cases text with
  | nil => simp [startsWord] at word
  | cons => exact word

theorem identifierRest_append (whole : (identifierRest name).2 = [])
    (ends : identifierRest rest = ([], rest)) : identifierRest (name ++ rest) = (name, rest) := by
  induction name with
  | nil => simpa using ends
  | cons char name ih =>
    unfold identifierRest at whole
    split at whole
    next continues =>
      have goesOn : (isWord char ||
          ((char == '.' || char == '-') && startsWord (name ++ rest))) = true := by
        rcases Bool.or_eq_true_iff.mp continues with word | joined
        · simp [word]
        · rw [Bool.and_eq_true] at joined
          simp [joined.1, startsWord_append joined.2]
      rw [cons_append, identifierRest, if_pos goesOn, ih whole]
    · simp at whole

theorem identifier?_append (valid : isIdentifier name = true)
    (ends : identifierRest rest = ([], rest)) : identifier? (name ++ rest) = some (name, rest) := by
  simp only [isIdentifier, Bool.and_eq_true, List.isEmpty_iff] at valid
  have word := startsWord_append valid.1 rest
  rw [identifier?, skipSpace_of_startsWord word, if_pos word, identifierRest_append valid.2 ends]

theorem startsWord_identifierRest (word : startsWord text = true) :
    startsWord (identifierRest text).1 = true := by
  cases text with
  | nil => cases word
  | cons char rest =>
    rw [startsWord] at word
    simp [identifierRest, word, startsWord]

variable (text)

theorem identifierRest_identifierRest : (identifierRest (identifierRest text).1).2 = [] := by
  induction text with
  | nil => rfl
  | cons char rest ih =>
    by_cases continues : (isWord char || ((char == '.' || char == '-') && startsWord rest)) = true
    · have goesOn : (isWord char ||
          ((char == '.' || char == '-') && startsWord (identifierRest rest).1)) = true := by
        rcases Bool.or_eq_true_iff.mp continues with word | joined
        · simp [word]
        · rw [Bool.and_eq_true] at joined
          simp [joined.1, startsWord_identifierRest joined.2]
      have read : (identifierRest (char :: rest)).1 = char :: (identifierRest rest).1 := by
        rw [identifierRest, if_pos continues]
      rw [read, identifierRest, if_pos goesOn]
      exact ih
    · rw [identifierRest, if_neg continues]
      rfl

theorem quotedBody_escape (proper : quote ≠ '\\') (value rest : Text) :
    quotedBody quote (escape quote value ++ quote :: rest) = some (escape quote value, rest) := by
  induction value with
  | nil =>
    unfold escape quotedBody
    simp
  | cons char value ih =>
    unfold escape
    split
    next special => simp [quotedBody, proper.symm, special, ih]
    next ordinary =>
      rw [not_or] at ordinary
      unfold quotedBody
      simp [ordinary, ih]

theorem substitute_cons_escape (proper : quote ≠ '\\') (char : Char) (value : Text) :
    substitute '\\' quote quote (char :: escape quote value) =
      char :: substitute '\\' quote quote (escape quote value) := by
  cases value with
  | nil => rfl
  | cons first value =>
    unfold escape
    split
    · simp [substitute, proper.symm]
    next ordinary =>
      rw [not_or] at ordinary
      simp [substitute, ordinary.1]

theorem substitute_escape (proper : quote ≠ '\\') (value : Text) :
    substitute '\\' quote quote (escape quote value) = escape '\\' value := by
  induction value with
  | nil => rfl
  | cons char value ih =>
    by_cases isQuote : char = quote
    · subst isQuote
      simp [escape, substitute, proper, ih]
    · by_cases isBackslash : char = '\\'
      · subst isBackslash
        have kept := substitute_cons_escape proper '\\' value
        simp [escape, substitute, proper.symm, kept, ih]
      · have kept := substitute_cons_escape proper char value
        simp [escape, isQuote, isBackslash, kept, ih]

theorem substitute_cons_of_ne {first second replacement : Char} (different : char ≠ first)
    (text : Text) :
    substitute first second replacement (char :: text) =
      char :: substitute first second replacement text := by
  cases text with
  | nil => rfl
  | cons => simp [substitute, different]

theorem substitute_escape_backslash (value : Text) :
    substitute '\\' '\\' '\\' (escape '\\' value) = value := by
  induction value with
  | nil => rfl
  | cons char value ih =>
    by_cases isBackslash : char = '\\'
    · subst isBackslash
      simp [escape, substitute, ih]
    · have kept : escape '\\' (char :: value) = char :: escape '\\' value := by
        simp [escape, isBackslash]
      rw [kept, substitute_cons_of_ne isBackslash, ih]

theorem unescape_escape (proper : quote ≠ '\\') (value : Text) :
    unescape quote (escape quote value) = value := by
  rw [unescape, substitute_escape proper, substitute_escape_backslash]

def Spaced (text rest : Text) : Prop :=
  ∃ spaces, (∀ char ∈ spaces, isSpace char = true) ∧ text = spaces ++ rest

def next? : Option Char :=
  (skipSpace text).head?

theorem spaced_refl : Spaced text text := ⟨[], nofun, rfl⟩

theorem spaced_space : Spaced (' ' :: text) text :=
  ⟨[' '], forall_mem_singleton.mpr rfl, rfl⟩

theorem spaced_skipSpace : Spaced text (skipSpace text) :=
  ⟨text.takeWhile isSpace, fun _ => mem_takeWhile_imp, takeWhile_append_dropWhile.symm⟩

variable {text}

theorem Spaced.trans {behind : Text} (first : Spaced text behind) (second : Spaced behind rest) :
    Spaced text rest := by
  obtain ⟨spaces, areSpaces, rfl⟩ := first
  obtain ⟨others, areOthers, rfl⟩ := second
  refine ⟨spaces ++ others, fun char member => ?_, (append_assoc ..).symm⟩
  rcases mem_append.mp member with member | member
  · exact areSpaces char member
  · exact areOthers char member

theorem Spaced.skipSpace_eq (spaced : Spaced text rest) : skipSpace text = skipSpace rest := by
  obtain ⟨spaces, areSpaces, rfl⟩ := spaced
  exact dropWhile_append_of_pos areSpaces

theorem Spaced.length_le (spaced : Spaced text rest) : rest.length ≤ text.length := by
  obtain ⟨spaces, -, rfl⟩ := spaced
  simp

theorem spaced_cons_iff (visible : isSpace char = false) :
    Spaced text (char :: rest) ↔ skipSpace text = char :: rest := by
  constructor
  · intro spaced
    rw [spaced.skipSpace_eq, skipSpace_cons _ visible]
  · intro skipped
    rw [← skipped]
    exact spaced_skipSpace text

theorem spaced_nil_iff : Spaced text [] ↔ skipSpace text = [] := by
  constructor
  · intro spaced
    exact spaced.skipSpace_eq
  · intro skipped
    rw [← skipped]
    exact spaced_skipSpace text

theorem symbol?_eq_some_iff (visible : isSpace char = false) :
    symbol? char text = some rest ↔ Spaced text (char :: rest) := by
  rw [spaced_cons_iff visible, symbol?]
  cases skipSpace text with
  | nil => simp
  | cons first others => by_cases same : first = char <;> simp [same]

theorem next?_of_spaced (visible : isSpace char = false) (spaced : Spaced text (char :: rest)) :
    next? text = some char := by rw [next?, (spaced_cons_iff visible).mp spaced, head?_cons]

theorem next?_congr {other : Text} (same : skipSpace text = skipSpace other) :
    next? text = next? other := by rw [next?, next?, same]

theorem symbol?_eq_none (different : next? text ≠ some char) : symbol? char text = none := by
  rw [next?] at different
  rw [symbol?]
  cases read : skipSpace text with
  | nil => rfl
  | cons first others =>
    rw [read, head?_cons, ne_eq, Option.some.injEq] at different
    exact if_neg different

theorem symbol?_congr {other : Text} (same : skipSpace text = skipSpace other) :
    symbol? char text = symbol? char other := by rw [symbol?, symbol?, same]

theorem identifierRest_append_self (text : Text) :
    (identifierRest text).1 ++ (identifierRest text).2 = text := by
  induction text with
  | nil => rfl
  | cons char rest ih =>
    rw [identifierRest]
    split
    · rw [cons_append, ih]
    · rfl

theorem isIdentifier_identifierRest (word : startsWord text = true) :
    isIdentifier (identifierRest text).1 = true := by
  simp [isIdentifier, startsWord_identifierRest word, identifierRest_identifierRest]

theorem length_pos_of_isIdentifier (valid : isIdentifier name = true) : 0 < name.length := by
  cases name with
  | nil => cases valid
  | cons => exact Nat.succ_pos _

theorem spaced_of_identifier? (read : identifier? text = some (name, rest)) :
    isIdentifier name = true ∧ Spaced text (name ++ rest) := by
  rw [identifier?] at read
  split at read
  next word =>
    obtain ⟨rfl, rfl⟩ := Prod.mk.inj (Option.some.inj read)
    refine ⟨isIdentifier_identifierRest word, ?_⟩
    rw [identifierRest_append_self]
    exact spaced_skipSpace text
  · cases read

theorem identifierRest_eq_nil (ends : ∀ char, next? rest = some char →
    isWord char = false ∧ char ≠ '.' ∧ char ≠ '-') : identifierRest rest = ([], rest) := by
  cases rest with
  | nil => rfl
  | cons char rest =>
    have apart : isWord char = false ∧ char ≠ '.' ∧ char ≠ '-' := by
      cases space : isSpace char with
      | true =>
        refine ⟨not_isWord_of_isSpace space, ?_, ?_⟩
        all_goals
          rintro rfl
          simp [isSpace] at space
      | false => exact ends char (by rw [next?, skipSpace_cons _ space, head?_cons])
    rw [identifierRest, if_neg]
    simp [apart]

theorem identifier?_of_spaced (valid : isIdentifier name = true)
    (spaced : Spaced text (name ++ rest)) (ends : identifierRest rest = ([], rest)) :
    identifier? text = some (name, rest) := by
  have found := identifier?_append valid ends
  rwa [identifier?, ← spaced.skipSpace_eq] at found

theorem identifier?_eq_none (noWord : ∀ char, next? text = some char → isWord char = false) :
    identifier? text = none := by
  rw [identifier?, if_neg]
  cases read : skipSpace text with
  | nil => simp [startsWord]
  | cons char rest => simp [startsWord, noWord char (by rw [next?, read, head?_cons])]

theorem isSpace_of_isWord (word : isWord char = true) : isSpace char = false := by
  by_contra space
  rw [Bool.not_eq_false] at space
  simp [not_isWord_of_isSpace space] at word

theorem next?_of_identifier (valid : isIdentifier name = true)
    (spaced : Spaced text (name ++ rest)) :
    ∃ char, next? text = some char ∧ isWord char = true := by
  cases name with
  | nil => simp [isIdentifier, startsWord] at valid
  | cons char name =>
    have word : isWord char = true := by
      rw [isIdentifier, Bool.and_eq_true] at valid
      exact valid.1
    exact ⟨char, next?_of_spaced (isSpace_of_isWord word) spaced, word⟩

theorem escape_of_quotedBody {raw : Text} (read : quotedBody quote text = some (raw, rest)) :
    ∃ value, raw = escape quote value ∧ text = raw ++ quote :: rest := by
  fun_induction quotedBody quote text generalizing raw rest with
  | case1 => cases read
  | case2 closing =>
    obtain ⟨rfl, rfl⟩ := Prod.mk.inj (Option.some.inj read)
    exact ⟨[], rfl, rfl⟩
  | case3 => cases read
  | case4 escaped behind special _ ih =>
    obtain ⟨⟨inside, others⟩, found, same⟩ := map_eq_some_iff.mp read
    obtain ⟨rfl, rfl⟩ := Prod.mk.inj same
    obtain ⟨value, rfl, rfl⟩ := ih found
    refine ⟨escaped :: value, ?_, rfl⟩
    rw [escape, if_pos special]
  | case5 => cases read
  | case6 char behind notQuote notBackslash ih =>
    obtain ⟨⟨inside, others⟩, found, same⟩ := map_eq_some_iff.mp read
    obtain ⟨rfl, rfl⟩ := Prod.mk.inj same
    obtain ⟨value, rfl, rfl⟩ := ih found
    refine ⟨char :: value, ?_, rfl⟩
    rw [escape, if_neg (not_or.mpr ⟨notQuote, notBackslash⟩)]

theorem quoted?_eq_some_iff (proper : quote ≠ '\\')
    (visible : isSpace quote = false) {value : Text} :
    quoted? quote text = some (value, rest) ↔
      Spaced text (quote :: (escape quote value ++ quote :: rest)) := by
  constructor
  · intro read
    obtain ⟨body, opened, inside⟩ := bind_eq_some_iff.mp read
    obtain ⟨⟨raw, behind⟩, found, same⟩ := map_eq_some_iff.mp inside
    obtain ⟨value, rfl, rfl⟩ := escape_of_quotedBody found
    obtain ⟨rfl, rfl⟩ := Prod.mk.inj same
    rw [unescape_escape proper]
    exact (symbol?_eq_some_iff visible).mp opened
  · intro spaced
    rw [quoted?, (symbol?_eq_some_iff visible).mpr spaced, bind_some,
      quotedBody_escape proper, map_some, unescape_escape proper]

end PacketFence.Foundations.Lexing
