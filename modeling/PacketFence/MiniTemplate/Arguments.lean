import PacketFence.MiniTemplate.Parser

/-!
# Literal arguments

A quote that is escaped ends its literal all the same, and the digits a number
begins with are taken for an argument of their own. Any other literal is read as
a whole.
-/

namespace PacketFence.MiniTemplate

open Foundations Lexing List

structure IsDigits (text : Text) : Prop where
  nonempty : text ≠ []
  digits : ∀ char ∈ text, char.isDigit = true

def IsSign (text : Text) : Prop :=
  text = [] ∨ text = ['-'] ∨ text = ['+']

def IsPower (text : Text) : Prop :=
  text = [] ∨ ∃ mark sign digits, (mark = 'e' ∨ mark = 'E') ∧ IsSign sign ∧ IsDigits digits ∧
    text = mark :: (sign ++ digits)

/-- The texts that match the pattern of `number`, part by part. -/
structure Numeral where
  sign : Text
  whole : Text
  point : Bool
  fraction : Text
  power : Text
  isSign : IsSign sign
  isWhole : ∀ char ∈ whole, char.isDigit = true
  isFraction : IsDigits fraction
  isPower : IsPower power

def Numeral.text (numeral : Numeral) : Text :=
  numeral.sign ++ (numeral.whole ++ ((if numeral.point then ['.'] else []) ++
    (numeral.fraction ++ numeral.power)))

inductive Quote
  | double
  | single

def Quote.char : Quote → Char
  | .double => '"'
  | .single => '\''

inductive Literal
  | quoted (quote : Quote) (value : Text)
  | number (numeral : Numeral)

namespace Literal

def escapeQuotes (quote : Char) (value : Text) : Text :=
  value.flatMap fun char => if char = quote then ['\\', quote] else [char]

def text : Literal → Text
  | .quoted quote value => quote.char :: (escapeQuotes quote.char value ++ [quote.char])
  | .number numeral => numeral.text

def value : Literal → Text
  | .quoted _ value => value
  | .number numeral => numeral.text

/-- No quote is escaped, and a number that begins with a digit has nothing else. -/
def Plain : Literal → Prop
  | .quoted quote value => quote.char ∉ value
  | .number numeral => (∃ char ∈ numeral.text.head?, char.isDigit = true) →
    ∀ char ∈ numeral.text, char.isDigit = true

end Literal

/-- The parser goes on with a comma or a parenthesis. -/
def Separated (rest : Text) : Prop :=
  (symbol? ',' rest).isSome ∨ (symbol? ')' rest).isSome

/-- Wherever the literal is an argument, it is read as one, and the parser goes on behind it. -/
def Literal.ReadWhole (argument : Literal) : Prop :=
  ∀ depth rest, Separated rest →
    parseFuncArg (depth + 1) (argument.text ++ rest) = .ok (.str argument.value, rest)

section Scanning

variable {text rest front : Text}

def Stops (rest : Text) : Prop :=
  ∀ char ∈ rest.head?, char.isDigit = false ∧ char ≠ '.' ∧ char ≠ 'e' ∧ char ≠ 'E'

theorem stops_of_separated (separated : Separated rest) : Stops rest := by
  intro char isHead
  obtain ⟨rest, rfl⟩ := head?_eq_some_iff.mp isHead
  by_cases space : isSpace char = true
  · simp only [isSpace, Bool.or_eq_true, beq_iff_eq] at space
    rcases space with ((((rfl | rfl) | rfl) | rfl) | rfl) | rfl <;> decide
  · have visible := skipSpace_cons rest (Bool.eq_false_iff.mpr space)
    simp only [Separated, symbol?, visible, Option.isSome_ite] at separated
    rcases separated with rfl | rfl <;> decide

theorem digits_append (isDigits : IsDigits front)
    (ends : ∀ char ∈ rest.head?, char.isDigit = false) :
    digits (front ++ rest) = some (front, rest) := by
  obtain ⟨taken, dropped⟩ := span_append isDigits.digits ends
  rw [digits, taken, dropped, if_neg isDigits.nonempty]

theorem sign_append (isSign : IsSign front)
    (ends : ∀ char ∈ text.head?, char ≠ '-' ∧ char ≠ '+') :
    sign (front ++ text) = (front, text) := by
  rcases isSign with rfl | rfl | rfl
  · rw [nil_append]
    unfold sign
    split
    · exact absurd rfl (ends _ rfl).1
    · exact absurd rfl (ends _ rfl).2
    · rfl
  · rfl
  · rfl

theorem not_sign {char : Char} (numeric : char.isDigit = true ∨ char = '.') :
    char ≠ '-' ∧ char ≠ '+' := by constructor <;> rintro rfl <;> exact absurd numeric (by decide)

theorem IsDigits.head_append (isDigits : IsDigits front) :
    ∀ char ∈ (front ++ rest).head?, char.isDigit = true ∨ char = '.' := by
  obtain ⟨char, front, rfl⟩ := exists_cons_of_ne_nil isDigits.nonempty
  rintro _ ⟨⟩
  exact .inl (isDigits.digits char mem_cons_self)

theorem exponent_append (isPower : IsPower front) (stops : Stops rest) :
    exponent (front ++ rest) = (front, rest) := by
  obtain rfl | ⟨mark, sign, power, isMark, isSign, isDigits, rfl⟩ := isPower
  · cases rest with
    | nil => rfl
    | cons char rest =>
      obtain ⟨-, -, small, capital⟩ := stops char rfl
      rw [nil_append, exponent, if_neg (by simp [small, capital])]
  · rw [cons_append, exponent, if_pos isMark, append_assoc,
      sign_append isSign fun char isHead => not_sign (isDigits.head_append char isHead),
      digits_append isDigits fun char isHead => (stops char isHead).1]

theorem stops_power (isPower : IsPower front) (stops : Stops rest) :
    ∀ char ∈ (front ++ rest).head?, char.isDigit = false ∧ char ≠ '.' := by
  obtain rfl | ⟨mark, sign, power, isMark, isSign, isDigits, rfl⟩ := isPower
  · intro char isHead
    obtain ⟨digit, point, -⟩ := stops char isHead
    exact ⟨digit, point⟩
  · rintro _ ⟨⟩
    rcases isMark with rfl | rfl <;> decide

variable {whole : Text} {quote : Char} (point : Bool) (numeral : Numeral)

theorem head_mantissa
    (isWhole : ∀ char ∈ whole, char.isDigit = true) (isFraction : IsDigits front) :
    ∀ char ∈ (whole ++ ((if point then ['.'] else []) ++ (front ++ rest))).head?,
      char.isDigit = true ∨ char = '.' := by
  cases whole with
  | nil =>
    cases point with
    | true =>
      rintro _ ⟨⟩
      exact .inr rfl
    | false => exact isFraction.head_append
  | cons first whole =>
    rintro _ ⟨⟩
    exact .inl (isWhole first mem_cons_self)

theorem mantissa_append {fraction : Text}
    (isWhole : ∀ char ∈ whole, char.isDigit = true) (isFraction : IsDigits fraction)
    (ends : ∀ char ∈ rest.head?, char.isDigit = false ∧ char ≠ '.') :
    mantissa (whole ++ ((if point then ['.'] else []) ++ (fraction ++ rest))) =
      some (whole ++ ((if point then ['.'] else []) ++ fraction), rest) := by
  have digit := fun char isHead => (ends char isHead).1
  cases point with
  | true =>
    obtain ⟨taken, dropped⟩ := @span_append ('.' :: (fraction ++ rest)) _ whole isWhole (by simp)
    change mantissa (whole ++ '.' :: (fraction ++ rest)) = _
    rw [mantissa, dropped]
    simp only [digits_append isFraction digit, taken]
    rfl
  | false =>
    have isDigits : IsDigits (whole ++ fraction) :=
      ⟨append_ne_nil_of_right_ne_nil _ isFraction.nonempty, forall_mem_append.mpr
        ⟨isWhole, isFraction.digits⟩⟩
    have read := digits_append isDigits digit
    have dropped := (span_append isDigits.digits digit).2
    change mantissa (whole ++ (fraction ++ rest)) = some (whole ++ fraction, rest)
    rw [← append_assoc, mantissa, dropped]
    split
    · exact absurd rfl (ends _ rfl).2
    · exact read

theorem number_numeral (stops : Stops rest) :
    number (numeral.text ++ rest) = some (numeral.text, rest) := by
  obtain ⟨sign, whole, point, fraction, power, isSign, isWhole, isFraction, isPower⟩ := numeral
  have read := mantissa_append point isWhole isFraction (stops_power isPower stops)
  have signed : MiniTemplate.sign (sign ++ (whole ++ ((if point then ['.'] else []) ++
      (fraction ++ (power ++ rest))))) = (sign, _) :=
    sign_append isSign fun char isHead =>
      not_sign (head_mantissa point isWhole isFraction char isHead)
  simp only [Numeral.text, append_assoc]
  rw [number, signed, read, Option.map_some, exponent_append isPower stops]
  simp

theorem parseFuncArg_of_literal {found : Text} {depth : Nat}
    (read : literal text = some (found, rest)) :
    parseFuncArg (depth + 1) text = .ok (.str found, rest) := by
  match text with
  | [] => cases read
  | char :: text =>
    by_cases dollar : char = '$'
    · subst dollar
      have nothing : literal ('$' :: text) = none := by
        simp [literal, quotedLiteral, digits, number, sign, mantissa]
      cases nothing.symm.trans read
    · rw [parseFuncArg, read]
      · simp
      · simpa using fun same => absurd same dollar

theorem quotedLiteral_eq_none (other : ∀ char ∈ text.head?, char ≠ quote) :
    quotedLiteral quote text = none := by
  cases text with
  | nil => rfl
  | cons char text => rw [quotedLiteral, if_neg (other char rfl)]

/-- The next quote ends a literal. -/
theorem literal_quoted (quote : Quote) (absent : quote.char ∉ front) :
    literal (quote.char :: (front ++ quote.char :: rest)) = some (front, rest) := by
  obtain ⟨taken, dropped⟩ := @span_append (quote.char :: rest) (· ≠ quote.char) front
    (fun char member => decide_eq_true fun same => absent (same ▸ member)) (by simp)
  have read : quotedLiteral quote.char (quote.char :: (front ++ quote.char :: rest)) =
      some (front, rest) := by rw [quotedLiteral, if_pos rfl, dropped, taken]
  cases quote with
  | double => exact congrArg (· <|> _) read
  | single =>
    exact congrArg (· <|> _) read

theorem escapeQuotes_of_notMem {value : Text} (absent : quote ∉ value) :
    Literal.escapeQuotes quote value = value := by
  induction value with
  | nil => rfl
  | cons char value ih =>
    rw [mem_cons, not_or] at absent
    rw [Literal.escapeQuotes, flatMap_cons, if_neg fun same => absent.1 same.symm]
    exact congrArg (char :: ·) (ih absent.2)

theorem Numeral.text_ne_nil : numeral.text ≠ [] := by
  simp [Numeral.text, numeral.isFraction.nonempty]

theorem literal_numeral (rest : Text) : literal (numeral.text ++ rest) =
      (digits (numeral.text ++ rest) <|> number (numeral.text ++ rest)) := by
  have heads : ∀ char ∈ (numeral.text ++ rest).head?, char ≠ '"' ∧ char ≠ '\'' := by
    obtain ⟨sign, whole, point, fraction, power, isSign, isWhole, isFraction, isPower⟩ := numeral
    rcases isSign with rfl | rfl | rfl
    · intro char isHead
      simp only [Numeral.text, nil_append, append_assoc] at isHead
      have numeric := head_mantissa point isWhole isFraction char isHead
      constructor <;> rintro rfl <;> exact absurd numeric (by decide)
    · rintro _ ⟨⟩
      decide
    · rintro _ ⟨⟩
      decide
  rw [literal, quotedLiteral_eq_none fun char isHead => (heads char isHead).1,
    quotedLiteral_eq_none fun char isHead => (heads char isHead).2]
  rfl

end Scanning

/-- A literal is read as a whole exactly if no quote in it is escaped or, in a number, nothing
follows digits at its beginning. -/
theorem literal_readWhole_iff (argument : Literal) : argument.ReadWhole ↔ argument.Plain := by
  have closed : Separated [')'] := .inr rfl
  cases argument with
  | quoted quote value =>
    have different : quote.char ≠ '\\' := by cases quote <;> decide
    constructor
    · intro whole member
      obtain ⟨front, back, rfl, absent⟩ := eq_append_cons_of_mem member
      have text : (Literal.quoted quote (front ++ quote.char :: back)).text ++ [')'] =
          quote.char :: ((front ++ ['\\']) ++ quote.char ::
            (Literal.escapeQuotes quote.char back ++ [quote.char, ')'])) := by
        have plain := escapeQuotes_of_notMem absent
        simp only [Literal.escapeQuotes] at plain
        simp [Literal.text, Literal.escapeQuotes, plain]
      have notIn : quote.char ∉ front ++ ['\\'] := by simp [absent, different]
      have read := whole 0 [')'] closed
      rw [text, parseFuncArg_of_literal (literal_quoted quote notIn)] at read
      simp only [Except.ok.injEq, Prod.mk.injEq, Node.str.injEq, Literal.value,
        append_cancel_left_eq, List.cons.injEq] at read
      exact different read.1.1.symm
    · intro plain depth rest _
      refine parseFuncArg_of_literal ?_
      have text : (Literal.quoted quote value).text ++ rest =
          quote.char :: (value ++ quote.char :: rest) := by
        simp [Literal.text, escapeQuotes_of_notMem plain]
      rw [text]
      exact literal_quoted quote plain
  | number numeral =>
    constructor
    · rintro whole ⟨char, isHead, isDigit⟩
      have taken : (numeral.text ++ [')']).takeWhile Char.isDigit ≠ [] := by
        obtain ⟨rest, isText⟩ := head?_eq_some_iff.mp isHead
        simp [isText, isDigit]
      have read := whole 0 [')'] closed
      rw [Literal.text, parseFuncArg_of_literal (by
        rw [literal_numeral, digits, if_neg taken]
        rfl)] at read
      simp only [Except.ok.injEq, Prod.mk.injEq, Node.str.injEq, Literal.value] at read
      rw [← read.1]
      exact fun char member => mem_takeWhile_imp member
    · intro plain depth rest separated
      have stops := stops_of_separated separated
      refine parseFuncArg_of_literal ?_
      rw [Literal.text, literal_numeral]
      by_cases leading : ∃ char ∈ numeral.text.head?, char.isDigit = true
      · rw [digits_append ⟨numeral.text_ne_nil, plain leading⟩ fun char isHead =>
          (stops char isHead).1]
        rfl
      · obtain ⟨char, text, isText⟩ := exists_cons_of_ne_nil numeral.text_ne_nil
        have none : digits (numeral.text ++ rest) = none := by
          rw [digits, if_pos]
          simpa [isText] using leading
        rw [none, number_numeral numeral stops]
        rfl

/-- A literal with an escaped quote is cut there, and a number at its point. -/
theorem literals_cut :
    parseFuncArg 1 "\"a\\\"b\")".toList = .ok (.str "a\\".toList, "b\")".toList) ∧
      parseFuncArg 1 "1.5)".toList = .ok (.str "1".toList, ".5)".toList) ∧
      parseTemplate ['$', '{', 'l', 'c', '(', '1', '.', '5', ')', '}'] =
        .error (.failed "No comma found" ['.', '5', ')', '}']) := ⟨rfl, rfl, rfl⟩

end PacketFence.MiniTemplate
