import PacketFence.Filter.Accepted
import PacketFence.Filter.Termination

/-!
# The parser recognises the grammar with gaps

Every derived text is read as the tree it is derived as. What may follow a part
of a condition decides where the parser stops: `Follows` names the characters
that can.

The parser therefore implements the grammar on exactly those texts that are not
derived with a parameter missing.
-/

namespace PacketFence.Filter

open Foundations Lexing

/-- Nothing but white space, or one of these characters behind it. -/
def Follows (chars : Text) (text : Text) : Prop :=
  ∀ char, next? text = some char → char ∈ chars

def closers : Text := ['(', ')', ',', '|', '&', '=', '!', '<', '>']

variable {op : CompareOp} {params : List Param} {fuel : Nat} {chars text rest : Text} {char : Char}
  {name condition : String} {gaps : Bool}

theorem follows_of_spaced (visible : isSpace char = false) (spaced : Spaced text (char :: rest))
    (member : char ∈ chars) : Follows chars text := by
  intro other next
  rw [next?_of_spaced visible spaced, Option.some.injEq] at next
  exact next ▸ member

theorem Follows.weaken {others : Text} (follows : Follows chars text) (subset : chars ⊆ others) :
    Follows others text := fun char next => subset (follows char next)

theorem Follows.symbol?_eq_none (follows : Follows chars text) (absent : char ∉ chars) :
    symbol? char text = none := Lexing.symbol?_eq_none fun next => absent (follows char next)

theorem Follows.identifierRest_eq_nil (follows : Follows closers rest) :
    identifierRest rest = ([], rest) := by
  refine Lexing.identifierRest_eq_nil fun char next => ?_
  have member := follows char next
  simp only [closers, List.mem_cons, List.not_mem_nil, or_false] at member
  rcases member with rfl | rfl | rfl | rfl | rfl | rfl | rfl | rfl | rfl <;> decide

theorem sign?_eq_none {sign : Char} (different : next? text ≠ some sign) :
    sign? text sign = none := by
  rw [next?] at different
  unfold sign?
  split
  next skipped =>
    rw [skipped, List.head?_cons, ne_eq, Option.some.injEq] at different
    exact if_neg different
  · rfl

theorem Follows.compareOp?_eq_none (follows : Follows ['&', '|', ')'] text) :
    compareOp? text = none := by
  have noOperator : ∀ {char rest}, skipSpace text = char :: rest → char ∈ ['&', '|', ')'] :=
    fun skipped => follows _ (by rw [next?, skipped, List.head?_cons])
  unfold compareOp?
  split
  case h_9 => rfl
  all_goals
    next skipped => exact absurd (noOperator skipped) (by decide)

theorem head?_ne (visible : isSpace char = false) (different : next? text ≠ some char) :
    text.head? ≠ some char := by
  cases text with
  | nil => exact nofun
  | cons first others =>
    rintro ⟨⟩
    rw [next?, skipSpace_cons _ visible] at different
    exact different rfl

theorem sign?_of_isSign {sign : Char} (visible : isSpace sign = false)
    (isSign : IsSign sign text rest) (different : next? rest ≠ some sign) :
    sign? text sign = some rest := by
  rcases isSign with spaced | spaced
  · simp [sign?, (spaced_cons_iff visible).mp spaced]
  · simp [sign?, (spaced_cons_iff visible).mp spaced, head?_ne visible different]

theorem compareOp?_of_isOperator (operator : IsOperator op text rest)
    (different : next? rest ≠ some '=') : compareOp? text = some (op, rest) := by
  have apart := head?_ne (by decide) different
  have skipped : skipSpace text = op.symbol.toList ++ rest := by
    rw [Spaced.skipSpace_eq operator]
    cases op <;> rfl
  rw [compareOp?, skipped]
  cases op with
  | greater | lower =>
    cases rest with
    | nil => rfl
    | cons first others =>
      rw [List.head?_cons, ne_eq, Option.some.injEq] at apart
      simp [CompareOp.symbol, apart]
  | _ => rfl

theorem IsSymbol.symbol? {symbol : Char} (visible : isSpace symbol = false)
    (read : IsSymbol symbol text rest) : symbol? symbol text = some rest :=
  (symbol?_eq_some_iff visible).mpr read

theorem IsSymbol.follows {symbol : Char} (visible : isSpace symbol = false)
    (read : IsSymbol symbol text rest) (member : symbol ∈ chars) : Follows chars text :=
  follows_of_spaced visible read member

theorem IsSign.follows {sign : Char} (visible : isSpace sign = false)
    (read : IsSign sign text rest) (member : sign ∈ chars) : Follows chars text := by
  rcases read with spaced | spaced
  · exact follows_of_spaced visible spaced member
  · exact follows_of_spaced visible spaced member

theorem IsOperator.follows (read : IsOperator op text rest) :
    Follows ['=', '!', '<', '>'] text := by
  cases op
  all_goals exact follows_of_spaced (by decide) read (by decide)

variable {value : String}

theorem IsId.parseId (read : IsId text name rest)
    (follows : Follows closers rest) : parseId text = some (name, rest) := by
  rw [Filter.parseId, identifier?_of_spaced read.1 read.2 follows.identifierRest_eq_nil,
    Option.map_some, String.ofList_toList]

theorem IsId.next? (read : IsId text name rest) :
    ∃ char, next? text = some char ∧ isWord char = true :=
  next?_of_identifier read.1 read.2

theorem IsId.next?_ne (read : IsId text name rest)
    (proper : isWord char = false) : Lexing.next? text ≠ some char := by
  obtain ⟨first, starts, word⟩ := read.next?
  rw [starts]
  rintro ⟨⟩
  simp [word] at proper

theorem parseId_eq_none (noWord : ∀ char, next? text = some char → isWord char = false) :
    parseId text = none := by rw [parseId, identifier?_eq_none noWord, Option.map_none]

theorem IsVar.next?_eq (read : IsVar text name rest) : next? text = some '$' :=
  next?_of_spaced (by decide) read.2

theorem IsVar.parseVarId (read : IsVar text name rest) : parseVarId text = some (name, rest) := by
  have skipped := (spaced_cons_iff (by decide)).mp read.2
  have valid := read.1
  rw [isIdentifier, Bool.and_eq_true, List.isEmpty_iff] at valid
  have inside : identifierRest (name.toList ++ '}' :: rest) = (name.toList, '}' :: rest) :=
    identifierRest_append valid.2 rfl
  simp [Filter.parseVarId, skipped, startsWord_append valid.1, inside]

theorem IsString.next? (read : IsString text value rest) :
    ∃ quote ∈ ['"', '\''], next? text = some quote := by
  obtain ⟨quote, known, spaced⟩ := read
  refine ⟨quote, known, next?_of_spaced ?_ spaced⟩
  rcases List.mem_pair.mp known with rfl | rfl <;> decide

theorem IsString.next?_ne (read : IsString text value rest)
    (proper : char ∉ ['"', '\'']) : Lexing.next? text ≠ some char := by
  obtain ⟨quote, known, starts⟩ := read.next?
  rw [starts]
  rintro ⟨⟩
  exact proper known

theorem parseId_eq_none_of_next? (starts : next? text = some char)
    (proper : isWord char = false) : parseId text = none := by
  apply parseId_eq_none
  rintro _ next
  rw [starts] at next
  cases next
  exact proper

theorem IsString.parseId_eq_none (read : IsString text value rest) : parseId text = none := by
  obtain ⟨quote, known, starts⟩ := read.next?
  refine parseId_eq_none_of_next? starts ?_
  rcases List.mem_pair.mp known with rfl | rfl <;> decide

theorem IsString.parseString (read : IsString text value rest) :
    parseString text = some (value, rest) := by
  obtain ⟨quote, known, spaced⟩ := read
  rcases List.mem_pair.mp known with rfl | rfl
  · rw [Filter.parseString, (quoted?_eq_some_iff (by decide) (by decide)).mpr spaced]
    simp
  · have noQuote : symbol? '"' text = none :=
      Lexing.symbol?_eq_none (by rw [next?_of_spaced (by decide) spaced]; decide)
    have single := (quoted?_eq_some_iff (by decide) (by decide)).mpr spaced
    rw [Filter.parseString, single, quoted?, noQuote]
    simp

theorem IsValue.parse (read : IsValue text value rest) (follows : Follows closers rest) :
    (parseId text).or (parseString text) = some (value, rest) := by
  rcases read with read | read
  · rw [read.parseId follows, Option.some_or]
  · rw [read.parseId_eq_none, Option.none_or, read.parseString]

theorem IsValue.next?_ne (read : IsValue text value rest) : next? text ≠ some '=' := by
  rcases read with read | read
  · exact read.next?_ne (by decide)
  · exact read.next?_ne (by decide)

section Params

theorem next?_ne_of_isParam {param : Param}
    (read : IsParam gaps text param rest) (present : param ≠ .undef) : next? text ≠ some ')' := by
  cases read with
  | var read => rw [read.next?_eq]; decide
  | string read => exact read.next?_ne (by decide)
  | func read | id read => exact read.next?_ne (by decide)
  | gap => exact absurd rfl present

theorem next?_ne_of_isParams (read : IsParams gaps text params rest) (proper : params ≠ [.undef]) :
    next? text ≠ some ')' := by
  cases read with
  | last read =>
    refine next?_ne_of_isParam read ?_
    rintro rfl
    exact proper rfl
  | @more _ param _ _ _ _ read separated others =>
    by_cases missing : param = .undef
    · subst missing
      cases read with
      | gap _ nothing =>
        rw [next?_of_spaced (by decide) (nothing.trans separated)]
        decide
    · exact next?_ne_of_isParam read missing

theorem parseParams_nil (follows : Follows [')'] text) :
    parseParams condition (fuel + 1) text = .ok ([], text) := by
  have noComma : comma? text = none := by
    rw [comma?, follows.symbol?_eq_none (by decide), Option.map_none]
  simp [parseParams, noComma]

theorem comma?_of_symbol? {next : Text} (separated : symbol? ',' text = some next) :
    comma? text = some (skipSpace next) ∧ (skipSpace next).length < text.length := by
  have before := (isSymbol_of_symbol? (by decide) separated).length_lt
  exact ⟨by rw [comma?, separated, Option.map_some],
    (spaced_skipSpace next).length_le.trans_lt before⟩

variable {other : Text}

theorem Follows.congr (follows : Follows chars other)
    (same : skipSpace text = skipSpace other) : Follows chars text := by
  intro char next
  exact follows char (next?_congr same ▸ next)

section

variable (same : skipSpace text = skipSpace other)

include same

theorem parseId_congr : parseId text = parseId other := by
  rw [parseId, parseId, identifier?, identifier?, same]

theorem parseVarId_congr : parseVarId text = parseVarId other := by
  rw [parseVarId, parseVarId, same]

theorem parseString_congr : parseString text = parseString other := by
  rw [parseString, parseString, quoted?, quoted?, quoted?, quoted?, symbol?_congr same,
    symbol?_congr same]

end

theorem parseVarId_eq_none (different : next? text ≠ some '$') : parseVarId text = none := by
  rw [next?] at different
  unfold parseVarId
  split
  next skipped => simp [skipped] at different
  · rfl

theorem parseString_eq_none (noDouble : next? text ≠ some '"')
    (noSingle : next? text ≠ some '\'') : parseString text = none := by
  rw [parseString, quoted?, quoted?, symbol?_eq_none noDouble, symbol?_eq_none noSingle]
  rfl

mutual

/-- White space is skipped behind a comma and not behind a parameter that is
missing, so that the rests agree up to white space. -/
theorem parseParam_of_isParam {other rest : Text} {param : Param} :
    IsParam gaps other param rest → ∀ {fuel text}, skipSpace text = skipSpace other →
      Follows [',', ')'] rest → 9 * text.length + 1 ≤ fuel →
        ∃ behind, parseParam condition fuel text = .ok (param, behind) ∧
          skipSpace behind = skipSpace rest
  | .var read, fuel + 1, text, same, follows, enough => by
      have noId : parseId text = none :=
        parseId_eq_none_of_next? ((next?_congr same).trans read.next?_eq) (by decide)
      have found := (parseVarId_congr same).trans read.parseVarId
      exact ⟨rest, by simp only [parseParam, noId, found], rfl⟩
  | .string read, fuel + 1, text, same, follows, enough => by
      have noId := (parseId_congr same).trans read.parseId_eq_none
      have noVar := (parseVarId_congr same).trans (parseVarId_eq_none (read.next?_ne (by decide)))
      have found := (parseString_congr same).trans read.parseString
      exact ⟨rest, by simp only [parseParam, noId, noVar, found], rfl⟩
  | .func read opened arguments, fuel + 1, text, same, follows, enough => by
      have found := (parseId_congr same).trans
        (read.parseId (opened.follows (by decide) (by decide)))
      have inside := opened.symbol? (by decide)
      have before := (isId_of_parseId found).length_lt
      have after := opened.length_lt
      have params := parseFunc_of_isArguments arguments (by omega : _ ≤ fuel)
      exact ⟨rest, by simp only [parseParam, found, inside, params, ok_bind], rfl⟩
  | .id read, fuel + 1, text, same, follows, enough => by
      have found := (parseId_congr same).trans (read.parseId (follows.weaken (by decide)))
      have noCall : symbol? '(' rest = none := follows.symbol?_eq_none (by decide)
      exact ⟨rest, by simp only [parseParam, found, noCall], rfl⟩
  | .gap _ nothing, fuel + 1, text, same, follows, enough => by
      have rests : skipSpace text = skipSpace rest := same.trans nothing.skipSpace_eq
      have ends : Follows [',', ')'] text := follows.congr rests
      have noId : parseId text = none := by
        apply parseId_eq_none
        intro char next
        rcases List.mem_pair.mp (ends char next) with rfl | rfl <;> decide
      have noVar : parseVarId text = none :=
        parseVarId_eq_none fun next => absurd (ends _ next) (by decide)
      have noString : parseString text = none :=
        parseString_eq_none (fun next => absurd (ends _ next) (by decide))
          (fun next => absurd (ends _ next) (by decide))
      exact ⟨text, by simp only [parseParam, noId, noVar, noString], rests⟩

theorem parseParams_of_isParams {next rest : Text} {params : List Param} :
    IsParams gaps next params rest → ∀ {fuel text}, symbol? ',' text = some next →
      Follows [')'] rest → 9 * text.length + 1 ≤ fuel →
        ∃ closing, parseParams condition fuel text = .ok (params, closing) ∧
          skipSpace closing = skipSpace rest
  | .last read, fuel + 1, text, separated, follows, enough => by
      obtain ⟨comma, before⟩ := comma?_of_symbol? separated
      obtain ⟨fuel, rfl⟩ := Nat.exists_eq_add_of_le' (by omega : 1 ≤ fuel)
      obtain ⟨closing, first, same⟩ := parseParam_of_isParam read (skipSpace_skipSpace next)
        (follows.weaken (by decide)) (by omega : _ ≤ fuel + 1)
      have others : parseParams condition (fuel + 1) closing = _ :=
        parseParams_nil (follows.congr same)
      refine ⟨closing, ?_, same⟩
      rw [parseParams]
      simp [comma, first, others]
  | .more read separatedNext others, fuel + 1, text, separated, follows, enough => by
      obtain ⟨comma, before⟩ := comma?_of_symbol? separated
      obtain ⟨behind, first, same⟩ := parseParam_of_isParam read (skipSpace_skipSpace next)
        (separatedNext.follows (by decide) (by decide)) (by omega : _ ≤ fuel)
      obtain ⟨-, length⟩ := (soundParams true condition fuel).param first rfl
      obtain ⟨closing, readOthers, sameClosing⟩ := parseParams_of_isParams others
        ((symbol?_congr same).trans (separatedNext.symbol? (by decide))) follows
        (by omega : _ ≤ fuel)
      refine ⟨closing, ?_, sameClosing⟩
      rw [parseParams]
      simp [comma, first, readOthers]

theorem parseFunc_of_isArguments {text rest : Text} {params : List Param} :
    IsArguments gaps text params rest → ∀ {fuel}, 9 * text.length + 2 ≤ fuel →
      ∀ name, parseFunc condition fuel name text = .ok (params, rest)
  | .none closed, fuel + 1, enough, name => by
      simp [parseFunc, closed.symbol? (by decide)]
  | .some (.last read) proper closed, fuel + 2, enough, name => by
      have open' : symbol? ')' text = none :=
        symbol?_eq_none (next?_ne_of_isParams (.last read) proper)
      obtain ⟨closing, first, same⟩ := parseParam_of_isParam read rfl
        (closed.follows (by decide) (by decide)) (by omega : _ ≤ fuel + 1)
      have others : parseParams condition (fuel + 1) closing = _ :=
        parseParams_nil ((closed.follows (by decide) (by decide)).congr same)
      have ends := (symbol?_congr same).trans (closed.symbol? (by decide))
      rw [parseFunc]
      simp [open', first, others, ends]
  | .some (.more read separated others) proper closed, fuel + 1, enough, name => by
      have open' : symbol? ')' text = none :=
        symbol?_eq_none (next?_ne_of_isParams (.more read separated others) proper)
      obtain ⟨behind, first, same⟩ := parseParam_of_isParam read rfl
        (separated.follows (by decide) (by decide)) (by omega : _ ≤ fuel)
      obtain ⟨-, length⟩ := (soundParams true condition fuel).param first rfl
      obtain ⟨closing, readOthers, sameClosing⟩ := parseParams_of_isParams others
        ((symbol?_congr same).trans (separated.symbol? (by decide)))
        (closed.follows (by decide) (by decide)) (by omega : _ ≤ fuel)
      have ends := (symbol?_congr sameClosing).trans (closed.symbol? (by decide))
      rw [parseFunc]
      simp [open', first, readOthers, ends]

end

end Params

theorem next?_of_isFunc (read : IsFunc gaps text name params rest) :
    ∃ char, next? text = some char ∧ isWord char = true := by
  obtain ⟨isId, _, _⟩ := read
  exact isId.next?

def Opens (text : Text) : Prop :=
  ∃ char, next? text = some char ∧ (isWord char = true ∨ char = '!' ∨ char = '(')

variable {ast : Ast} {asts : List Ast}

theorem opens_of_isFact (read : IsFact gaps text ast rest) : Opens text := by
  cases read with
  | not sign => exact ⟨'!', next?_of_spaced (by decide) sign, .inr (.inl rfl)⟩
  | group opened => exact ⟨'(', next?_of_spaced (by decide) opened, .inr (.inr rfl)⟩
  | id read => exact read.next?.imp fun _ => .imp_right .inl
  | func read => exact (next?_of_isFunc read).imp fun _ => .imp_right .inl

theorem opens_of_isCmp (read : IsCmp gaps text ast rest) : Opens text := by
  cases read with
  | compare left =>
    cases left with
    | id read => exact read.next?.imp fun _ => .imp_right .inl
    | func read => exact (next?_of_isFunc read).imp fun _ => .imp_right .inl
  | fact read => exact opens_of_isFact read

theorem opens_of_isOr (read : IsOr gaps text ast rest) : Opens text := by
  cases read with
  | operand read | and read => exact opens_of_isCmp read

theorem Opens.next?_ne (opens : Opens text)
    (other : isWord char = false ∧ char ≠ '!' ∧ char ≠ '(') : next? text ≠ some char := by
  obtain ⟨first, next, starts⟩ := opens
  rw [next]
  rintro ⟨⟩
  rcases starts with word | rfl | rfl <;> simp_all

theorem parse_of_isFunc (condition : String)
    (read : IsFunc gaps text name params rest) (enough : 9 * text.length ≤ fuel) :
    ∃ behind inside, parseId text = some (name, behind) ∧ symbol? '(' behind = some inside ∧
      parseFunc condition fuel name inside = .ok (params, rest) := by
  obtain ⟨read, opened, arguments⟩ := read
  have before := read.length_lt
  have after := opened.length_lt
  exact ⟨_, _, read.parseId (opened.follows (by decide) (by decide)), opened.symbol? (by decide),
    parseFunc_of_isArguments arguments (by omega) name⟩

theorem parseField_of_isVal (condition : String) {field : Param}
    (read : IsVal gaps text field rest) (follows : Follows ['=', '!', '<', '>'] rest)
    (enough : 9 * text.length + 1 ≤ fuel) :
    ∃ name behind, parseId text = some (name, behind) ∧
      parseField condition fuel name behind = .ok (field, rest) := by
  cases read with
  | id read =>
    refine ⟨_, rest, read.parseId (follows.weaken (by decide)), ?_⟩
    rw [parseField, follows.symbol?_eq_none (by decide)]
  | func read =>
    obtain ⟨behind, inside, found, opened, params⟩ :=
      parse_of_isFunc condition read (by omega : _ ≤ fuel)
    refine ⟨_, behind, found, ?_⟩
    simp [parseField, opened, params]

theorem follows_of_isOrs
    (read : IsOrs gaps text asts rest) (member : '|' ∈ chars) : Follows chars text := by
  cases read with
  | last sign | more sign => exact sign.follows (by decide) member

theorem follows_of_isAnds
    (read : IsAnds gaps text asts rest) (member : '&' ∈ chars) : Follows chars text := by
  cases read with
  | last sign | more sign => exact sign.follows (by decide) member

theorem parseOrs_nil (follows : Follows [')'] text) :
    parseOrs condition (fuel + 1) text = .ok ([], text) := by
  have noSign : orOperator? text = none :=
    sign?_eq_none fun next => absurd (follows _ next) (by decide)
  simp [parseOrs, noSign]

theorem parseAnds_nil (follows : Follows ['|', ')'] text) :
    parseAnds condition (fuel + 1) text = .ok ([], text) := by
  have noSign : andOperator? text = none :=
    sign?_eq_none fun next => absurd (follows _ next) (by decide)
  simp [parseAnds, noSign]

/-- An identifier or a call that is a fact is first read as the left side of a
comparison, to no avail. -/
theorem parseCmp_of_fact (read : IsFact gaps text ast rest)
    (follows : Follows ['&', '|', ')'] rest) (enough : 9 * text.length + 1 ≤ fuel)
    (fact : parseFact condition fuel text = .ok (ast, rest)) :
    parseCmp condition (fuel + 1) text = .ok (ast, rest) := by
  have noOperator := follows.compareOp?_eq_none
  cases read with
  | not opened | group opened =>
    have noId : parseId text = none :=
      parseId_eq_none_of_next? (next?_of_spaced (by decide) opened) (by decide)
    rw [parseCmp]
    simp [noId, fact]
  | id read =>
    have found := read.parseId (follows.weaken (by decide))
    have noCall : symbol? '(' rest = none := follows.symbol?_eq_none (by decide)
    rw [parseCmp]
    simp [found, parseField, noCall, noOperator, fact]
  | func read =>
    obtain ⟨behind, inside, found, opened, params⟩ :=
      parse_of_isFunc condition read (by omega : _ ≤ fuel)
    rw [parseCmp]
    simp [found, parseField, opened, params, noOperator, fact]

mutual

theorem parseExpr_of_isExpr {text rest : Text} {ast : Ast} :
    IsExpr gaps text ast rest → ∀ {fuel}, Follows [')'] rest → 9 * text.length + 4 ≤ fuel →
      parseExpr condition fuel text = .ok (ast, rest)
  | .operand read, fuel + 2, follows, enough => by
      have first := parseOr_of_isOr read (follows.weaken (by decide)) (by omega : _ ≤ fuel + 1)
      have noOthers : parseOrs condition (fuel + 1) rest = _ := parseOrs_nil follows
      rw [parseExpr]
      simp [first, noOthers, collapse]
  | .or read joined, fuel + 1, follows, enough => by
      have first := parseOr_of_isOr read (follows_of_isOrs joined (by decide)) (by omega : _ ≤ fuel)
      obtain ⟨-, length⟩ := (soundExpr true condition fuel).or first rfl
      have others := parseOrs_of_isOrs joined follows (by omega : _ ≤ fuel)
      rw [parseExpr]
      simp [first, others, collapse_of_ne_nil (ne_nil_of_isOrs joined)]

theorem parseOrs_of_isOrs {text rest : Text} {asts : List Ast} :
    IsOrs gaps text asts rest → ∀ {fuel}, Follows [')'] rest → 9 * text.length + 1 ≤ fuel →
      parseOrs condition fuel text = .ok (asts, rest)
  | .last sign read, fuel + 1, follows, enough => by
      have before := sign.length_lt
      have signed : orOperator? _ = _ := sign?_of_isSign (by decide) sign
        ((opens_of_isOr read).next?_ne (by decide))
      obtain ⟨fuel, rfl⟩ := Nat.exists_eq_add_of_le' (by omega : 1 ≤ fuel)
      have first := parseOr_of_isOr read (follows.weaken (by decide)) (by omega : _ ≤ fuel + 1)
      have noOthers : parseOrs condition (fuel + 1) rest = _ := parseOrs_nil follows
      rw [parseOrs]
      simp [signed, first, noOthers]
  | .more sign read joined, fuel + 1, follows, enough => by
      have before := sign.length_lt
      have signed : orOperator? _ = _ := sign?_of_isSign (by decide) sign
        ((opens_of_isOr read).next?_ne (by decide))
      have first := parseOr_of_isOr read (follows_of_isOrs joined (by decide)) (by omega : _ ≤ fuel)
      obtain ⟨-, length⟩ := (soundExpr true condition fuel).or first rfl
      have others := parseOrs_of_isOrs joined follows (by omega : _ ≤ fuel)
      rw [parseOrs]
      simp [signed, first, others]

theorem parseOr_of_isOr {text rest : Text} {ast : Ast} :
    IsOr gaps text ast rest → ∀ {fuel}, Follows ['|', ')'] rest → 9 * text.length + 3 ≤ fuel →
      parseOr condition fuel text = .ok (ast, rest)
  | .operand read, fuel + 2, follows, enough => by
      have first := parseCmp_of_isCmp read (follows.weaken (by decide)) (by omega : _ ≤ fuel + 1)
      have noOthers : parseAnds condition (fuel + 1) rest = _ := parseAnds_nil follows
      rw [parseOr]
      simp [first, noOthers, collapse]
  | .and read joined, fuel + 1, follows, enough => by
      have first := parseCmp_of_isCmp read (follows_of_isAnds joined (by decide))
        (by omega : _ ≤ fuel)
      obtain ⟨-, length⟩ := (soundExpr true condition fuel).cmp first rfl
      have others := parseAnds_of_isAnds joined follows (by omega : _ ≤ fuel)
      rw [parseOr]
      simp [first, others, collapse_of_ne_nil (ne_nil_of_isAnds joined)]

theorem parseAnds_of_isAnds {text rest : Text} {asts : List Ast} :
    IsAnds gaps text asts rest → ∀ {fuel}, Follows ['|', ')'] rest →
      9 * text.length + 1 ≤ fuel → parseAnds condition fuel text = .ok (asts, rest)
  | .last sign read, fuel + 1, follows, enough => by
      have before := sign.length_lt
      have signed : andOperator? _ = _ := sign?_of_isSign (by decide) sign
        ((opens_of_isCmp read).next?_ne (by decide))
      obtain ⟨fuel, rfl⟩ := Nat.exists_eq_add_of_le' (by omega : 1 ≤ fuel)
      have first := parseCmp_of_isCmp read (follows.weaken (by decide)) (by omega : _ ≤ fuel + 1)
      have noOthers : parseAnds condition (fuel + 1) rest = _ := parseAnds_nil follows
      rw [parseAnds]
      simp [signed, first, noOthers]
  | .more sign read joined, fuel + 1, follows, enough => by
      have before := sign.length_lt
      have signed : andOperator? _ = _ := sign?_of_isSign (by decide) sign
        ((opens_of_isCmp read).next?_ne (by decide))
      have first := parseCmp_of_isCmp read (follows_of_isAnds joined (by decide))
        (by omega : _ ≤ fuel)
      obtain ⟨-, length⟩ := (soundExpr true condition fuel).cmp first rfl
      have others := parseAnds_of_isAnds joined follows (by omega : _ ≤ fuel)
      rw [parseAnds]
      simp [signed, first, others]

theorem parseCmp_of_isCmp {text rest : Text} {ast : Ast} :
    IsCmp gaps text ast rest → ∀ {fuel}, Follows ['&', '|', ')'] rest →
      9 * text.length + 2 ≤ fuel → parseCmp condition fuel text = .ok (ast, rest)
  | .compare left operator right, fuel + 1, follows, enough => by
      obtain ⟨name, behind, found, field⟩ := parseField_of_isVal condition left
        operator.follows (by omega : _ ≤ fuel)
      have operated := compareOp?_of_isOperator operator right.next?_ne
      have value := right.parse (follows.weaken (by decide))
      rw [parseCmp]
      simp [found, field, operated, value]
  | .fact read, fuel + 1, follows, enough =>
    parseCmp_of_fact read follows (by omega) (parseFact_of_isFact read follows (by omega))

theorem parseFact_of_isFact {text rest : Text} {ast : Ast} :
    IsFact gaps text ast rest → ∀ {fuel}, Follows ['&', '|', ')'] rest →
      9 * text.length + 1 ≤ fuel → parseFact condition fuel text = .ok (ast, rest)
  | .not sign read, fuel + 1, follows, enough => by
      have before := sign.length_lt
      have fact := parseFact_of_isFact read follows (by omega : _ ≤ fuel)
      rw [parseFact]
      simp [sign.symbol? (by decide), fact]
  | .group opened read closed, fuel + 1, follows, enough => by
      have before := opened.length_lt
      have noNot : symbol? '!' text = none :=
        symbol?_eq_none (by rw [next?_of_spaced (by decide) opened]; decide)
      have expr := parseExpr_of_isExpr read (closed.follows (by decide) (by decide))
        (by omega : _ ≤ fuel)
      rw [parseFact]
      simp [noNot, opened.symbol? (by decide), expr, closed.symbol? (by decide)]
  | .id read, fuel + 1, follows, enough => by
      have noNot : symbol? '!' text = none := symbol?_eq_none (read.next?_ne (by decide))
      have noGroup : symbol? '(' text = none := symbol?_eq_none (read.next?_ne (by decide))
      have found := read.parseId (follows.weaken (by decide))
      have noCall : symbol? '(' rest = none := follows.symbol?_eq_none (by decide)
      simp [parseFact, noNot, noGroup, found, noCall]
  | .func (.call read isOpened arguments), fuel + 1, follows, enough => by
      have noNot : symbol? '!' text = none := symbol?_eq_none (read.next?_ne (by decide))
      have noGroup : symbol? '(' text = none := symbol?_eq_none (read.next?_ne (by decide))
      obtain ⟨behind, inside, found, opened, params⟩ :=
        parse_of_isFunc condition (.call read isOpened arguments) (by omega : _ ≤ fuel)
      simp [parseFact, noNot, noGroup, found, opened, params]

end

theorem parse_of_derives (derives : Derives gaps condition ast) :
    parseConditionString condition = .ok ast := by
  obtain ⟨rest, isExpr, ended⟩ := derives
  have skipped := spaced_nil_iff.mp ended
  have follows : Follows [')'] rest := by
    intro char next
    rw [next?, skipped] at next
    cases next
  have read : parseExpr condition (parseFuel condition) condition.toList = _ :=
    parseExpr_of_isExpr isExpr follows (by
      simp only [parseFuel, String.length_toList]
      omega)
  rw [parseConditionString, parseExpr_skipSpace, read]
  simp [skipped]

structure FollowsGrammar (condition : String) : Prop where
  answers : Decided (parseConditionString condition)
  accepts : ∀ ast, parseConditionString condition = .ok ast ↔ Derives false condition ast

/-- The grammar is followed on exactly those texts in which no call leaves a
parameter out. -/
theorem follows_grammar_iff (condition : String) :
    FollowsGrammar condition ↔ ∀ ast, Derives true condition ast → ast.full = true := by
  constructor
  · intro follows ast derives
    obtain ⟨rest, isExpr, -⟩ := (follows.accepts ast).mp (parse_of_derives derives)
    exact (formed_of_isExpr isExpr).2
  · intro full
    refine ⟨decided_parseConditionString condition, fun ast => ⟨fun parsed => ?_, ?_⟩⟩
    · have derives : Derives true condition ast := derives_of_parse parsed rfl
      exact derives_of_parse parsed (full ast derives)
    · exact parse_of_derives

/-- Between the two commas there is no parameter. -/
theorem missing_parameter_accepted :
    (∃ ast, parseConditionString "f(a,,b)" = .ok ast) ∧
      ¬ ∃ ast, Derives false "f(a,,b)" ast := by
  have read : (parseConditionString "f(a,,b)").toOption.map Ast.full = some false := by
    decide +kernel
  obtain ⟨ast, parsed, missing⟩ := Option.map_eq_some_iff.mp read
  have accepted : parseConditionString "f(a,,b)" = .ok ast := by
    cases outcome : parseConditionString "f(a,,b)" with
    | error error =>
      rw [outcome] at parsed
      cases parsed
    | ok found =>
      rw [outcome] at parsed
      cases parsed
      rfl
  refine ⟨⟨ast, accepted⟩, ?_⟩
  rintro ⟨other, derives⟩
  obtain ⟨⟩ := (parse_of_derives derives).symm.trans accepted
  obtain ⟨rest, isExpr, -⟩ := derives
  exact absurd ((formed_of_isExpr isExpr).2) (by rw [missing]; decide)

end PacketFence.Filter
