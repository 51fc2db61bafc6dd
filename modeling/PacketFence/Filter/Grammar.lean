import PacketFence.Filter.Editor

/-!
# The grammar of conditions

The grammar in the header of the parser, as relations between a text, what is
derived from the front of it and the rest behind. White space may stand in
front of every token; a variable and a string are tokens as a whole. `||` and
`&&` join two operands or more, and either may be written as one character.

With `gaps` the grammar also derives nothing in the place of a parameter, except
where the parentheses enclose nothing else: this is what `_parse_param` accepts,
because it makes an error and does not raise it.
-/

namespace PacketFence.Filter

open Foundations Lexing List Option

def IsSymbol (symbol : Char) (text rest : Text) : Prop :=
  Spaced text (symbol :: rest)

def IsOperator (op : CompareOp) (text rest : Text) : Prop :=
  Spaced text (op.symbol.toList ++ rest)

/-- `||` and `&&`, also as one character. -/
def IsSign (sign : Char) (text rest : Text) : Prop :=
  Spaced text (sign :: sign :: rest) ∨ Spaced text (sign :: rest)

def IsId (text : Text) (name : String) (rest : Text) : Prop :=
  isIdentifier name.toList = true ∧ Spaced text (name.toList ++ rest)

def IsVar (text : Text) (name : String) (rest : Text) : Prop :=
  isIdentifier name.toList = true ∧ Spaced text ('$' :: '{' :: (name.toList ++ '}' :: rest))

/-- `STRING`: inside its quotes a quote and a backslash are escaped. -/
def IsString (text : Text) (value : String) (rest : Text) : Prop :=
  ∃ quote ∈ ['"', '\''], Spaced text (quote :: (escape quote value.toList ++ quote :: rest))

def IsValue (text : Text) (value : String) (rest : Text) : Prop :=
  IsId text value rest ∨ IsString text value rest

mutual

inductive IsParam (gaps : Bool) : Text → Param → Text → Prop
  | var {text name rest} (read : IsVar text name rest) : IsParam gaps text (.var name) rest
  | string {text value rest} (read : IsString text value rest) :
      IsParam gaps text (.text value) rest
  | func {text name behind inside params rest} (read : IsId text name behind)
      (opened : IsSymbol '(' behind inside) (arguments : IsArguments gaps inside params rest) :
      IsParam gaps text (.func name params) rest
  | id {text name rest} (read : IsId text name rest) : IsParam gaps text (.text name) rest
  | gap {text rest} (allowed : gaps = true) (nothing : Spaced text rest) :
      IsParam gaps text .undef rest

inductive IsParams (gaps : Bool) : Text → List Param → Text → Prop
  | last {text param rest} (read : IsParam gaps text param rest) :
      IsParams gaps text [param] rest
  | more {text param behind next params rest} (read : IsParam gaps text param behind)
      (separated : IsSymbol ',' behind next) (others : IsParams gaps next params rest) :
      IsParams gaps text (param :: params) rest

/-- What is behind the opening parenthesis of a `FUNC`. -/
inductive IsArguments (gaps : Bool) : Text → List Param → Text → Prop
  | none {text rest} (closed : IsSymbol ')' text rest) : IsArguments gaps text [] rest
  | some {text params closing rest} (read : IsParams gaps text params closing)
      (proper : params ≠ [.undef]) (closed : IsSymbol ')' closing rest) :
      IsArguments gaps text params rest

end

inductive IsFunc (gaps : Bool) : Text → String → List Param → Text → Prop
  | call {text name behind inside params rest} (read : IsId text name behind)
      (opened : IsSymbol '(' behind inside) (arguments : IsArguments gaps inside params rest) :
      IsFunc gaps text name params rest

inductive IsVal (gaps : Bool) : Text → Param → Text → Prop
  | id {text name rest} (read : IsId text name rest) : IsVal gaps text (.text name) rest
  | func {text name params rest} (read : IsFunc gaps text name params rest) :
      IsVal gaps text (.func name params) rest

mutual

inductive IsExpr (gaps : Bool) : Text → Ast → Text → Prop
  | operand {text ast rest} (read : IsOr gaps text ast rest) : IsExpr gaps text ast rest
  | or {text first behind others rest} (read : IsOr gaps text first behind)
      (joined : IsOrs gaps behind others rest) : IsExpr gaps text (.or (first :: others)) rest

/-- One operand of `||` or more, each behind the operator. -/
inductive IsOrs (gaps : Bool) : Text → List Ast → Text → Prop
  | last {text next operand rest} (sign : IsSign '|' text next)
      (read : IsOr gaps next operand rest) : IsOrs gaps text [operand] rest
  | more {text next operand behind others rest} (sign : IsSign '|' text next)
      (read : IsOr gaps next operand behind) (joined : IsOrs gaps behind others rest) :
      IsOrs gaps text (operand :: others) rest

inductive IsOr (gaps : Bool) : Text → Ast → Text → Prop
  | operand {text ast rest} (read : IsCmp gaps text ast rest) : IsOr gaps text ast rest
  | and {text first behind others rest} (read : IsCmp gaps text first behind)
      (joined : IsAnds gaps behind others rest) : IsOr gaps text (.and (first :: others)) rest

/-- One operand of `&&` or more, each behind the operator. -/
inductive IsAnds (gaps : Bool) : Text → List Ast → Text → Prop
  | last {text next operand rest} (sign : IsSign '&' text next)
      (read : IsCmp gaps next operand rest) : IsAnds gaps text [operand] rest
  | more {text next operand behind others rest} (sign : IsSign '&' text next)
      (read : IsCmp gaps next operand behind) (joined : IsAnds gaps behind others rest) :
      IsAnds gaps text (operand :: others) rest

inductive IsCmp (gaps : Bool) : Text → Ast → Text → Prop
  | compare {text field behind op next value rest} (left : IsVal gaps text field behind)
      (operator : IsOperator op behind next) (right : IsValue next value rest) :
      IsCmp gaps text (.cmp op field value) rest
  | fact {text ast rest} (read : IsFact gaps text ast rest) : IsCmp gaps text ast rest

inductive IsFact (gaps : Bool) : Text → Ast → Text → Prop
  | not {text next operand rest} (sign : IsSymbol '!' text next)
      (read : IsFact gaps next operand rest) : IsFact gaps text (.not operand) rest
  | group {text inside ast closing rest} (opened : IsSymbol '(' text inside)
      (read : IsExpr gaps inside ast closing) (closed : IsSymbol ')' closing rest) :
      IsFact gaps text ast rest
  | id {text name rest} (read : IsId text name rest) : IsFact gaps text (.id name) rest
  | func {text name params rest} (read : IsFunc gaps text name params rest) :
      IsFact gaps text (.func name params) rest

end

/-- A text is derived as a tree if nothing but white space is left of it. -/
def Derives (gaps : Bool) (condition : String) (ast : Ast) : Prop :=
  ∃ rest, IsExpr gaps condition.toList ast rest ∧ Spaced rest []

mutual

def Param.full : Param → Bool
  | .undef => false
  | .text _ => true
  | .var _ => true
  | .func _ params => areFull params

def areFull : List Param → Bool
  | [] => true
  | param :: rest => param.full && areFull rest

end

mutual

def Ast.full : Ast → Bool
  | .id _ => true
  | .or operands => areAllFull operands
  | .and operands => areAllFull operands
  | .not operand => operand.full
  | .cmp _ field _ => field.full
  | .func _ params => areFull params

def areAllFull : List Ast → Bool
  | [] => true
  | ast :: rest => ast.full && areAllFull rest

end

variable {text rest : Text} {name : String}

theorem isSymbol_of_symbol? {symbol : Char} (visible : isSpace symbol = false)
    (read : symbol? symbol text = some rest) : IsSymbol symbol text rest :=
  (symbol?_eq_some_iff visible).mp read

variable {value : String}

theorem isId_of_parseId (read : parseId text = some (name, rest)) : IsId text name rest := by
  obtain ⟨⟨letters, behind⟩, found, same⟩ := map_eq_some_iff.mp read
  obtain ⟨rfl, rfl⟩ := Prod.mk.inj same
  rw [IsId, String.toList_ofList]
  exact spaced_of_identifier? found

theorem isVar_of_parseVarId (read : parseVarId text = some (name, rest)) :
    IsVar text name rest := by
  unfold parseVarId at read
  split at read
  next inside skipped =>
    split at read
    next word =>
      split at read
      next behind closed =>
        obtain ⟨rfl, rfl⟩ := Prod.mk.inj (Option.some.inj read)
        rw [IsVar, String.toList_ofList, ← closed, identifierRest_append_self, ← skipped]
        exact ⟨isIdentifier_identifierRest word, spaced_skipSpace text⟩
      · cases read
    · cases read
  · cases read

theorem isString_of_parseString (read : parseString text = some (value, rest)) :
    IsString text value rest := by
  obtain ⟨⟨letters, behind⟩, found, same⟩ := map_eq_some_iff.mp read
  obtain ⟨rfl, rfl⟩ := Prod.mk.inj same
  rw [IsString, String.toList_ofList]
  rcases or_eq_some_iff.mp found with found | ⟨-, found⟩
  · exact ⟨'"', by simp, (quoted?_eq_some_iff (by decide) (by decide)).mp found⟩
  · exact ⟨'\'', by simp, (quoted?_eq_some_iff (by decide) (by decide)).mp found⟩

theorem isSign_of_sign? {sign : Char} (read : sign? text sign = some rest) :
    IsSign sign text rest := by
  unfold sign? at read
  split at read
  next first others skipped =>
    have spaced := skipped ▸ spaced_skipSpace text
    obtain ⟨rfl, same⟩ := Option.ite_none_right_eq_some.mp read
    cases same
    split
    next twice =>
      obtain ⟨rest, rfl⟩ := List.head?_eq_some_iff.mp twice
      exact .inl spaced
    · exact .inr spaced
  · cases read

theorem isOperator_of_compareOp? {op : CompareOp} (read : compareOp? text = some (op, rest)) :
    IsOperator op text rest := by
  unfold compareOp? at read
  split at read
  case h_9 => cases read
  all_goals
    next skipped =>
      cases read
      have spaced := spaced_skipSpace text
      rwa [skipped] at spaced

theorem isValue_of_parse (read : (parseId text).or (parseString text) = some (value, rest)) :
    IsValue text value rest := by
  rcases or_eq_some_iff.mp read with read | ⟨-, read⟩
  · exact .inl (isId_of_parseId read)
  · exact .inr (isString_of_parseString read)

theorem IsSymbol.length_lt {symbol : Char} (read : IsSymbol symbol text rest) :
    rest.length < text.length := by
  have shorter := Spaced.length_le read
  rw [length_cons] at shorter
  omega

theorem IsSign.length_lt {sign : Char} (read : IsSign sign text rest) :
    rest.length < text.length := by
  rcases read with read | read
  all_goals
    have shorter := read.length_le
    simp only [length_cons] at shorter
    omega

theorem IsId.length_lt (read : IsId text name rest) : rest.length < text.length := by
  have positive := length_pos_of_isIdentifier read.1
  have shorter := read.2.length_le
  rw [length_append] at shorter
  omega

theorem IsString.length_lt (read : IsString text value rest) : rest.length < text.length := by
  obtain ⟨quote, -, spaced⟩ := read
  have shorter := spaced.length_le
  simp only [length_cons, length_append] at shorter
  omega

theorem IsValue.length_lt (read : IsValue text value rest) : rest.length < text.length := by
  rcases read with read | read
  · exact read.length_lt
  · exact read.length_lt

section Soundness

variable {gaps : Bool} {condition : String} {fuel : Nat}

theorem not_fail {Value : Type} {message : String} {result : Value × Text} :
    fail condition message rest ≠ .ok result := nofun

variable {param : Param} {behind : Text} {params : List Param} {asts : List Ast}

theorem isParam_of_spaced {next : Text} (spaced : Spaced text next)
    (read : IsParam gaps next param rest) : IsParam gaps text param rest := by
  cases read with
  | var read => exact .var ⟨read.1, spaced.trans read.2⟩
  | string read =>
    obtain ⟨quote, known, read⟩ := read
    exact .string ⟨quote, known, spaced.trans read⟩
  | func read opened arguments => exact .func ⟨read.1, spaced.trans read.2⟩ opened arguments
  | id read => exact .id ⟨read.1, spaced.trans read.2⟩
  | gap allowed nothing => exact .gap allowed (spaced.trans nothing)

/-- The parameters behind the first one: none, or a comma and more of them. -/
def IsTail (gaps : Bool) (text : Text) (params : List Param) (rest : Text) : Prop :=
  (params = [] ∧ rest = text) ∨
    ∃ next, IsSymbol ',' text next ∧ IsParams gaps next params rest

/-- What is read of parameters with some fuel is derived, and leaves a rest that
is not longer. -/
structure SoundParams (gaps : Bool) (condition : String) (fuel : Nat) : Prop where
  func : ∀ {name text params rest}, parseFunc condition fuel name text = .ok (params, rest) →
    (gaps || areFull params) = true →
      IsArguments gaps text params rest ∧ rest.length < text.length
  param : ∀ {text param rest}, parseParam condition fuel text = .ok (param, rest) →
    (gaps || param.full) = true → IsParam gaps text param rest ∧ rest.length ≤ text.length
  params : ∀ {text params rest}, parseParams condition fuel text = .ok (params, rest) →
    (gaps || areFull params) = true → IsTail gaps text params rest ∧ rest.length ≤ text.length

theorem isParams_of_tail
    (first : IsParam gaps text param behind) (tail : IsTail gaps behind params rest) :
    IsParams gaps text (param :: params) rest := by
  rcases tail with ⟨rfl, rfl⟩ | ⟨next, separated, others⟩
  · exact .last first
  · exact .more first separated others

theorem full_of_and {first others : Bool} (allowed : (gaps || (first && others)) = true) :
    (gaps || first) = true ∧ (gaps || others) = true := by
  rwa [Bool.or_and_distrib_left, Bool.and_eq_true] at allowed

theorem rest_of_undef (read : parseParam condition (fuel + 1) text = .ok (.undef, rest)) :
    rest = text := by
  rw [parseParam] at read
  split at read
  · split at read
    · obtain ⟨_, -, read⟩ := ok_of_bind read
      cases read
    · cases read
  · split at read
    · cases read
    · split at read
      · cases read
      · cases read
        rfl

section

variable (sound : SoundParams gaps condition fuel)

include sound

theorem isParam_of_parse (read : parseParam condition (fuel + 1) text = .ok (param, rest))
    (allowed : (gaps || param.full) = true) :
    IsParam gaps text param rest ∧ rest.length ≤ text.length := by
  rw [parseParam] at read
  split at read
  next name behind readName =>
    have isId := isId_of_parseId readName
    have shorter := isId.length_lt
    split at read
    next inside opened =>
      obtain ⟨⟨params, _⟩, readParams, read⟩ := ok_of_bind read
      cases read
      have isOpened := isSymbol_of_symbol? (by decide) opened
      obtain ⟨isArguments, length⟩ := sound.func readParams allowed
      have before := isOpened.length_lt
      exact ⟨.func isId isOpened isArguments, by omega⟩
    · cases read
      exact ⟨.id isId, by omega⟩
  · split at read
    next name behind readName =>
      cases read
      have isVar := isVar_of_parseVarId readName
      have shorter := isVar.2.length_le
      simp only [length_cons, length_append] at shorter
      exact ⟨.var isVar, by omega⟩
    · split at read
      next value behind readValue =>
        cases read
        have isString := isString_of_parseString readValue
        exact ⟨.string isString, isString.length_lt.le⟩
      · cases read
        rw [Param.full, Bool.or_false] at allowed
        exact ⟨.gap allowed (spaced_refl text), le_rfl⟩

theorem isTail_of_parse (read : parseParams condition (fuel + 1) text = .ok (params, rest))
    (allowed : (gaps || areFull params) = true) :
    IsTail gaps text params rest ∧ rest.length ≤ text.length := by
  rw [parseParams] at read
  split at read
  next behind comma =>
    obtain ⟨next, separated, rfl⟩ := map_eq_some_iff.mp comma
    have isSeparated := isSymbol_of_symbol? (by decide) separated
    have before := isSeparated.length_lt
    obtain ⟨⟨param, behind⟩, readParam, read⟩ := ok_of_bind read
    obtain ⟨⟨others, _⟩, readOthers, read⟩ := ok_of_bind read
    cases read
    obtain ⟨isFull, areOthersFull⟩ := full_of_and allowed
    obtain ⟨isParam, length⟩ := sound.param readParam isFull
    obtain ⟨isTail, lengthOthers⟩ := sound.params readOthers areOthersFull
    have skipped := (spaced_skipSpace next).length_le
    refine ⟨.inr ⟨next, isSeparated, ?_⟩, by omega⟩
    exact isParams_of_tail (isParam_of_spaced (spaced_skipSpace next) isParam) isTail
  · cases read
    exact ⟨.inl ⟨rfl, rfl⟩, le_rfl⟩

theorem isArguments_of_parse (read : parseFunc condition (fuel + 1) name text = .ok (params, rest))
    (allowed : (gaps || areFull params) = true) :
    IsArguments gaps text params rest ∧ rest.length < text.length := by
  rw [parseFunc] at read
  split at read
  next behind closed =>
    cases read
    have isClosed := isSymbol_of_symbol? (by decide) closed
    exact ⟨.none isClosed, isClosed.length_lt⟩
  next notClosed =>
    obtain ⟨⟨param, behind⟩, readParam, read⟩ := ok_of_bind read
    obtain ⟨⟨others, closing⟩, readOthers, read⟩ := ok_of_bind read
    dsimp only at read readOthers
    split at read
    next _ closed =>
      cases read
      obtain ⟨isFull, areOthersFull⟩ := full_of_and allowed
      obtain ⟨isParam, length⟩ := sound.param readParam isFull
      obtain ⟨isTail, lengthOthers⟩ := sound.params readOthers areOthersFull
      have isClosed := isSymbol_of_symbol? (by decide) closed
      have after := isClosed.length_lt
      refine ⟨.some (isParams_of_tail isParam isTail) ?_ isClosed, by omega⟩
      -- nothing else between the parentheses would have been read as no parameter
      rintro ⟨⟩
      cases fuel with
      | zero => cases readParam
      | succ fuel =>
        obtain rfl := rest_of_undef readParam
        rcases isTail with ⟨-, rfl⟩ | ⟨_, -, none⟩
        · rw [notClosed] at closed
          cases closed
        · cases none
    · exact absurd read not_fail

end

theorem soundParams (gaps : Bool) (condition : String) (fuel : Nat) :
    SoundParams gaps condition fuel := by
  induction fuel with
  | zero => constructor <;> exact nofun
  | succ fuel ih =>
    exact ⟨isArguments_of_parse ih, isParam_of_parse ih, isTail_of_parse ih⟩

/-- What is read of an expression with some fuel is derived, and leaves a rest
that is not longer. -/
structure SoundExpr (gaps : Bool) (condition : String) (fuel : Nat) : Prop where
  expr : ∀ {text ast rest}, parseExpr condition fuel text = .ok (ast, rest) →
    (gaps || ast.full) = true → IsExpr gaps text ast rest ∧ rest.length ≤ text.length
  ors : ∀ {text asts rest}, parseOrs condition fuel text = .ok (asts, rest) →
    (gaps || areAllFull asts) = true →
      ((asts = [] ∧ rest = text) ∨ IsOrs gaps text asts rest) ∧ rest.length ≤ text.length
  or : ∀ {text ast rest}, parseOr condition fuel text = .ok (ast, rest) →
    (gaps || ast.full) = true → IsOr gaps text ast rest ∧ rest.length ≤ text.length
  ands : ∀ {text asts rest}, parseAnds condition fuel text = .ok (asts, rest) →
    (gaps || areAllFull asts) = true →
      ((asts = [] ∧ rest = text) ∨ IsAnds gaps text asts rest) ∧ rest.length ≤ text.length
  cmp : ∀ {text ast rest}, parseCmp condition fuel text = .ok (ast, rest) →
    (gaps || ast.full) = true → IsCmp gaps text ast rest ∧ rest.length ≤ text.length
  fact : ∀ {text ast rest}, parseFact condition fuel text = .ok (ast, rest) →
    (gaps || ast.full) = true → IsFact gaps text ast rest ∧ rest.length ≤ text.length

variable {ast : Ast}

theorem full_of_collapse {node : List Ast → Ast} {first : Ast} {others : List Ast}
    (sameNode : ∀ operands, (node operands).full = areAllFull operands)
    (allowed : (gaps || (collapse node first others).full) = true) :
    (gaps || areAllFull (first :: others)) = true := by
  cases others with
  | nil => simpa [areAllFull, collapse] using allowed
  | cons second others => rwa [collapse, sameNode] at allowed; exact nofun

theorem collapse_of_ne_nil {node : List Ast → Ast} {first : Ast} {others : List Ast}
    (several : others ≠ []) : collapse node first others = node (first :: others) := by
  cases others with
  | nil => exact absurd rfl several
  | cons => rfl

theorem ne_nil_of_isOrs (read : IsOrs gaps text asts rest) :
    asts ≠ [] := by cases read <;> exact nofun

theorem ne_nil_of_isAnds
    (read : IsAnds gaps text asts rest) : asts ≠ [] := by cases read <;> exact nofun

theorem isFunc_of_parse (isId : IsId text name behind) (opened : symbol? '(' behind = some inside)
    (read : parseFunc condition fuel name inside = .ok (params, rest))
    (allowed : (gaps || areFull params) = true) :
    IsFunc gaps text name params rest ∧ rest.length < text.length := by
  have before := isId.length_lt
  have isOpened := isSymbol_of_symbol? (by decide) opened
  have lengthOpened := isOpened.length_lt
  obtain ⟨isArguments, length⟩ := (soundParams gaps condition fuel).func read allowed
  exact ⟨.call isId isOpened isArguments, by omega⟩

theorem isVal_of_parseField {field : Param} (isId : IsId text name behind)
    (read : parseField condition fuel name behind = .ok (field, rest))
    (allowed : (gaps || field.full) = true) :
    IsVal gaps text field rest ∧ rest.length < text.length := by
  rw [parseField] at read
  split at read
  next inside opened =>
    obtain ⟨⟨params, _⟩, readParams, read⟩ := ok_of_bind read
    cases read
    exact (isFunc_of_parse isId opened readParams allowed).imp_left .func
  · cases read
    exact ⟨.id isId, isId.length_lt⟩

section

variable (sound : SoundExpr gaps condition fuel)

include sound

theorem isExpr_of_parse (read : parseExpr condition (fuel + 1) text = .ok (ast, rest))
    (allowed : (gaps || ast.full) = true) :
    IsExpr gaps text ast rest ∧ rest.length ≤ text.length := by
  obtain ⟨⟨first, behind⟩, readFirst, read⟩ := ok_of_bind read
  obtain ⟨⟨others, _⟩, readOthers, read⟩ := ok_of_bind read
  cases read
  obtain ⟨isFull, areOthersFull⟩ := full_of_and (full_of_collapse (fun _ => rfl) allowed)
  obtain ⟨isOr, length⟩ := sound.or readFirst isFull
  obtain ⟨isOrs, lengthOthers⟩ := sound.ors readOthers areOthersFull
  refine ⟨?_, by omega⟩
  rcases isOrs with ⟨rfl, rfl⟩ | isOrs
  · exact .operand isOr
  · rw [collapse_of_ne_nil (ne_nil_of_isOrs isOrs)]
    exact .or isOr isOrs

theorem isOr_of_parse (read : parseOr condition (fuel + 1) text = .ok (ast, rest))
    (allowed : (gaps || ast.full) = true) :
    IsOr gaps text ast rest ∧ rest.length ≤ text.length := by
  obtain ⟨⟨first, behind⟩, readFirst, read⟩ := ok_of_bind read
  obtain ⟨⟨others, _⟩, readOthers, read⟩ := ok_of_bind read
  cases read
  obtain ⟨isFull, areOthersFull⟩ := full_of_and (full_of_collapse (fun _ => rfl) allowed)
  obtain ⟨isCmp, length⟩ := sound.cmp readFirst isFull
  obtain ⟨isAnds, lengthOthers⟩ := sound.ands readOthers areOthersFull
  refine ⟨?_, by omega⟩
  rcases isAnds with ⟨rfl, rfl⟩ | isAnds
  · exact .operand isCmp
  · rw [collapse_of_ne_nil (ne_nil_of_isAnds isAnds)]
    exact .and isCmp isAnds

theorem isOrs_of_parse (read : parseOrs condition (fuel + 1) text = .ok (asts, rest))
    (allowed : (gaps || areAllFull asts) = true) :
    ((asts = [] ∧ rest = text) ∨ IsOrs gaps text asts rest) ∧ rest.length ≤ text.length := by
  rw [parseOrs] at read
  split at read
  next next' sign =>
    have isSign := isSign_of_sign? sign
    have before := isSign.length_lt
    obtain ⟨⟨operand, behind⟩, readOperand, read⟩ := ok_of_bind read
    obtain ⟨⟨others, _⟩, readOthers, read⟩ := ok_of_bind read
    cases read
    obtain ⟨isFull, areOthersFull⟩ := full_of_and allowed
    obtain ⟨isOr, length⟩ := sound.or readOperand isFull
    obtain ⟨isOrs, lengthOthers⟩ := sound.ors readOthers areOthersFull
    refine ⟨.inr ?_, by omega⟩
    rcases isOrs with ⟨rfl, rfl⟩ | isOrs
    · exact .last isSign isOr
    · exact .more isSign isOr isOrs
  · cases read
    exact ⟨.inl ⟨rfl, rfl⟩, le_rfl⟩

theorem isAnds_of_parse (read : parseAnds condition (fuel + 1) text = .ok (asts, rest))
    (allowed : (gaps || areAllFull asts) = true) :
    ((asts = [] ∧ rest = text) ∨ IsAnds gaps text asts rest) ∧ rest.length ≤ text.length := by
  rw [parseAnds] at read
  split at read
  next next' sign =>
    have isSign := isSign_of_sign? sign
    have before := isSign.length_lt
    obtain ⟨⟨operand, behind⟩, readOperand, read⟩ := ok_of_bind read
    obtain ⟨⟨others, _⟩, readOthers, read⟩ := ok_of_bind read
    cases read
    obtain ⟨isFull, areOthersFull⟩ := full_of_and allowed
    obtain ⟨isCmp, length⟩ := sound.cmp readOperand isFull
    obtain ⟨isAnds, lengthOthers⟩ := sound.ands readOthers areOthersFull
    refine ⟨.inr ?_, by omega⟩
    rcases isAnds with ⟨rfl, rfl⟩ | isAnds
    · exact .last isSign isCmp
    · exact .more isSign isCmp isAnds
  · cases read
    exact ⟨.inl ⟨rfl, rfl⟩, le_rfl⟩

theorem isCmp_of_parse (read : parseCmp condition (fuel + 1) text = .ok (ast, rest))
    (allowed : (gaps || ast.full) = true) :
    IsCmp gaps text ast rest ∧ rest.length ≤ text.length := by
  have asFact : ∀ {ast}, parseFact condition fuel text = .ok (ast, rest) →
      (gaps || ast.full) = true → IsCmp gaps text ast rest ∧ rest.length ≤ text.length := by
    intro ast read allowed
    obtain ⟨isFact, length⟩ := sound.fact read allowed
    exact ⟨.fact isFact, length⟩
  rw [parseCmp] at read
  split at read
  · exact asFact read allowed
  next name behind readName =>
    obtain ⟨⟨field, behind⟩, readField, read⟩ := ok_of_bind read
    dsimp only at read
    split at read
    · exact asFact read allowed
    next op next' operator =>
      split at read
      next value _ readValue =>
        cases read
        obtain ⟨isVal, length⟩ := isVal_of_parseField (isId_of_parseId readName) readField allowed
        have isOperator := isOperator_of_compareOp? operator
        have isValue := isValue_of_parse readValue
        have lengthOperator := Spaced.length_le isOperator
        have lengthValue := isValue.length_lt
        rw [length_append] at lengthOperator
        exact ⟨.compare isVal isOperator isValue, by omega⟩
      · exact absurd read not_fail

theorem isFact_of_parse (read : parseFact condition (fuel + 1) text = .ok (ast, rest))
    (allowed : (gaps || ast.full) = true) :
    IsFact gaps text ast rest ∧ rest.length ≤ text.length := by
  rw [parseFact] at read
  split at read
  next next' sign =>
    obtain ⟨⟨operand, _⟩, readOperand, read⟩ := ok_of_bind read
    cases read
    have isSign := isSymbol_of_symbol? (by decide) sign
    have before := isSign.length_lt
    obtain ⟨isFact, length⟩ := sound.fact readOperand allowed
    exact ⟨.not isSign isFact, by omega⟩
  · split at read
    next inside opened =>
      obtain ⟨⟨expr, closing⟩, readExpr, read⟩ := ok_of_bind read
      dsimp only at read
      split at read
      next _ closed =>
        cases read
        have isOpened := isSymbol_of_symbol? (by decide) opened
        have isClosed := isSymbol_of_symbol? (by decide) closed
        have before := isOpened.length_lt
        have after := isClosed.length_lt
        obtain ⟨isExpr, length⟩ := sound.expr readExpr allowed
        exact ⟨.group isOpened isExpr isClosed, by omega⟩
      · exact absurd read not_fail
    · split at read
      next name behind readName =>
        have isId := isId_of_parseId readName
        split at read
        next inside opened =>
          obtain ⟨⟨params, _⟩, readParams, read⟩ := ok_of_bind read
          cases read
          exact (isFunc_of_parse isId opened readParams allowed).imp .func Nat.le_of_lt
        · cases read
          exact ⟨.id isId, isId.length_lt.le⟩
      · exact absurd read not_fail

end

theorem soundExpr (gaps : Bool) (condition : String) (fuel : Nat) :
    SoundExpr gaps condition fuel := by
  induction fuel with
  | zero => constructor <;> exact nofun
  | succ fuel ih =>
    exact ⟨isExpr_of_parse ih, isOrs_of_parse ih, isOr_of_parse ih, isAnds_of_parse ih,
      isCmp_of_parse ih, isFact_of_parse ih⟩

theorem derives_of_parse (parsed : parseConditionString condition = .ok ast)
    (allowed : (gaps || ast.full) = true) : Derives gaps condition ast := by
  obtain ⟨⟨expr, rest⟩, read, parsed⟩ := ok_of_bind parsed
  dsimp only at parsed
  split at parsed
  next ended =>
    cases parsed
    rw [parseExpr_skipSpace] at read
    obtain ⟨isExpr, -⟩ := (soundExpr gaps condition _).expr read allowed
    exact ⟨rest, isExpr, spaced_nil_iff.mpr ended⟩
  · cases parsed

end Soundness

end PacketFence.Filter
