import PacketFence.Filter.Compile
import PacketFence.Filter.Recognition

/-!
# What is written is read back

The text of an object is derived as the syntax tree the object stands for, whatever
follows it, and the parser reads what is derived. A leaf is also read by itself in
front of any text.
-/

namespace PacketFence.Filter

open Foundations Lexing List Option CompareOp Object

def quotedText (value : String) (rest : Text) : Text :=
  '"' :: (escape '"' value.toList ++ '"' :: rest)

def compareText (field : String) (op : CompareOp) (value : String) (rest : Text) : Text :=
  field.toList ++ ' ' :: (op.symbol.toList ++ ' ' :: quotedText value rest)

/-- The parameters of a call and its closing parenthesis. -/
def paramsText (field value : String) (rest : Text) : Text :=
  field.toList ++ ',' :: ' ' :: quotedText value (')' :: rest)

def callText (name field value : String) (rest : Text) : Text :=
  name.toList ++ '(' :: paramsText field value rest

variable (value : String) {condition field op : String} {text : Text} (rest : Text) {fuel : Nat}

theorem parseId_append {name : String} (valid : isIdentifier name.toList = true)
    (ends : identifierRest text = ([], text)) :
    parseId (name.toList ++ text) = some (name, text) := by
  simp [parseId, identifier?_append valid ends]

theorem symbol?_identifier {name : String} (valid : isIdentifier name.toList = true)
    {symbol : Char} (proper : isWord symbol = false) (text : Text) :
    symbol? symbol (name.toList ++ text) = none :=
  symbol?_eq_none (IsId.next?_ne ⟨valid, spaced_refl _⟩ proper)

theorem parseString_quotedText : parseString (quotedText value rest) = some (value, rest) :=
  IsString.parseString ⟨'"', by decide, spaced_refl _⟩

@[simp] theorem compareOp?_symbol (op : CompareOp) (text : Text) :
    compareOp? (' ' :: (op.symbol.toList ++ ' ' :: text)) = some (op, ' ' :: text) := by
  cases op <;> rfl

@[simp] theorem symbol?_compareOp (op : CompareOp) (text : Text) :
    symbol? '(' (' ' :: (op.symbol.toList ++ text)) = none := by cases op <;> rfl

theorem parseCmp_compareText (valid : isIdentifier field.toList = true)
    (op : CompareOp) (value : String) (rest : Text) :
    parseCmp condition (fuel + 1) (compareText field op value rest) =
      .ok (.cmp op (.text field) value, rest) := by
  have readField : parseId (compareText field op value rest) = _ := parseId_append valid rfl
  have readValue : (parseId (' ' :: quotedText value rest)).or
      (parseString (' ' :: quotedText value rest)) = some (value, rest) :=
    parseString_quotedText value rest
  simp [parseCmp, readField, parseField, readValue]

theorem parseParam_quotedText :
    parseParam condition (fuel + 1) (quotedText value rest) = .ok (.text value, rest) := by
  have noId : parseId (quotedText value rest) = none := rfl
  have noVar : parseVarId (quotedText value rest) = none := rfl
  simp [parseParam, noId, noVar, parseString_quotedText]

theorem parseFunc_identifier (valid : isIdentifier field.toList = true)
    (name value : String) (rest : Text) :
    parseFunc condition (fuel + 3) name (paramsText field value rest) =
      .ok ([.text field, .text value], rest) := by
  have readField : parseId (paramsText field value rest) = _ := parseId_append valid rfl
  have notClosed : symbol? ')' (paramsText field value rest) = none :=
    symbol?_identifier valid (by decide) _
  have first : parseParam condition (fuel + 2) (paramsText field value rest) =
      .ok (.text field, ',' :: ' ' :: quotedText value (')' :: rest)) := by
    simp only [parseParam, readField]
    rfl
  have separated : comma? (',' :: ' ' :: quotedText value (')' :: rest)) =
      some (quotedText value (')' :: rest)) := rfl
  have last : parseParams condition (fuel + 1) (')' :: rest) = .ok ([], ')' :: rest) := rfl
  have others : parseParams condition (fuel + 2) (',' :: ' ' :: quotedText value (')' :: rest)) =
      .ok ([.text value], ')' :: rest) := by
    rw [parseParams]
    simp [separated, parseParam_quotedText, last, ok_bind]
  have closed : symbol? ')' (')' :: rest) = some rest := rfl
  simp [parseFunc, notClosed, first, others, closed]

theorem parseFact_call {name : String} (valid : isIdentifier name.toList = true)
    {rest : Text} {params : List Param}
    (read : parseFunc condition fuel name text = .ok (params, rest)) :
    parseFact condition (fuel + 1) (name.toList ++ '(' :: text) =
      .ok (.func name params, rest) := by
  have readName : parseId (name.toList ++ '(' :: text) = _ := parseId_append valid rfl
  have noNot : symbol? '!' (name.toList ++ '(' :: text) = none :=
    symbol?_identifier valid (by decide) _
  have noGroup : symbol? '(' (name.toList ++ '(' :: text) = none :=
    symbol?_identifier valid (by decide) _
  have opened : symbol? '(' ('(' :: text) = some text := rfl
  simp [parseFact, noNot, noGroup, readName, opened, read]

def ReadsAs (text : Text) (ast : Ast) : Prop :=
  ∀ {whole rest}, Spaced whole (text ++ rest) → IsCmp true whole ast rest

def ExprReadsAs (text : Text) (ast : Ast) : Prop :=
  ∀ {whole rest}, Spaced whole (text ++ rest) → IsExpr true whole ast rest

def operandsText (symbol : String) : List Text → Text
  | [] => []
  | text :: texts => ' ' :: (symbol.toList ++ ' ' :: (text ++ operandsText symbol texts))

def GroupOp.node : GroupOp → List Ast → Ast
  | .and => .and
  | .or => .or
  | .notAnd => .and
  | .notOr => .or

variable {ast : Ast} {texts : List Text} {asts : List Ast}

theorem isAnds_operandsText (first : ReadsAs text ast) (others : List.Forall₂ ReadsAs texts asts)
    (rest : Text) : IsAnds true (operandsText "&&" (text :: texts) ++ rest) (ast :: asts) rest := by
  induction others generalizing text ast with
  | nil =>
    rw [operandsText, operandsText, append_nil]
    exact .last (.inl (spaced_space _)) (first (spaced_space _))
  | cons reads _ ih =>
    refine .more (.inl (spaced_space _)) (first ?_) (ih reads)
    rw [← append_assoc]
    exact spaced_space _

theorem isOrs_operandsText (first : ReadsAs text ast) (others : List.Forall₂ ReadsAs texts asts)
    (rest : Text) : IsOrs true (operandsText "||" (text :: texts) ++ rest) (ast :: asts) rest := by
  induction others generalizing text ast with
  | nil =>
    rw [operandsText, operandsText, append_nil]
    exact .last (.inl (spaced_space _)) (.operand (first (spaced_space _)))
  | cons reads _ ih =>
    refine .more (.inl (spaced_space _)) (.operand (first ?_)) (ih reads)
    rw [← append_assoc]
    exact spaced_space _

theorem exprReadsAs_operand (reads : ReadsAs text ast) : ExprReadsAs text ast :=
  fun spaced => .operand (.operand (reads spaced))

theorem exprReadsAs_group (op : GroupOp) (first : ReadsAs text ast)
    (others : List.Forall₂ ReadsAs texts asts) :
    ExprReadsAs (text ++ operandsText op.symbol texts) (collapse op.node ast asts) := by
  cases others with
  | nil =>
    rw [operandsText, append_nil]
    exact exprReadsAs_operand first
  | cons second others =>
    intro whole rest spaced
    rw [append_assoc] at spaced
    cases op with
    | and | notAnd => exact .operand (.and (first spaced) (isAnds_operandsText second others rest))
    | or | notOr => exact .or (.operand (first spaced)) (isOrs_operandsText second others rest)

theorem readsAs_parentheses (reads : ExprReadsAs text ast) :
    ReadsAs ('(' :: (text ++ [')'])) ast := by
  intro whole rest spaced
  rw [cons_append, append_assoc] at spaced
  exact .fact (.group spaced (reads (spaced_refl _)) (spaced_refl _))

theorem readsAs_not (reads : ExprReadsAs text ast) :
    ReadsAs ('!' :: '(' :: (text ++ [')'])) (.not ast) := by
  intro whole rest spaced
  rw [cons_append, cons_append, append_assoc] at spaced
  exact .fact (.not spaced (.group (spaced_refl _) (reads (spaced_refl _)) (spaced_refl _)))

theorem parseConditionString_of_exprReadsAs
    (reads : ExprReadsAs condition.toList ast) : parseConditionString condition = .ok ast := by
  refine parse_of_derives ⟨[], reads ?_, spaced_refl []⟩
  rw [append_nil]
  exact spaced_refl _

section Objects

variable (address : Param → String)

/-- What a parameter written without quotes is read back as. -/
def Param.reread : Param → Param
  | .text "" => .undef
  | param => param

def leafAst (op : String) (field value : Param) : Ast :=
  if op = TRUE_CONDITION then
    .func op []
  else
    match ofName? op with
    | some compare => .cmp compare field (value.toText address)
    | none => .func op [field.reread, .text (value.toText address)]

def GroupOp.negate (op : GroupOp) (ast : Ast) : Ast :=
  if op.negated then .not ast else ast

def groupAst (op : GroupOp) : List Ast → Ast
  | [] => op.negate (op.node [])
  | first :: others => op.negate (collapse op.node first others)

mutual

def Object.toAst : Object → Ast
  | .leaf op field value => leafAst address op field value
  | .group op values => groupAst op (toAsts values)

def toAsts : List Object → List Ast
  | [] => []
  | object :: rest => object.toAst :: toAsts rest

end

def Object.enclosed : Object → Bool
  | .group op values => !op.negated && decide (values.length ≠ 1)
  | .leaf _ _ _ => false

def Param.isIdentifier : Param → Bool
  | .text name => Lexing.isIdentifier name.toList
  | _ => false

def Param.isEmpty : Param → Bool
  | .undef => true
  | .text value => value == ""
  | _ => false

def Param.isBare (param : Param) : Bool :=
  param.isEmpty || param.isIdentifier

def readableLeaf (op : String) (field : Param) : Bool :=
  op == TRUE_CONDITION ||
    ((GroupOp.ofName? op).isNone && isIdentifier op.toList &&
      if (ofName? op).isSome then field.isIdentifier else field.isBare)

def keepsParentheses (op : GroupOp) : List Object → Bool
  | [] => false
  | [value] => op.negated || !value.enclosed
  | _ => true

mutual

def Object.readable : Object → Bool
  | .leaf op field _ => readableLeaf op field
  | .group op values => keepsParentheses op values && areReadable values

def areReadable : List Object → Bool
  | [] => true
  | object :: rest => object.readable && areReadable rest

end

/-- A text that has no parenthesis to remove. -/
def Bare (text : String) : Prop :=
  ∃ char rest, text.toList = char :: rest ∧ char ≠ '('

theorem stripParentheses_of_bare {text : String} (bare : Bare text) :
    stripParentheses text = text := by
  obtain ⟨char, rest, starts, different⟩ := bare
  unfold stripParentheses
  split
  next inside opened => exact absurd (List.cons.inj (starts.symm.trans opened)).1 different
  · rfl

theorem stripParentheses_enclosed {text : String} {inside : Text}
    (enclosed : text.toList = '(' :: (inside ++ [')'])) :
    (stripParentheses text).toList = inside := by simp [stripParentheses, enclosed, stripClosing]

structure Written (object : Object) (text : String) : Prop where
  raw : rawObjectToStr address object = some text
  reads : ReadsAs text.toList (object.toAst address)
  stripped : ExprReadsAs (stripParentheses text).toList (object.toAst address)
  bare : object.enclosed = false → Bare text

variable {address}

theorem written_of_bare {object : Object} {text : String}
    (raw : rawObjectToStr address object = some text)
    (reads : ReadsAs text.toList (object.toAst address)) (bare : Bare text) :
    Written address object text where
  raw := raw
  reads := reads
  stripped := by
    rw [stripParentheses_of_bare bare]
    exact exprReadsAs_operand reads
  bare := fun _ => bare

theorem bare_of_identifier {text : String} {name rest : Text}
    (valid : isIdentifier name = true) (starts : text.toList = name ++ rest) : Bare text := by
  cases name with
  | nil => simp [isIdentifier, startsWord] at valid
  | cons char name =>
    refine ⟨char, name ++ rest, starts, ?_⟩
    rintro rfl
    simp [isIdentifier, startsWord, isWord] at valid

@[simp] theorem quote_toList :
    (quote value).toList ++ rest = quotedText value rest := by simp [quote, quotedText]

theorem readsAs_true : ReadsAs "true()".toList (.func TRUE_CONDITION []) := by
  intro whole rest spaced
  exact .fact (.func (.call ⟨by decide, spaced⟩ (spaced_refl _) (.none (spaced_refl _))))

theorem readsAs_compare (valid : isIdentifier field.toList = true)
    (op : CompareOp) (value : String) :
    ReadsAs (field ++ " " ++ op.symbol ++ " " ++ quote value).toList
      (.cmp op (.text field) value) := by
  intro whole rest spaced
  have shape : (field ++ " " ++ op.symbol ++ " " ++ quote value).toList ++ rest =
      compareText field op value rest := by simp [compareText, ← quote_toList]
  rw [shape] at spaced
  exact .compare (.id ⟨valid, spaced⟩) (spaced_space _) (.inr ⟨'"', by decide, spaced_space _⟩)

theorem reread_of_isIdentifier {field : Param} (valid : field.isIdentifier = true) :
    field.reread = field := by
  unfold Param.reread
  split
  · cases valid
  · rfl

theorem isParam_reread {field : Param} (bare : field.isBare = true) (rest : Text) :
    IsParam true ((field.toText address).toList ++ rest) field.reread rest := by
  rcases Bool.or_eq_true_iff.mp bare with empty | valid
  · unfold Param.isEmpty at empty
    split at empty
    · exact .gap rfl (spaced_refl _)
    · rw [beq_iff_eq.mp empty]
      exact .gap rfl (spaced_refl _)
    · cases empty
  · rw [reread_of_isIdentifier valid]
    cases field with
    | text => exact .id ⟨valid, spaced_refl _⟩
    | undef | var | func => cases valid

theorem readsAs_call {name : String} (valid : isIdentifier name.toList = true) {field : Param}
    (bare : field.isBare = true) (value : String) :
    ReadsAs (name ++ "(" ++ field.toText address ++ ", " ++ quote value ++ ")").toList
      (.func name [field.reread, .text value]) := by
  intro whole rest spaced
  have shape : (name ++ "(" ++ field.toText address ++ ", " ++ quote value ++ ")").toList ++ rest =
      callText name (field.toText address) value rest := by
    simp [callText, paramsText, ← quote_toList]
  rw [shape] at spaced
  exact .fact (.func (.call ⟨valid, spaced⟩ (spaced_refl _) (.some
    (.more (isParam_reread bare _) (spaced_refl _)
      (.last (.string ⟨'"', by decide, spaced_space _⟩)))
    (by simp) (spaced_refl _))))

theorem written_compare {compare : CompareOp}
    (compares : ofName? op = some compare) (noTrue : op ≠ TRUE_CONDITION)
    (noGroup : GroupOp.ofName? op = none) {field : Param} (valid : field.isIdentifier = true)
    (value : Param) : ∃ text, Written address (.leaf op field value) text := by
  cases field with
  | undef | var | func => cases valid
  | text field =>
    refine ⟨field ++ " " ++ compare.symbol ++ " " ++ quote (value.toText address),
      written_of_bare ?_ ?_ (bare_of_identifier valid (by simp; rfl))⟩
    · simp [rawObjectToStr, leafToStr, noTrue, noGroup, compares, Param.toText]
    · simp only [toAst, leafAst, if_neg noTrue, compares]
      exact readsAs_compare valid compare _

theorem written_call (calls : ofName? op = none)
    (noTrue : op ≠ TRUE_CONDITION) (noGroup : GroupOp.ofName? op = none)
    (validName : isIdentifier op.toList = true) {field : Param} (bare : field.isBare = true)
    (value : Param) : ∃ text, Written address (.leaf op field value) text := by
  refine ⟨op ++ "(" ++ field.toText address ++ ", " ++ quote (value.toText address) ++ ")",
    written_of_bare ?_ ?_ (bare_of_identifier validName (by simp; rfl))⟩
  · simp [rawObjectToStr, leafToStr, noTrue, noGroup, calls]
  · simp only [toAst, leafAst, if_neg noTrue, calls]
    exact readsAs_call validName bare _

theorem written_leaf {field : Param} (readable : readableLeaf op field = true)
    (value : Param) : ∃ text, Written address (.leaf op field value) text := by
  by_cases isTrue : op = TRUE_CONDITION
  · subst isTrue
    exact ⟨"true()", written_of_bare rfl readsAs_true ⟨'t', _, rfl, by decide⟩⟩
  · simp only [readableLeaf, beq_iff_eq, isTrue, Bool.or_eq_true, false_or, Bool.and_eq_true,
      isNone_iff_eq_none] at readable
    obtain ⟨⟨noGroup, validName⟩, validField⟩ := readable
    cases compare : ofName? op with
    | some compareOp =>
      rw [compare, isSome_some, if_pos rfl] at validField
      exact written_compare compare isTrue noGroup validField value
    | none =>
      rw [compare, isSome_none, if_neg (by decide)] at validField
      exact written_call compare isTrue noGroup validName validField value

theorem joinWith_toList (symbol text : String) (texts : List String) :
    (joinWith (" " ++ symbol ++ " ") (text :: texts)).toList =
      text.toList ++ operandsText symbol (texts.map String.toList) := by
  induction texts generalizing text with
  | nil => simp [joinWith, operandsText]
  | cons next texts ih =>
    rw [joinWith, String.toList_append, ih]
    · simp [operandsText]
    · simp

theorem rawObjectToStr_group {op : GroupOp} {values : List Object}
    (several : op.negated = true ∨ values.length ≠ 1) :
    rawObjectToStr address (.group op values) =
      (rawObjectsToStrs address values).map (groupToStr op) := by
  cases op with
  | notAnd | notOr => rfl
  | and | or =>
    rcases values with _ | ⟨first, _ | ⟨second, others⟩⟩
    · rfl
    · simp [GroupOp.negated] at several
    · rfl

theorem rawObjectToStr_single {op : GroupOp} (positive : op.negated = false) (value : Object) :
    rawObjectToStr address (.group op [value]) =
      (rawObjectToStr address value).map stripParentheses := by
  cases op with
  | and | or => rfl
  | notAnd | notOr => cases positive

theorem rawObjectsToStrs_of_written {values : List Object} {texts : List String}
    (written : List.Forall₂ (Written address) values texts) :
    rawObjectsToStrs address values = some texts := by
  induction written with
  | nil => rfl
  | cons first _ ih => simp [rawObjectsToStrs, first.raw, ih]

theorem readsAs_of_written {values : List Object} {texts : List String}
    (written : List.Forall₂ (Written address) values texts) :
    List.Forall₂ ReadsAs (texts.map String.toList) (toAsts address values) := by
  induction written with
  | nil => exact .nil
  | cons first _ ih => exact .cons first.reads ih

theorem exprReadsAs_values {op : GroupOp} {value : Object} {values : List Object}
    {text : String} {texts : List String}
    (written : List.Forall₂ (Written address) (value :: values) (text :: texts)) :
    ExprReadsAs (joinWith (" " ++ op.symbol ++ " ") (text :: texts)).toList
      (collapse op.node (value.toAst address) (toAsts address values)) := by
  obtain ⟨first, others⟩ := forall₂_cons.mp written
  rw [joinWith_toList]
  exact exprReadsAs_group op first.reads (readsAs_of_written others)

theorem written_group {op : GroupOp} {value : Object} {values : List Object}
    {text : String} {texts : List String}
    (written : List.Forall₂ (Written address) (value :: values) (text :: texts))
    (several : op.negated = true ∨ (value :: values).length ≠ 1) :
    Written address (.group op (value :: values)) (groupToStr op (text :: texts)) := by
  have raw : rawObjectToStr address (.group op (value :: values)) =
      some (groupToStr op (text :: texts)) := by
    rw [rawObjectToStr_group several, rawObjectsToStrs_of_written written]
    rfl
  have inside : ExprReadsAs (joinWith (" " ++ op.symbol ++ " ") (text :: texts)).toList _ :=
    exprReadsAs_values written
  cases negated : op.negated with
  | true =>
    have shape : (groupToStr op (text :: texts)).toList = '!' :: '(' ::
        ((joinWith (" " ++ op.symbol ++ " ") (text :: texts)).toList ++ [')']) := by
      simp [groupToStr, negated]
    refine written_of_bare raw ?_ ⟨'!', _, shape, by decide⟩
    simp only [shape, toAst, toAsts, groupAst, GroupOp.negate, negated, if_true]
    exact readsAs_not inside
  | false =>
    have shape : (groupToStr op (text :: texts)).toList = '(' ::
        ((joinWith (" " ++ op.symbol ++ " ") (text :: texts)).toList ++ [')']) := by
      simp [groupToStr, negated]
    have tree : (group op (value :: values)).toAst address =
        collapse op.node (value.toAst address) (toAsts address values) := by
      simp [toAst, toAsts, groupAst, GroupOp.negate, negated]
    refine ⟨raw, ?_, ?_, ?_⟩
    · rw [shape, tree]
      exact readsAs_parentheses inside
    · rw [stripParentheses_enclosed shape, tree]
      exact inside
    · simp_all [enclosed]

theorem written_single {op : GroupOp} (positive : op.negated = false) {value : Object}
    {text : String} (written : Written address value text) (bare : value.enclosed = false) :
    Written address (.group op [value]) text := by
  have tree : (group op [value]).toAst address = value.toAst address := by
    simp [toAst, toAsts, groupAst, GroupOp.negate, positive, collapse]
  refine written_of_bare ?_ ?_ (written.bare bare)
  · rw [rawObjectToStr_single positive, written.raw, map_some,
      stripParentheses_of_bare (written.bare bare)]
  · rw [tree]
    exact written.reads

mutual

theorem written_of_readable :
    ∀ object : Object, object.readable = true → ∃ text, Written address object text
  | .leaf op field value, readable => written_leaf readable value
  | .group op values, readable => by
      rw [Object.readable, Bool.and_eq_true] at readable
      obtain ⟨texts, written⟩ := writtens_of_readable values readable.2
      cases written with
      | nil => simp [keepsParentheses] at readable
      | @cons value text values texts first others =>
        by_cases several : op.negated = true ∨ (value :: values).length ≠ 1
        · exact ⟨_, written_group (.cons first others) several⟩
        · simp only [not_or, Bool.not_eq_true, ne_eq, not_not, length_cons,
            Nat.add_eq_right, length_eq_zero_iff] at several
          obtain ⟨positive, rfl⟩ := several
          have bare : value.enclosed = false := by
            simpa [keepsParentheses, positive] using readable.1
          exact ⟨text, written_single positive first bare⟩

theorem writtens_of_readable :
    ∀ values : List Object, areReadable values = true →
      ∃ texts, List.Forall₂ (Written address) values texts
  | [], _ => ⟨[], .nil⟩
  | value :: values, readable => by
      rw [areReadable, Bool.and_eq_true] at readable
      obtain ⟨text, first⟩ := written_of_readable value readable.1
      obtain ⟨texts, others⟩ := writtens_of_readable values readable.2
      exact ⟨text :: texts, .cons first others⟩

end

theorem parse_objectToStr {object : Object} (readable : object.readable = true) :
    ∃ text, objectToStr address object = some text ∧
      parseConditionString text = .ok (object.toAst address) := by
  obtain ⟨text, written⟩ := written_of_readable object readable
  refine ⟨stripParentheses text, ?_, parseConditionString_of_exprReadsAs written.stripped⟩
  rw [objectToStr, written.raw]
  rfl

end Objects

theorem eq_name_of_ofName? {compare : CompareOp}
    (compares : ofName? op = some compare) : op = compare.name := by
  unfold ofName? at compares
  split at compares <;> cases compares <;> rfl

/-- The operators that are written with a value: the comparisons, and whatever
can be the name of a call. -/
def takesValue (op : String) : Bool :=
  op != TRUE_CONDITION && (GroupOp.ofName? op).isNone && isIdentifier op.toList

/-- A comparison operator behind a call would make it the left side of a
comparison, so that a call alone is read as a fact. -/
def parseLeaf (op condition : String) : Nat → Text → Except Failure (Ast × Text) :=
  if (ofName? op).isSome then parseCmp condition else parseFact condition

structure Survives (op field value text : String) (ast : Ast) : Prop where
  same : astToObject ast = some (.leaf op (.text field) (.text value))
  whole : parseConditionString text = .ok ast
  followed : ∀ condition fuel rest, 9 * text.toList.length ≤ fuel →
    parseLeaf op condition fuel (text.toList ++ rest) = .ok (ast, rest)
  literal : ∃ before after, text.toList = before ++ quotedText value after ∧
    ∀ rest, parseString (quotedText value (after ++ rest)) = some (value, after ++ rest)

theorem compare_survives {compare : CompareOp} (compares : ofName? op = some compare)
    (identifier : isIdentifier field.toList = true) (value : String) :
    Survives op field value (field ++ " " ++ compare.symbol ++ " " ++ quote value)
      (.cmp compare (.text field) value) where
  same := by rw [astToObject, eq_name_of_ofName? compares]
  whole := parseConditionString_of_exprReadsAs
    (exprReadsAs_operand (readsAs_compare identifier compare value))
  followed := by
    intro condition fuel rest enough
    have nonempty := length_pos_of_isIdentifier identifier
    obtain ⟨fuel, rfl⟩ := Nat.exists_eq_add_of_le' (by simp at enough nonempty; omega : 1 ≤ fuel)
    have read : parseCmp condition (fuel + 1) (compareText field compare value rest) = _ :=
      parseCmp_compareText identifier compare value rest
    simpa [parseLeaf, compares, compareText, ← quote_toList] using read
  literal := by
    refine ⟨field.toList ++ ' ' :: (compare.symbol.toList ++ [' ']), [], ?_, fun rest => ?_⟩
    · simp [← quote_toList]
    · apply parseString_quotedText

theorem call_survives (calls : ofName? op = none) (noTrue : op ≠ TRUE_CONDITION)
    (named : isIdentifier op.toList = true) (identifier : isIdentifier field.toList = true)
    (value : String) :
    Survives op field value (op ++ "(" ++ field ++ ", " ++ quote value ++ ")")
      (.func op [.text field, .text value]) where
  same := by simp [astToObject, noTrue]
  whole := by
    have bare : (Param.text field).isBare = true := Bool.or_eq_true_iff.mpr (.inr identifier)
    have same : (Param.text field).reread = .text field := reread_of_isIdentifier identifier
    rw [← same]
    exact parseConditionString_of_exprReadsAs
      (exprReadsAs_operand (@readsAs_call (fun _ => "") _ named _ bare value))
  followed := by
    intro condition fuel rest enough
    have nonempty := length_pos_of_isIdentifier named
    obtain ⟨fuel, rfl⟩ := Nat.exists_eq_add_of_le' (by simp at enough nonempty; omega : 4 ≤ fuel)
    have read : parseFact condition (fuel + 4) (callText op field value rest) = _ :=
      parseFact_call named (parseFunc_identifier identifier op value rest)
    simpa [parseLeaf, calls, callText, paramsText, ← quote_toList] using read
  literal := by
    refine ⟨op.toList ++ '(' :: (field.toList ++ [',', ' ']), [')'], ?_, fun rest => ?_⟩
    · simp [← quote_toList]
    · apply parseString_quotedText

/-- Whatever a value is made of, the leaf it stands in is read back with it. -/
theorem written_value_survives (address : Param → String) (op field value : String)
    (operator : takesValue op = true) (identifier : isIdentifier field.toList = true) :
    ∃ text ast, rawObjectToStr address (.leaf op (.text field) (.text value)) = some text ∧
      Survives op field value text ast := by
  simp only [takesValue, Bool.and_eq_true, bne_iff_ne, isNone_iff_eq_none] at operator
  obtain ⟨⟨noTrue, noGroup⟩, named⟩ := operator
  cases compares : ofName? op with
  | some compare =>
    refine ⟨_, _, ?_, compare_survives compares identifier value⟩
    simp [rawObjectToStr, leafToStr, noTrue, noGroup, compares, Param.toText]
  | none =>
    refine ⟨_, _, ?_, call_survives compares noTrue named identifier value⟩
    simp [rawObjectToStr, leafToStr, noTrue, noGroup, compares, Param.toText]

theorem quoted_backslash_survives :
    ∃ text ast, rawObjectToStr (fun _ => "") (.leaf "contains" (.text "ssid")
      (.text "\\\" || \\")) = some text ∧ Survives "contains" "ssid" "\\\" || \\" text ast := by
  apply written_value_survives
  · decide
  · decide

end PacketFence.Filter
