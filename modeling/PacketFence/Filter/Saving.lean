import PacketFence.Filter.Editing

/-!
# Saving a condition of the editor

An object is flattened into a text and the operator of a root with one value.
When it is read again the text is expanded, and the result is written and
compiled. Its meaning is kept unless parentheses are lost on the way: a group
of one value removes those of its value, and the root removes those of what is
then written first. It is lost, too, where the negation of a single comparison
becomes the inverse operator.
-/

namespace PacketFence.Filter

open Foundations Lexing Option Object CompareOp

def wellFormedLeaf (op : String) (field value : Param) : Bool :=
  op == TRUE_CONDITION ||
    (((ofName? op).isSome || (resolveFunc op).isSome) &&
      field.isIdentifier && value.isText)

variable {op : GroupOp} {field value : Param} {object : Object} {text : String} {ast : Ast}

theorem wellFormedLeaf_of_ne {op : String}
    (wellFormed : wellFormedLeaf op field value = true) (noTrue : op ≠ TRUE_CONDITION) :
    ((ofName? op).isSome = true ∨ (resolveFunc op).isSome = true) ∧
      field.isIdentifier = true ∧ value.isText = true := by
  simpa [wellFormedLeaf, noTrue, and_assoc] using wellFormed

mutual

def Object.wellFormed : Object → Bool
  | .leaf op field value => wellFormedLeaf op field value
  | .group _ values => !values.isEmpty && areWellFormed values

def areWellFormed : List Object → Bool
  | [] => true
  | object :: rest => object.wellFormed && areWellFormed rest

end

@[simp] theorem wellFormed_single (op : GroupOp) (value : Object) :
    (group op [value]).wellFormed = value.wellFormed := by
  simp [wellFormed, areWellFormed]

mutual

/-- Every group of one value below it leaves its value without parentheses of
its own. -/
def Object.grouped : Object → Bool
  | .leaf _ _ _ => true
  | .group op values => keepsParentheses op values && areGrouped values

def areGrouped : List Object → Bool
  | [] => true
  | object :: rest => object.grouped && areGrouped rest

end

/-- A root may remove the parentheses of its only value, but not more. -/
def Object.keepsGrouping : Object → Bool
  | .group op [value] =>
    if op.negated then value.grouped
    else if value.enclosed then value.grouped && !value.opensTwice
    else value.keepsGrouping
  | object => object.grouped

def Object.isComparison : Object → Bool
  | .leaf op _ _ => (ofName? op).isSome
  | .group op [value] => !op.negated && value.isComparison
  | _ => false

def negatesNoComparison (op : GroupOp) : List Object → Bool
  | [value] => !op.negated || !value.isComparison
  | _ => true

mutual

def Object.keepsNegation : Object → Bool
  | .leaf _ _ _ => true
  | .group op values => negatesNoComparison op values && areNegationsKept values

def areNegationsKept : List Object → Bool
  | [] => true
  | object :: rest => object.keepsNegation && areNegationsKept rest

end

section Meaning

variable (runtime : Runtime)

def leafMeaning (op : String) (field value : Param) : Option Condition :=
  if op = TRUE_CONDITION then
    some .true
  else
    match ofName? op with
    | some compare => buildBinaryCondition runtime compare field (value.toText runtime.address)
    | none => buildFunction runtime op [field, value]

mutual

/-- The tree with its groups taken for and, or, nand and nor. -/
def Object.meaning : Object → Option Condition
  | .leaf op field value => leafMeaning runtime op field value
  | .group op values => (meanings values).map op.meaning

def meanings : List Object → Option (List Condition)
  | [] => some []
  | object :: rest => do
      let condition ← object.meaning
      let conditions ← meanings rest
      some (condition :: conditions)

end

end Meaning

variable {address : Param → String}

section Semantics

/-- The outcome of `all`, from those of its operands. -/
def decideAll : List (Option Bool) → Option Bool
  | [] => some true
  | some true :: rest => decideAll rest
  | decided :: _ => decided

def decideAny : List (Option Bool) → Option Bool
  | [] => some false
  | some false :: rest => decideAny rest
  | decided :: _ => decided

variable (op)

def GroupOp.decide (outcomes : List (Option Bool)) : Option Bool :=
  match op with
  | .and => decideAll outcomes
  | .or => decideAny outcomes
  | .notAnd => (decideAll outcomes).map (!·)
  | .notOr => (decideAny outcomes).map (!·)

variable {runtime : Runtime} {argument : Value} {args : Option Value} (conditions : List Condition)

theorem matchAll_eq_decideAll : matchAll runtime conditions argument args =
      decideAll (conditions.map fun condition => condition.match runtime argument args) := by
  induction conditions with
  | nil => rfl
  | cons condition conditions ih =>
    rw [matchAll, List.map_cons]
    rcases condition.match runtime argument args with _ | _ | _
    · rfl
    · rfl
    · exact ih

theorem matchAny_eq_decideAny : matchAny runtime conditions argument args =
      decideAny (conditions.map fun condition => condition.match runtime argument args) := by
  induction conditions with
  | nil => rfl
  | cons condition conditions ih =>
    rw [matchAny, List.map_cons]
    rcases condition.match runtime argument args with _ | _ | _
    · rfl
    · exact ih
    · rfl

@[simp] theorem match_meaning (conditions : List Condition) :
    (op.meaning conditions).match runtime argument args =
      op.decide (conditions.map fun condition => condition.match runtime argument args) := by
  cases op <;>
    simp [GroupOp.meaning, GroupOp.decide, Condition.match, matchAll_eq_decideAll,
      matchAny_eq_decideAny]

@[simp] theorem decide_single (outcome : Option Bool) :
    op.decide [outcome] = if op.negated then outcome.map (!·) else outcome := by
  rcases outcome with _ | _ | _ <;> cases op <;> rfl

theorem match_buildCondition_single (ast : Ast) : (buildCondition runtime (op.negate ast)).map
        (fun condition => condition.match runtime argument args) =
      (buildCondition runtime ast).map fun condition =>
        op.decide [condition.match runtime argument args] := by
  cases op <;>
    simp [GroupOp.negate, GroupOp.negated, buildCondition, Function.comp_def, Condition.match]

theorem match_groupAst {asts : List Ast} (nonempty : asts ≠ []) :
    (buildCondition runtime (groupAst op asts)).map
        (fun condition => condition.match runtime argument args) =
      (buildConditions runtime asts).map fun conditions =>
        op.decide (conditions.map fun condition => condition.match runtime argument args) := by
  rcases asts with _ | ⟨first, _ | ⟨second, others⟩⟩
  · exact absurd rfl nonempty
  · rw [groupAst, collapse, match_buildCondition_single, buildConditions, buildConditions]
    cases buildCondition runtime first <;> rfl
  · rw [groupAst, collapse, buildCondition_several]
    · simp [Function.comp_def]
    · simp

variable {op}

theorem text_toText (literal : value.isText = true) (address : Param → String) :
    .text (value.toText address) = value := by
  cases value with
  | text => rfl
  | undef | var | func => cases literal

theorem buildCondition_leafAst {op : String} (wellFormed : wellFormedLeaf op field value = true) :
    buildCondition runtime (leafAst runtime.address op field value) =
      leafMeaning runtime op field value := by
  unfold leafAst leafMeaning
  by_cases isTrue : op = TRUE_CONDITION
  · subst isTrue
    rfl
  · obtain ⟨-, identifier, literal⟩ := wellFormedLeaf_of_ne wellFormed isTrue
    rw [if_neg isTrue, if_neg isTrue]
    cases ofName? op with
    | some => rfl
    | none =>
      rw [reread_of_isIdentifier identifier, text_toText literal]
      rfl

theorem toAsts_ne_nil {values : List Object}
    (nonempty : values.isEmpty = false) : toAsts address values ≠ [] := by
  cases values with
  | nil => cases nonempty
  | cons => exact nofun

theorem outcomes_cons {Outcome : Type} (outcome : Condition → Outcome)
    (condition : Option Condition) (conditions : Option (List Condition)) :
    (do
      let first ← condition
      let others ← conditions
      some (first :: others)).map (List.map outcome) =
    (do
      let first ← condition.map outcome
      let others ← conditions.map (List.map outcome)
      some (first :: others)) := by
  cases condition with
  | none => rfl
  | some => cases conditions <;> rfl

mutual

theorem match_toAst :
    ∀ object : Object, object.wellFormed = true →
      (buildCondition runtime (object.toAst runtime.address)).map
          (fun condition => condition.match runtime argument args) =
        (object.meaning runtime).map fun condition => condition.match runtime argument args
  | .leaf op field value, wellFormed => by
      rw [toAst, meaning, buildCondition_leafAst wellFormed]
  | .group op values, wellFormed => by
      rw [Object.wellFormed, Bool.and_eq_true, Bool.not_eq_true'] at wellFormed
      have operands := match_toAsts values wellFormed.2
      calc
        _ = ((buildConditions runtime (toAsts runtime.address values)).map
              (List.map fun condition => condition.match runtime argument args)).map
                op.decide := by
            rw [toAst, match_groupAst op (toAsts_ne_nil wellFormed.1), map_map]
            rfl
        _ = ((meanings runtime values).map
              (List.map fun condition => condition.match runtime argument args)).map
                op.decide := by rw [operands]
        _ = _ := by
            rw [meaning, map_map, map_map]
            exact congrArg (Option.map · _) (funext fun conditions =>
              (match_meaning op conditions).symm)

theorem match_toAsts :
    ∀ values : List Object, areWellFormed values = true →
      (buildConditions runtime (toAsts runtime.address values)).map
          (List.map fun condition => condition.match runtime argument args) =
        (meanings runtime values).map
          (List.map fun condition => condition.match runtime argument args)
  | [], _ => rfl
  | value :: values, wellFormed => by
      rw [areWellFormed, Bool.and_eq_true] at wellFormed
      have first := match_toAst value wellFormed.1
      have others := match_toAsts values wellFormed.2
      rw [toAsts, buildConditions, meanings, outcomes_cons, outcomes_cons, first, others]

end

end Semantics

structure Rooted (address : Param → String) (object : Object) (text : String) : Prop where
  raw : rawObjectToStr address object = some text
  stripped : ExprReadsAs (stripParentheses text).toList (object.toAst address)
  bare : object.enclosed = false → Bare text

theorem rooted_of_readable (readable : object.readable = true) :
    ∃ text, Rooted address object text := by
  obtain ⟨text, written⟩ := written_of_readable object readable
  exact ⟨text, written.raw, written.stripped, written.bare⟩

theorem toAst_single (positive : op.negated = false) (value : Object) :
    (group op [value]).toAst address = value.toAst address := by
  simp [toAst, toAsts, groupAst, GroupOp.negate, positive, collapse]

theorem rooted_single (positive : op.negated = false) {value : Object}
    (rooted : Rooted address value text) (bare : Bare (stripParentheses text)) :
    Rooted address (.group op [value]) (stripParentheses text) where
  raw := by
    rw [rawObjectToStr_single positive, rooted.raw]
    rfl
  stripped := by
    rw [toAst_single positive, stripParentheses_of_bare bare]
    exact rooted.stripped
  bare := fun _ => bare

theorem bare_append {first : String} (bare : Bare first) {rest : Text}
    (starts : text.toList = first.toList ++ rest) : Bare text := by
  obtain ⟨char, others, shape, different⟩ := bare
  exact ⟨char, others ++ rest, by rw [starts, shape]; rfl, different⟩

theorem bare_of_not_opensTwice (readable : object.readable = true)
    (opens : object.opensTwice = false) (rooted : Rooted address object text) :
    Bare (stripParentheses text) := by
  cases enclosed : object.enclosed with
  | false =>
    have bare := rooted.bare enclosed
    rwa [stripParentheses_of_bare bare]
  | true =>
    rcases object with ⟨op, _ | ⟨first, _ | ⟨second, values⟩⟩⟩ | _
    · simp [Object.readable, keepsParentheses] at readable
    · simp [Object.enclosed] at enclosed
    · have positive : op.negated = false := by
        simpa [Object.enclosed] using enclosed
      have firstBare : first.enclosed = false := by simpa [opensTwice, positive] using opens
      rw [Object.readable, Bool.and_eq_true] at readable
      obtain ⟨texts, written⟩ : ∃ texts, List.Forall₂ (Written address) _ texts :=
        writtens_of_readable _ readable.2
      cases written with
      | @cons _ firstText _ texts firstWritten others =>
        have group : Written address (.group op (first :: second :: values)) _ :=
          written_group (.cons firstWritten others) (.inr (by simp))
        have raw := group.raw
        rw [rooted.raw, Option.some.injEq] at raw
        have shape : text.toList = '(' ::
            ((joinWith (" " ++ op.symbol ++ " ") (firstText :: texts)).toList ++
              [')']) := by simp [raw, groupToStr, positive]
        exact bare_append (firstWritten.bare firstBare)
          ((stripParentheses_enclosed shape).trans (joinWith_toList ..))
    · cases enclosed

theorem rooted_single_of_readable (positive : op.negated = false)
    {value : Object} (readable : value.readable = true) (opens : value.opensTwice = false) :
    ∃ text, Rooted address (.group op [value]) text := by
  obtain ⟨text, rooted⟩ : ∃ text, Rooted address value text := rooted_of_readable readable
  exact ⟨_, rooted_single positive rooted (bare_of_not_opensTwice readable opens rooted)⟩

theorem parse_of_rooted (rooted : Rooted address object text) :
    objectToStr address object = some (stripParentheses text) ∧
      parseConditionString (stripParentheses text) = .ok (object.toAst address) := by
  refine ⟨?_, parseConditionString_of_exprReadsAs rooted.stripped⟩
  rw [objectToStr, rooted.raw]
  rfl

@[simp] theorem readableLeaf_name (op : CompareOp) (field : Param) :
    readableLeaf op.name field = field.isIdentifier := by cases op <;> rfl

theorem readableLeaf_of_wellFormed {op : String}
    (wellFormed : wellFormedLeaf op field value = true) : readableLeaf op field = true := by
  by_cases isTrue : op = TRUE_CONDITION
  · simp [readableLeaf, isTrue]
  · obtain ⟨known, identifier, -⟩ := wellFormedLeaf_of_ne wellFormed isTrue
    rcases known with compares | known
    · obtain ⟨compare, compares⟩ := isSome_iff_exists.mp compares
      rw [eq_name_of_ofName? compares, readableLeaf_name]
      exact identifier
    · have callName := isCallName_of_known known
      simp only [isCallName, Bool.and_eq_true, isNone_iff_eq_none] at callName
      simp [readableLeaf, callName, Param.isBare, identifier]

mutual

theorem readable_of_grouped :
    ∀ object : Object, object.wellFormed = true → object.grouped = true →
      object.readable = true
  | .leaf _ _ _, wellFormed, _ => readableLeaf_of_wellFormed wellFormed
  | .group op values, wellFormed, grouped => by
      rw [Object.wellFormed, Bool.and_eq_true] at wellFormed
      rw [Object.grouped, Bool.and_eq_true] at grouped
      rw [readable, Bool.and_eq_true]
      exact ⟨grouped.1, areReadable_of_grouped values wellFormed.2 grouped.2⟩

theorem areReadable_of_grouped :
    ∀ values : List Object, areWellFormed values = true → areGrouped values = true →
      areReadable values = true
  | [], _, _ => rfl
  | value :: values, wellFormed, grouped => by
      rw [areWellFormed, Bool.and_eq_true] at wellFormed
      rw [areGrouped, Bool.and_eq_true] at grouped
      rw [areReadable, Bool.and_eq_true]
      exact ⟨readable_of_grouped value wellFormed.1 grouped.1,
        areReadable_of_grouped values wellFormed.2 grouped.2⟩

end

theorem rooted_of_keepsGrouping :
    ∀ object : Object, object.wellFormed = true → object.keepsGrouping = true →
      ∃ text, Rooted address object text
  | .leaf _ _ _, wellFormed, _ => rooted_of_readable (readableLeaf_of_wellFormed wellFormed)
  | .group _ [], wellFormed, _ => by simp [Object.wellFormed] at wellFormed
  | .group op (first :: second :: values), wellFormed, grouped =>
    rooted_of_readable (readable_of_grouped _ wellFormed grouped)
  | .group op [value], wellFormed, grouped => by
      rw [wellFormed_single] at wellFormed
      rw [keepsGrouping] at grouped
      split at grouped
      next negated =>
        refine rooted_of_readable ?_
        simp [readable, keepsParentheses, negated, areReadable,
          readable_of_grouped value wellFormed grouped]
      next positive =>
        rw [Bool.not_eq_true] at positive
        split at grouped
        next enclosed =>
          rw [Bool.and_eq_true, Bool.not_eq_true'] at grouped
          exact rooted_single_of_readable positive
            (readable_of_grouped value wellFormed grouped.1) grouped.2
        next bare =>
          rw [Bool.not_eq_true] at bare
          obtain ⟨text, rooted⟩ : ∃ text, Rooted address value text :=
            rooted_of_keepsGrouping value wellFormed grouped
          refine ⟨_, rooted_single positive rooted ?_⟩
          rw [stripParentheses_of_bare (rooted.bare bare)]
          exact rooted.bare bare

theorem toAst_negated (negated : op.negated = true) (value : Object) :
    (group op [value]).toAst address = .not (value.toAst address) := by
  simp [toAst, toAsts, groupAst, GroupOp.negate, negated, collapse]

theorem isJunction_leafAst (op : String) (field value : Param) :
    (leafAst address op field value).isJunction = false := by
  unfold leafAst
  split
  · rfl
  · split <;> rfl

theorem opensTwice_of_not_isJunction (simple : ast.isJunction = false) :
    ast.opensTwice = false := by
  cases ast with
  | and | or => cases simple
  | id | not | cmp | func => rfl

theorem isJunction_toAst :
    ∀ object : Object, object.wellFormed = true → object.grouped = true →
      (object.toAst address).isJunction = object.enclosed
  | .leaf op field value, _, _ => isJunction_leafAst op field value
  | .group _ [], wellFormed, _ => by simp [Object.wellFormed] at wellFormed
  | .group op (first :: second :: values), _, _ => by cases op <;> rfl
  | .group op [value], wellFormed, grouped => by
      have bare : (Object.group op [value]).enclosed = false := by simp [Object.enclosed]
      rw [bare]
      cases negated : op.negated with
      | true =>
        rw [toAst_negated negated]
        rfl
      | false =>
        rw [wellFormed_single] at wellFormed
        simp only [Object.grouped, keepsParentheses, negated, Bool.false_or, areGrouped,
          Bool.and_true, Bool.and_eq_true, Bool.not_eq_true'] at grouped
        rw [toAst_single negated, isJunction_toAst value wellFormed grouped.2]
        exact grouped.1

theorem opensTwice_toAst (wellFormed : object.wellFormed = true)
    (grouped : object.grouped = true) (opens : object.opensTwice = false) :
    (object.toAst address).opensTwice = false := by
  cases enclosed : object.enclosed with
  | false =>
    refine opensTwice_of_not_isJunction ?_
    rw [isJunction_toAst object wellFormed grouped, enclosed]
  | true =>
    rcases object with ⟨op, _ | ⟨first, _ | ⟨second, values⟩⟩⟩ | _
    · simp [Object.wellFormed] at wellFormed
    · simp [Object.enclosed] at enclosed
    · have positive : op.negated = false := by
        simpa [Object.enclosed] using enclosed
      simp only [Object.wellFormed, areWellFormed, Bool.and_eq_true] at wellFormed
      simp only [Object.grouped, areGrouped, Bool.and_eq_true] at grouped
      have simple : (first.toAst address).isJunction = first.enclosed :=
        isJunction_toAst first wellFormed.2.1 grouped.2.1
      cases op with
      | and | or => exact simple.trans opens
      | notAnd | notOr => cases positive
    · cases enclosed

theorem opensTwice_root :
    ∀ object : Object, object.wellFormed = true → object.keepsGrouping = true →
      object.enclosed = false → (object.toAst address).opensTwice = false
  | .leaf op field value, _, _, _ =>
    opensTwice_of_not_isJunction (isJunction_leafAst op field value)
  | .group _ [], wellFormed, _, _ => by simp [Object.wellFormed] at wellFormed
  | .group op (first :: second :: values), _, _, bare => by
      cases op with
      | and | or => cases bare
      | notAnd | notOr => rfl
  | .group op [value], wellFormed, grouped, _ => by
      rw [wellFormed_single] at wellFormed
      rw [keepsGrouping] at grouped
      split at grouped
      next negated =>
        rw [toAst_negated negated]
        rfl
      next positive =>
        rw [Bool.not_eq_true] at positive
        rw [toAst_single positive]
        split at grouped
        · rw [Bool.and_eq_true, Bool.not_eq_true'] at grouped
          exact opensTwice_toAst wellFormed grouped.1 grouped.2
        next bare =>
          rw [Bool.not_eq_true] at bare
          exact opensTwice_root value wellFormed grouped bare

theorem isComparison_toAst :
    ∀ object : Object, (object.toAst address).isComparison = object.isComparison
  | .leaf op field value => by
      unfold toAst leafAst isComparison
      split
      next isTrue =>
        subst isTrue
        rfl
      · cases ofName? op <;> rfl
  | .group op [] => by cases op <;> rfl
  | .group op (first :: second :: values) => by cases op <;> rfl
  | .group op [value] => by
      rw [isComparison]
      cases negated : op.negated with
      | true =>
        rw [toAst_negated negated]
        rfl
      | false =>
        rw [toAst_single negated, isComparison_toAst value]
        rfl

theorem loadable_leafAst {op : String} (wellFormed : wellFormedLeaf op field value = true) :
    (leafAst address op field value).loadable = true := by
  by_cases isTrue : op = TRUE_CONDITION
  · subst isTrue
    rfl
  · obtain ⟨known, identifier, literal⟩ := wellFormedLeaf_of_ne wellFormed isTrue
    rw [leafAst, if_neg isTrue]
    cases compare : ofName? op with
    | some => exact identifier
    | none =>
      rw [compare] at known
      rw [reread_of_isIdentifier identifier, text_toText literal]
      simp [Ast.loadable, editableCall, Param.isBare, identifier, literal,
        known.resolve_left (by simp)]

mutual

theorem loadable_toAst :
    ∀ object : Object, object.wellFormed = true → object.keepsNegation = true →
      (object.toAst address).loadable = true
  | .leaf _ _ _, wellFormed, _ => loadable_leafAst wellFormed
  | .group op values, wellFormed, kept => by
      rw [Object.wellFormed, Bool.and_eq_true] at wellFormed
      rw [keepsNegation, Bool.and_eq_true] at kept
      have operands := areLoadable_toAsts values wellFormed.2 kept.2
      rcases values with _ | ⟨first, _ | ⟨second, values⟩⟩
      · simp at wellFormed
      · simp only [toAsts, areLoadable, Bool.and_true] at operands
        cases negated : op.negated with
        | false => rwa [toAst_single negated]
        | true =>
          rw [toAst_negated negated, Ast.loadable, isComparison_toAst, operands]
          simpa [negatesNoComparison, negated] using kept.1
      · cases op <;>
          simp [toAst, toAsts, groupAst, collapse, GroupOp.negate, GroupOp.negated,
            GroupOp.node, Ast.loadable, Ast.isComparison] <;>
          simpa [toAsts] using operands

theorem areLoadable_toAsts :
    ∀ values : List Object, areWellFormed values = true → areNegationsKept values = true →
      areLoadable (toAsts address values) = true
  | [], _, _ => rfl
  | value :: values, wellFormed, kept => by
      rw [areWellFormed, Bool.and_eq_true] at wellFormed
      rw [areNegationsKept, Bool.and_eq_true] at kept
      rw [toAsts, areLoadable, Bool.and_eq_true]
      exact ⟨loadable_toAst value wellFormed.1 kept.1,
        areLoadable_toAsts values wellFormed.2 kept.2⟩

end

theorem expandCondition_loaded {runtime : Runtime}
    (read : parseConditionString text = .ok ast) (loaded : Loaded runtime ast object)
    (topOp : Option GroupOp) :
    ∃ expanded, expandCondition ⟨topOp, text⟩ = some expanded ∧
      (expanded = object ∨
        ∃ op, op.negated = false ∧ expanded = .group op [object] ∧
          (topOp = some op ∨ object.opensTwice = false)) := by
  have expands : expandText text = some object := by
    delta expandText
    rw [read]
    exact loaded.loads
  refine ⟨_, by rw [expandCondition, expands]; rfl, ?_⟩
  cases topOp with
  | some op =>
    cases negated : op.negated with
    | true =>
      left
      dsimp only
      rw [if_pos negated]
      split
      next field value => exact absurd rfl (loaded.noNot field value)
      · rfl
    | false =>
      right
      refine ⟨op, negated, ?_, .inl rfl⟩
      dsimp only
      rw [if_neg (by simp [negated])]
  | none =>
    dsimp only
    split
    · exact .inl rfl
    next field value => exact absurd rfl (loaded.noNot field value)
    next op field value _ =>
      split
      · exact .inl rfl
      · exact .inr ⟨.and, rfl, rfl, .inr rfl⟩

theorem flattenCondition_written
    (written : objectToStr address object = some text) (previous : Option GroupOp) :
    ∃ topOp, flattenCondition address previous object = some ⟨topOp, text⟩ ∧
      (topOp = previous ∨ object.enclosed = false) := by
  cases object with
  | leaf => exact ⟨none, by simp [flattenCondition, written], .inr rfl⟩
  | group op values =>
    by_cases alone : values.length = 1
    · exact ⟨some op, by simp [flattenCondition, written, alone],
        .inr (by simp [enclosed, alone])⟩
    · exact ⟨previous, by simp [flattenCondition, written, alone], .inl rfl⟩

theorem grouped_of_enclosed (grouping : object.keepsGrouping = true)
    (enclosed : object.enclosed = true) : object.grouped = true := by
  rcases object with ⟨op, _ | ⟨first, _ | ⟨second, values⟩⟩⟩ | _
  · exact grouping
  · simp [Object.enclosed] at enclosed
  · exact grouping
  · cases enclosed

def rewriteItem (address : Param → String) (item : Item) : Option String :=
  (expandCondition item).bind (objectToStr address)

theorem saved_condition_matches (runtime : Runtime) (previous : Option GroupOp) (object : Object)
    (wellFormed : object.wellFormed = true) (grouping : object.keepsGrouping = true)
    (negation : object.keepsNegation = true)
    (current : (∃ op, previous = some op ∧ op.negated = false) → object.opensTwice = false) :
    ∃ item ast text, flattenCondition runtime.address previous object = some item ∧
      parseConditionString item.condition = .ok ast ∧
      rewriteItem runtime.address item = some text ∧
      ∀ request, (compileText runtime text).map (fun compiled => compiled.matches runtime request) =
          (object.meaning runtime).map fun meant => meant.matches runtime request := by
  obtain ⟨raw, rooted⟩ : ∃ raw, Rooted runtime.address object raw :=
    rooted_of_keepsGrouping object wellFormed grouping
  obtain ⟨written, read⟩ := parse_of_rooted rooted
  obtain ⟨topOp, flattens, remembers⟩ := flattenCondition_written written previous
  obtain ⟨loadedObject, loaded⟩ :
      ∃ loadedObject, Loaded runtime (object.toAst runtime.address) loadedObject :=
    loaded_of_loadable _ (loadable_toAst object wellFormed negation)
  obtain ⟨expanded, expands, shape⟩ := expandCondition_loaded read loaded topOp
  have rewritten : ∃ text, Rooted runtime.address expanded text ∧
      expanded.toAst runtime.address = loadedObject.toAst runtime.address := by
    rcases shape with rfl | ⟨op, positive, rfl, wrapped⟩
    · obtain ⟨text, rooted⟩ := rooted_of_readable loaded.readable
      exact ⟨text, rooted, rfl⟩
    · have opens : loadedObject.opensTwice = false := by
        rcases wrapped with rfl | simple
        · rw [loaded.opens]
          cases enclosed : object.enclosed with
          | false => exact opensTwice_root object wellFormed grouping enclosed
          | true =>
            have kept := remembers.resolve_right (by simp [enclosed])
            exact opensTwice_toAst wellFormed (grouped_of_enclosed grouping enclosed)
              (current ⟨op, kept.symm, positive⟩)
        · exact simple
      obtain ⟨text, rooted⟩ := rooted_single_of_readable positive loaded.readable opens
      exact ⟨text, rooted, toAst_single positive loadedObject⟩
  obtain ⟨text, rerooted, sameTree⟩ := rewritten
  obtain ⟨rewrites, reread⟩ := parse_of_rooted rerooted
  refine ⟨_, _, stripParentheses text, flattens, read, by simp [rewriteItem, expands, rewrites],
    fun request => ?_⟩
  have compiles : compileText runtime (stripParentheses text) =
      buildCondition runtime (object.toAst runtime.address) := by
    rw [compileText_of_parse reread, sameTree, loaded.builds]
  rw [compiles]
  exact match_toAst object wellFormed

theorem saved_group_of_groups_matches :
    ∃ item ast text, flattenCondition bareRuntime.address none (.group .and [.group .or [
            .group .notAnd [.leaf "equals" (.text "a") (.text "\""),
              .leaf "contains" (.text "b.c") (.text "x)")],
            .group .and [.leaf "regex" (.text "d") (.text "^y$"),
              .leaf "true" .undef .undef]]]) = some item ∧
      parseConditionString item.condition = .ok ast ∧
      rewriteItem bareRuntime.address item = some text ∧
      ∀ request, (compileText bareRuntime text).map
            (fun compiled => compiled.matches bareRuntime request) =
          (meaning bareRuntime (.group .and [.group .or [
            .group .notAnd [.leaf "equals" (.text "a") (.text "\""),
              .leaf "contains" (.text "b.c") (.text "x)")],
            .group .and [.leaf "regex" (.text "d") (.text "^y$"),
              .leaf "true" .undef .undef]]])).map fun meant => meant.matches bareRuntime request :=
  saved_condition_matches bareRuntime none _ (by decide +kernel) (by decide +kernel)
    (by decide +kernel) (by rintro ⟨_, ⟨⟩, _⟩)

/-- Without its parentheses an `or` under an `and` lets a request through. -/
theorem saved_nested_or_differs :
    flattenCondition bareRuntime.address none
        (.group .and [.group .and [.group .or [.leaf "equals" (.text "a") (.text "1"),
            .leaf "equals" (.text "b") (.text "2")]], .leaf "equals" (.text "c") (.text "3")]) =
        some ⟨none, "a == \"1\" || b == \"2\" && c == \"3\""⟩ ∧
      ((rewriteItem bareRuntime.address ⟨none, "a == \"1\" || b == \"2\" && c == \"3\""⟩).bind
          (compileText bareRuntime)).map
          (fun compiled => compiled.matches bareRuntime (.hash [("a", .text "1")])) =
        some (some true) ∧
      (meaning bareRuntime
          (.group .and [.group .and [.group .or [.leaf "equals" (.text "a") (.text "1"),
              .leaf "equals" (.text "b") (.text "2")]],
            .leaf "equals" (.text "c") (.text "3")])).map
          (fun meant => meant.matches bareRuntime (.hash [("a", .text "1")])) =
        some (some false) := by decide +kernel

end PacketFence.Filter
