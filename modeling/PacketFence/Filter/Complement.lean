import PacketFence.Filter.Editing

/-!
# Negative operators

A negative operator is either a class of its own or the positive one inside a
`not`. Where the field is there, the two give opposite results except that
`not_contains` looks at the case of letters and has no branch for the empty
text, that `not_true` loses its `not`, and that a number and something that is
none are neither lower nor greater or equal.
-/

namespace PacketFence.Filter

open Foundations Lexing Option

/-- A positive and a negative condition on the same field and value. -/
inductive Complementary : Ast → Ast → Prop where
  | compare (op : CompareOp) (field : Param) (value : String) :
      Complementary (.cmp op field value) (.cmp op.inverse field value)
  | contains (params : List Param) :
      Complementary (.func "contains" params) (.func "not_contains" params)
  | defined (params : List Param) :
      Complementary (.func "defined" params) (.func "not_defined" params)
  | stripped {name : String} {op : FuncOp} (params : List Param)
      (handled : resolveFunc ("not_" ++ name) = some (op, true)) :
      Complementary (.func name params) (.func ("not_" ++ name) params)

namespace Value

def follow? : List String → Value → Option Value
  | [], value => some value
  | key :: rest, value => (value.get? key).bind (follow? rest)

end Value

section

variable (runtime : Runtime)

def Ast.keys : Ast → List String
  | .cmp _ field _ => splitKeys (field.toText runtime.address)
  | .func _ params => splitKeys ((params[0]?.getD Param.undef).toText runtime.address)
  | _ => []

def comparedValue (field : Param) (value : String) : String :=
  if (splitKeys (field.toText runtime.address)).getLast? = some "connection_sub_type" then
    normalizeConnectionSubType value
  else
    value

/-- The whole path of the field is there and leads to `argument`. -/
def FieldDefined (ast : Ast) (request argument : Value) : Prop :=
  Value.follow? (ast.keys runtime) request = some argument ∧ argument.isDefined = true

def Opposite (positive negative : Condition) (request : Value) : Prop :=
  negative.matches runtime request = (positive.matches runtime request).map (!·)

def CompareOp.isNumeric : CompareOp → Bool
  | .greater | .greaterEquals | .lower | .lowerEquals => true
  | _ => false

/-- What a leaf needs for its negative to be its complement. -/
def Complements (request argument : Value) : Ast → Prop
  | .cmp op field value => op.isNumeric = true →
      runtime.compareNumbers (argument.toText runtime)
        (evalParam runtime (comparedValue runtime field value) request) ≠ none
  | .func name params =>
    let shown := argument.toText runtime
    let value := evalParam runtime ((params[1]?.getD Param.undef).str?.getD "") request
    if name = "contains" then
      if value = "" then runtime.regexMatch "" shown = some true
      else runtime.foldCase value <:+: runtime.foldCase shown → value.toList <:+: shown.toList
    else
      name ≠ "true"
  | _ => True

end

variable {runtime : Runtime} {argument request : Value} {positive negative : Condition}
  {name : String} {op : FuncOp} {params : List Param} {test : Test} {keys : List String}
  {condition : Condition} {field : Param} {value : String}

theorem match_of_follow? (builds : buildParentCondition (.test test) keys = some condition)
    {value : Value} (path : Value.follow? keys value = some argument)
    (args : Option Value) :
    condition.match runtime value args =
      test.match runtime argument (args.getD value) := by
  induction keys generalizing condition value args with
  | nil => cases builds
  | cons key rest ih =>
    rcases bind_eq_some_iff.mp path with ⟨inner, found, remaining⟩
    cases rest with
    | nil =>
      cases builds
      cases remaining
      simp only [Condition.match, found]
      rfl
    | cons next rest =>
      rw [buildParentCondition, map_eq_some_iff] at builds
      · rcases builds with ⟨below, buildsBelow, rfl⟩
        simp only [Condition.match, found]
        exact ih buildsBelow remaining _
      · simp

theorem matches_of_follow? (builds : buildParentCondition (.test test) keys = some condition)
    (path : Value.follow? keys request = some argument) :
    condition.matches runtime request = test.match runtime argument request :=
  match_of_follow? builds path none

theorem match_inverse_iff (op : CompareOp) (argument value : String) :
    op.inverse.match runtime argument value = (op.match runtime argument value).map (!·) ↔
      (op.isNumeric = true → runtime.compareNumbers argument value ≠ none) := by
  cases op with
  | equals | notEquals => simp [CompareOp.inverse, CompareOp.match, CompareOp.isNumeric, bne]
  | regex => simp [CompareOp.inverse, CompareOp.match, CompareOp.isNumeric]
  | notRegex =>
    simp only [CompareOp.inverse, CompareOp.match, CompareOp.isNumeric]
    cases runtime.regexMatch value argument <;> simp
  | greater | greaterEquals | lower | lowerEquals =>
    simp only [CompareOp.inverse, CompareOp.match, CompareOp.isNumeric, forall_const]
    cases runtime.compareNumbers argument value with
    | none => simp
    | some order => cases order <;> simp

theorem test_of_buildBinaryCondition {op : CompareOp}
    (builds : buildBinaryCondition runtime op field value = some condition) :
    buildParentCondition (.test (.compare op (comparedValue runtime field value)))
      (splitKeys (field.toText runtime.address)) = some condition := by
  rcases bind_eq_some_iff.mp builds with ⟨test, created, parents⟩
  have isTest : test = .compare op (comparedValue runtime field value) := by
    unfold CompareOp.new? at created
    split at created
    · cases created
      rfl
    · cases created
  rw [← isTest, parents]

theorem compare_opposite_iff {op : CompareOp}
    (builds : buildBinaryCondition runtime op field value = some positive)
    (buildsNegative : buildBinaryCondition runtime op.inverse field value = some negative)
    (defined : FieldDefined runtime (.cmp op field value) request argument) :
    Opposite runtime positive negative request ↔
      Complements runtime request argument (.cmp op field value) := by
  rw [Opposite, matches_of_follow? (test_of_buildBinaryCondition builds) defined.1,
    matches_of_follow? (test_of_buildBinaryCondition buildsNegative) defined.1]
  simp only [Test.match, defined.2, if_true]
  exact match_inverse_iff op _ _

theorem of_buildFunction {wrapInNot : Bool}
    (resolved : resolveFunc name = some (op, wrapInNot)) (notTrue : op ≠ .true)
    (builds : buildFunction runtime name params = some condition) :
    ∃ test inner, op.new? (params[1]?.getD .undef) = some test ∧
      (if op = .timePeriod then some (.test test)
        else buildParentCondition (.test test)
          (splitKeys ((params[0]?.getD Param.undef).toText runtime.address))) = some inner ∧
      condition = if wrapInNot then .not inner else inner := by
  simp only [buildFunction, resolved, bind_eq_bind, bind_some, if_neg notTrue] at builds
  rcases bind_eq_some_iff.mp builds with ⟨test, created, rest⟩
  refine ⟨test, ?_⟩
  split at rest
  next hasNoKey => exact ⟨_, created, if_pos hasNoKey, (Option.some.inj rest).symm⟩
  next hasKey =>
    rcases bind_eq_some_iff.mp rest with ⟨inner, built, ended⟩
    exact ⟨inner, created, (if_neg hasKey).trans built, (Option.some.inj ended).symm⟩

theorem isInfix_foldCase {shown : String} (inside : value.toList <:+: shown.toList) :
    runtime.foldCase value <:+: runtime.foldCase shown := by
  rcases inside with ⟨before, behind, parts⟩
  refine ⟨before.flatMap runtime.foldChar, behind.flatMap runtime.foldChar, ?_⟩
  rw [Runtime.foldCase, Runtime.foldCase, ← parts, List.flatMap_append, List.flatMap_append]

theorem contains_opposite_iff (builds : buildFunction runtime "contains" params = some positive)
    (buildsNegative : buildFunction runtime "not_contains" params = some negative)
    (defined : FieldDefined runtime (.func "contains" params) request argument) :
    Opposite runtime positive negative request ↔
      Complements runtime request argument (.func "contains" params) := by
  rcases of_buildFunction rfl (by decide) builds with ⟨test, _, created, built, rfl⟩
  rcases of_buildFunction rfl (by decide) buildsNegative with
    ⟨testNegative, _, createdNegative, builtNegative, rfl⟩
  rcases map_eq_some_iff.mp created with ⟨value, isText, rfl⟩
  rcases map_eq_some_iff.mp createdNegative with ⟨same, isSame, rfl⟩
  cases isText.symm.trans isSame
  rw [Opposite, matches_of_follow? builtNegative defined.1, matches_of_follow? built defined.1]
  simp only [Complements, isText, getD_some, if_true, Test.match, defined.2,
    Bool.not_true, Bool.false_eq_true, if_false, Bool.true_and, map_some]
  by_cases isEmpty : evalParam runtime value request = ""
  · have folded : runtime.foldCase (evalParam runtime value request) = [] := by
      rw [isEmpty]
      rfl
    rw [if_pos isEmpty, if_pos isEmpty, folded, decide_eq_true (List.nil_infix)]
    cases runtime.regexMatch "" (argument.toText runtime) <;> simp
  · rw [if_neg isEmpty, if_neg isEmpty]
    simp only [Option.some.injEq, Bool.not_inj_iff, decide_eq_decide]
    exact ⟨fun same => same.mpr, fun sameCase => ⟨isInfix_foldCase, sameCase⟩⟩

theorem defined_opposite (builds : buildFunction runtime "defined" params = some positive)
    (buildsNegative : buildFunction runtime "not_defined" params = some negative)
    (defined : FieldDefined runtime (.func "defined" params) request argument) :
    Opposite runtime positive negative request := by
  rcases of_buildFunction rfl (by decide) builds with ⟨test, _, created, built, rfl⟩
  rcases of_buildFunction rfl (by decide) buildsNegative with
    ⟨testNegative, _, createdNegative, builtNegative, rfl⟩
  cases created
  cases createdNegative
  rw [Opposite, matches_of_follow? builtNegative defined.1, matches_of_follow? built defined.1]
  simp [Test.match, defined.2]

@[simp] theorem stripNot?_append (name : String) : stripNot? ("not_" ++ name) = some name := by
  simp [stripNot?]

theorem of_stripped (handled : resolveFunc ("not_" ++ name) = some (op, true)) :
    FuncOp.ofName? name = some op := by
  unfold resolveFunc at handled
  split at handled
  · cases handled
  · rw [stripNot?_append, bind_some, map_eq_some_iff] at handled
    rcases handled with ⟨found, isName, same⟩
    cases same
    exact isName

theorem ne_contains_of_stripped
    (handled : resolveFunc ("not_" ++ name) = some (op, true)) : name ≠ "contains" := by
  rintro rfl
  cases handled

theorem eq_true_of_ofName? (isTrue : FuncOp.ofName? name = some .true) : name = "true" := by
  unfold FuncOp.ofName? at isTrue
  split at isTrue <;> simp_all

theorem stripped_opposite_iff (handled : resolveFunc ("not_" ++ name) = some (op, true))
    (builds : buildFunction runtime name params = some positive)
    (buildsNegative : buildFunction runtime ("not_" ++ name) params = some negative)
    (request : Value) : Opposite runtime positive negative request ↔ name ≠ "true" := by
  have isName := of_stripped handled
  have resolved : resolveFunc name = some (op, false) := by rw [resolveFunc, isName]
  by_cases isTrue : op = .true
  · subst isTrue
    -- Both are compiled to the condition that is always true.
    simp only [buildFunction, resolved, handled, bind_eq_bind, bind_some, if_true,
      Option.some.injEq] at builds buildsNegative
    subst builds buildsNegative
    refine iff_of_false (fun opposite => ?_) fun differs => differs (eq_true_of_ofName? isName)
    cases opposite
  · rcases of_buildFunction resolved isTrue builds with ⟨test, _, created, built, rfl⟩
    rcases of_buildFunction handled isTrue buildsNegative with
      ⟨same, inner, createdSame, builtSame, rfl⟩
    cases created.symm.trans createdSame
    cases built.symm.trans builtSame
    refine iff_of_true rfl ?_
    rintro rfl
    exact isTrue (Option.some.inj isName).symm

/-- Where the field is defined, a negative operator gives the opposite of its
positive one exactly if numbers are numbers, the case of letters makes no
difference and the function is not `true`. -/
theorem negation_complements_iff {positive negative : Ast}
    (pair : Complementary positive negative) {condition negated : Condition}
    (builds : buildCondition runtime positive = some condition)
    (buildsNegated : buildCondition runtime negative = some negated)
    {request argument : Value} (defined : FieldDefined runtime positive request argument) :
    Opposite runtime condition negated request ↔
      Complements runtime request argument positive := by
  cases pair with
  | compare op field value => exact compare_opposite_iff builds buildsNegated defined
  | contains params => exact contains_opposite_iff builds buildsNegated defined
  | defined params =>
    exact iff_of_true (defined_opposite builds buildsNegated defined) (by simp [Complements])
  | stripped params handled =>
    rw [Complements, if_neg (ne_contains_of_stripped handled)]
    exact stripped_opposite_iff handled builds buildsNegated request

def oneField (field value : String) : Value := .hash [(field, .text value)]

theorem equals_complements :
    Opposite bareRuntime (.key "os" (.test (.compare .equals "Android")))
        (.key "os" (.test (.compare .notEquals "Android"))) (oneField "os" "iOS") ↔
      Complements bareRuntime (oneField "os" "iOS") (.text "iOS")
        (.cmp .equals (.text "os") "Android") :=
  negation_complements_iff (.compare .equals (.text "os") "Android") (by rfl) (by rfl)
    ⟨by rfl, rfl⟩

/-- Both operators match a field that contains the value in other letters. -/
theorem contains_and_not_contains :
    (buildCondition bareRuntime (.func "contains" [.text "os", .text "android"])).map
        (fun condition => condition.matches bareRuntime (oneField "os" "Android")) =
      some (some true) ∧
    (buildCondition bareRuntime (.func "not_contains" [.text "os", .text "android"])).map
        (fun condition => condition.matches bareRuntime (oneField "os" "Android")) =
      some (some true) := by decide +kernel

end PacketFence.Filter
