import PacketFence.Filter.RoundTrip

/-!
# Loading a condition into the editor and saving it

A condition that the running system uses is loaded as an object and written
back. The object keeps two parameters of a call and nothing but scalars, and
has no place for the negation of a comparison, for which it takes the inverse
operator. Where the condition needs none of what is lost, the text that is
saved compiles to the same condition.
-/

namespace PacketFence.Filter

open Foundations Lexing Option Bool GroupOp Param

def Param.isText : Param → Bool
  | .text _ => true
  | _ => false

def FuncOp.usesValue : FuncOp → Bool
  | .defined => false
  | .notDefined => false
  | .true => false
  | _ => Bool.true

def usesValue (name : String) : Bool :=
  (resolveFunc name).any fun resolved => resolved.1.usesValue

/-- A call whose parameters are kept: the first one can be written without
quotes, and the second one is a literal, if it is looked at. -/
def editableCall (name : String) (params : List Param) : Bool :=
  name == TRUE_CONDITION ||
    ((params[0]?.getD undef).isBare &&
      (!usesValue name || (params[1]?.getD undef).isText))

variable {name condition : String} {params : List Param} {ast : Ast}

theorem editableCall_of_ne
    (editable : editableCall name params = true) (noTrue : name ≠ TRUE_CONDITION) :
    (params[0]?.getD undef).isBare = true ∧
      (usesValue name = false ∨ (params[1]?.getD undef).isText = true) := by
  simpa [editableCall, noTrue] using editable

def Ast.isComparison : Ast → Bool
  | .cmp _ _ _ => true
  | _ => false

mutual

/-- Nothing is lost in the editor: no identifier stands for itself, no
comparison is negated or has a call on its left. -/
def Ast.editable : Ast → Bool
  | .id _ => false
  | .or operands => areEditable operands
  | .and operands => areEditable operands
  | .not operand => !operand.isComparison && operand.editable
  | .cmp _ field _ => field.isText
  | .func name params => editableCall name params

def areEditable : List Ast → Bool
  | [] => true
  | ast :: rest => ast.editable && areEditable rest

end

mutual

/-- What the text of an object can stand for. -/
def Ast.loadable : Ast → Bool
  | .id _ => false
  | .or operands => decide (2 ≤ operands.length) && areLoadable operands
  | .and operands => decide (2 ≤ operands.length) && areLoadable operands
  | .not operand => !operand.isComparison && operand.loadable
  | .cmp _ field _ => field.isIdentifier
  | .func name params => (resolveFunc name).isSome && editableCall name params

def areLoadable : List Ast → Bool
  | [] => true
  | ast :: rest => ast.loadable && areLoadable rest

end

def functionNames : List String :=
  ["includes", "contains", "not_contains", "defined", "not_defined", "date_is_before",
    "date_is_after", "fingerbank_device_is_a", "time_period", "starts_with", "ends_with", "true"]

theorem mem_functionNames {op : FuncOp} (known : FuncOp.ofName? name = some op) :
    name ∈ functionNames := by
  unfold FuncOp.ofName? at known
  split at known
  all_goals first | decide | cases known

def isCallName (name : String) : Bool :=
  isIdentifier name.toList && (ofName? name).isNone && (CompareOp.ofName? name).isNone

theorem isCallName_functionNames :
    ∀ name ∈ functionNames, isCallName name = true ∧ isCallName ("not_" ++ name) = true := by
  decide +kernel

theorem isCallName_of_known (known : (resolveFunc name).isSome = true) :
    isCallName name = true := by
  unfold resolveFunc at known
  split at known
  next op direct => exact (isCallName_functionNames name (mem_functionNames direct)).1
  · rw [isSome_map, isSome_iff_exists] at known
    obtain ⟨op, inner⟩ := known
    obtain ⟨positive, stripped, direct⟩ := bind_eq_some_iff.mp inner
    have whole : name = "not_" ++ positive := by
      unfold stripNot? at stripped
      split at stripped
      next rest shape =>
        cases stripped
        apply String.toList_inj.mp
        rw [shape]
        simp
      · cases stripped
    rw [whole]
    exact (isCallName_functionNames positive (mem_functionNames direct)).2

def Ast.isJunction : Ast → Bool
  | .or _ => true
  | .and _ => true
  | _ => false

def Ast.opensTwice : Ast → Bool
  | .or (first :: _) => first.isJunction
  | .and (first :: _) => first.isJunction
  | _ => false

/-- Whether the text starts with two parentheses. -/
def Object.opensTwice : Object → Bool
  | .group op (first :: _ :: _) => !op.negated && first.enclosed
  | _ => false

def resave (address : Param → String) (condition : String) : Option String :=
  match parseConditionString condition with
  | .ok ast => (astToObject ast).bind (objectToStr address)
  | .error _ => none

def compileText (runtime : Runtime) (condition : String) : Option Condition :=
  match parseConditionString condition with
  | .ok ast => buildCondition runtime ast
  | .error _ => none

theorem resave_of_parse
    (parsed : parseConditionString condition = .ok ast) (address : Param → String) :
    resave address condition = (astToObject ast).bind (objectToStr address) := by
  delta resave
  rw [parsed]

theorem compileText_of_parse
    (parsed : parseConditionString condition = .ok ast) (runtime : Runtime) :
    compileText runtime condition = buildCondition runtime ast := by
  delta compileText
  rw [parsed]

def GroupOp.meaning (op : GroupOp) (conditions : List Condition) : Condition :=
  match op with
  | .and => .all conditions
  | .or => .any conditions
  | .notAnd => .not (.all conditions)
  | .notOr => .not (.any conditions)

variable {field : Param}

section Loading

variable (runtime : Runtime)

@[simp] theorem toText_reread (param : Param) :
    param.reread.toText runtime.address = param.toText runtime.address := by
  unfold reread
  split <;> rfl

theorem new?_text {op : FuncOp} {value : Param}
    (kept : op.usesValue = false ∨ value.isText = true) :
    op.new? (.text (value.toText runtime.address)) = op.new? value := by
  rcases kept with unused | literal
  · cases op <;> first | rfl | cases unused
  · cases value with
    | text => rfl
    | undef | var | func => cases literal

theorem buildFunction_reread
    (editable : editableCall name params = true) (noTrue : name ≠ TRUE_CONDITION) :
    buildFunction runtime name [(params[0]?.getD undef).reread,
        .text ((params[1]?.getD undef).toText runtime.address)] =
      buildFunction runtime name params := by
  unfold buildFunction
  cases resolved : resolveFunc name with
  | none => rfl
  | some resolution =>
    have kept := (editableCall_of_ne editable noTrue).2
    rw [usesValue, resolved, any_some] at kept
    simp [new?_text runtime kept]

/-- An object is loaded from a tree and can be written; the text is compiled
as the tree was. -/
structure Loaded (ast : Ast) (object : Object) : Prop where
  loads : astToObject ast = some object
  readable : object.readable = true
  builds : buildCondition runtime (object.toAst runtime.address) = buildCondition runtime ast
  encloses : object.enclosed = ast.isJunction
  opens : object.opensTwice = ast.opensTwice
  noNot : ∀ field value, object ≠ .leaf "not" field value

variable {runtime}

theorem loaded_cmp (op : CompareOp) (valid : field.isIdentifier = true) (value : String) :
    Loaded runtime (.cmp op field value) (.leaf op.name field (.text value)) := by
  refine ⟨rfl, ?_, ?_, rfl, rfl, ?_⟩
  · cases op <;> exact valid
  · cases op <;> rfl
  · cases op <;> simp [CompareOp.name]

theorem loaded_func
    (known : (resolveFunc name).isSome = true) (editable : editableCall name params = true) :
    ∃ op field value, Loaded runtime (.func name params) (.leaf op field value) := by
  by_cases isTrue : name = TRUE_CONDITION
  · subst isTrue
    have resolved : resolveFunc TRUE_CONDITION = some (.true, false) := by decide
    refine ⟨TRUE_CONDITION, .undef, .undef, ?_, ?_, ?_, rfl, rfl, by simp [TRUE_CONDITION]⟩
    · rw [astToObject, if_pos rfl]
    · simp [Object.readable, readableLeaf]
    · simp [Object.toAst, leafAst, buildCondition, buildFunction, resolved]
  · have callName := isCallName_of_known known
    simp only [isCallName, and_eq_true, isNone_iff_eq_none] at callName
    obtain ⟨⟨validName, noGroup⟩, noCompare⟩ := callName
    have bare := (editableCall_of_ne editable isTrue).1
    refine ⟨name, params[0]?.getD undef, params[1]?.getD undef, ?_, ?_, ?_, rfl,
      rfl, ?_⟩
    · rw [astToObject, if_neg isTrue]
    · simp [Object.readable, readableLeaf, noGroup, validName, noCompare, bare]
    · rw [Object.toAst, leafAst, if_neg isTrue, noCompare]
      exact buildFunction_reread runtime editable isTrue
    · rintro _ _ ⟨rfl⟩
      cases known

theorem buildCondition_several (op : GroupOp) (first second : Ast) (others : List Ast) :
    buildCondition runtime (op.negate (op.node (first :: second :: others))) =
      (buildConditions runtime (first :: second :: others)).map op.meaning := by
  cases op <;>
    simp only [negate, negated, node, buildCondition, map_map,
      if_true, false_eq_true, if_false] <;>
    rfl

variable {operands : List Ast}

theorem isSome_buildConditions (op : GroupOp) (several : 2 ≤ operands.length)
    (compiles : (buildCondition runtime (op.negate (op.node operands))).isSome = true) :
    (buildConditions runtime operands).isSome = true := by
  rcases operands with _ | ⟨first, _ | ⟨second, operands⟩⟩
  · rfl
  · simp at several
  · rwa [buildCondition_several, isSome_map] at compiles

section Operands

variable {objects : List Object} (loaded : List.Forall₂ (Loaded runtime) operands objects)

include loaded

theorem astsToObjects_of_loaded : astsToObjects operands = some objects := by
  induction loaded with
  | nil => rfl
  | cons first _ ih => simp [astsToObjects, first.loads, ih]

theorem areReadable_of_loaded : areReadable objects = true := by
  induction loaded with
  | nil => rfl
  | cons first _ ih => simp [areReadable, first.readable, ih]

theorem buildConditions_of_loaded :
    buildConditions runtime (toAsts runtime.address objects) =
      buildConditions runtime operands := by
  induction loaded with
  | nil => rfl
  | cons first _ ih => simp [toAsts, buildConditions, first.builds, ih]

theorem loaded_group (op : GroupOp) (several : 2 ≤ operands.length) :
    Loaded runtime (op.negate (op.node operands)) (.group op objects) := by
  have loads := astsToObjects_of_loaded loaded
  have readable := areReadable_of_loaded loaded
  have builds := buildConditions_of_loaded loaded
  rcases loaded with _ | ⟨first, _ | ⟨second, _⟩⟩
  · cases several
  · simp at several
  · refine ⟨?_, readable, ?_, ?_, ?_, nofun⟩
    · cases op <;> exact congrArg (Option.map _) loads
    · exact (buildCondition_several op ..).trans
        ((congrArg (Option.map _) builds).trans (buildCondition_several op ..).symm)
    · cases op <;> rfl
    · cases op <;> simp [Object.opensTwice, negate, negated, node,
        Ast.opensTwice, first.encloses]

end Operands

theorem loaded_not {object : Object} (loaded : Loaded runtime ast object)
    (loads : astToObject (.not ast) =
      (astToObject ast).map fun object => .group .notAnd [object]) :
    Loaded runtime (.not ast) (.group .notAnd [object]) where
  loads := by
    rw [loads, loaded.loads]
    rfl
  readable := by
    simp [Object.readable, keepsParentheses, negated, areReadable, loaded.readable]
  builds := congrArg (Option.map Condition.not) loaded.builds
  encloses := rfl
  opens := rfl
  noNot := nofun

mutual

theorem loaded_of_loadable :
    ∀ ast : Ast, ast.loadable = true → ∃ object, Loaded runtime ast object
  | .id _, loadable => by cases loadable
  | .cmp op _ value, loadable => ⟨_, loaded_cmp op loadable value⟩
  | .func name params, loadable => by
      rw [Ast.loadable, and_eq_true] at loadable
      obtain ⟨op, field, value, loaded⟩ := loaded_func loadable.1 loadable.2
      exact ⟨_, loaded⟩
  | .or operands, loadable => by
      simp only [Ast.loadable, and_eq_true, decide_eq_true_eq] at loadable
      obtain ⟨objects, loaded⟩ := loadeds_of_loadable operands loadable.2
      exact ⟨_, loaded_group loaded .or loadable.1⟩
  | .and operands, loadable => by
      simp only [Ast.loadable, and_eq_true, decide_eq_true_eq] at loadable
      obtain ⟨objects, loaded⟩ := loadeds_of_loadable operands loadable.2
      exact ⟨_, loaded_group loaded .and loadable.1⟩
  | .not (.id _), loadable => by simp [Ast.loadable] at loadable
  | .not (.cmp _ _ _), loadable => by simp [Ast.loadable, Ast.isComparison] at loadable
  | .not (.or operands), loadable => by
      simp only [Ast.loadable, and_eq_true, decide_eq_true_eq] at loadable
      obtain ⟨objects, loaded⟩ := loadeds_of_loadable operands loadable.2.2
      exact ⟨_, loaded_group loaded .notOr loadable.2.1⟩
  | .not (.and operands), loadable => by
      simp only [Ast.loadable, and_eq_true, decide_eq_true_eq] at loadable
      obtain ⟨objects, loaded⟩ := loadeds_of_loadable operands loadable.2.2
      exact ⟨_, loaded_group loaded .notAnd loadable.2.1⟩
  | .not (.func name params), loadable => by
      simp only [Ast.loadable, and_eq_true] at loadable
      obtain ⟨op, field, value, loaded⟩ := loaded_func loadable.2.1 loadable.2.2
      exact ⟨_, loaded_not loaded rfl⟩
  | .not (.not operand), loadable => by
      rw [Ast.loadable, and_eq_true] at loadable
      obtain ⟨object, loaded⟩ := loaded_of_loadable (.not operand) loadable.2
      exact ⟨_, loaded_not loaded rfl⟩

theorem loadeds_of_loadable :
    ∀ operands : List Ast, areLoadable operands = true →
      ∃ objects, List.Forall₂ (Loaded runtime) operands objects
  | [], _ => ⟨[], .nil⟩
  | operand :: operands, loadable => by
      rw [areLoadable, and_eq_true] at loadable
      obtain ⟨object, first⟩ := loaded_of_loadable operand loadable.1
      obtain ⟨objects, others⟩ := loadeds_of_loadable operands loadable.2
      exact ⟨object :: objects, .cons first others⟩

end

mutual

theorem loadable_of_editable :
    ∀ ast : Ast, ast.proper = true → (buildCondition runtime ast).isSome = true →
      ast.editable = true → ast.loadable = true
  | .id _, _, _, editable => by cases editable
  | .cmp _ field _, proper, _, editable => by
      cases field with
      | text => exact proper
      | undef | var | func => cases editable
  | .func name params, _, compiles, editable => by
      rw [Ast.loadable, and_eq_true]
      refine ⟨?_, editable⟩
      rw [buildCondition, buildFunction] at compiles
      cases resolved : resolveFunc name with
      | none => simp [resolved] at compiles
      | some => rfl
  | .not operand, proper, compiles, editable => by
      rw [Ast.editable, and_eq_true] at editable
      rw [buildCondition, isSome_map] at compiles
      rw [Ast.loadable, and_eq_true]
      exact ⟨editable.1, loadable_of_editable operand proper compiles editable.2⟩
  | .or operands, proper, compiles, editable => by
      rw [Ast.proper, and_eq_true] at proper
      rw [Ast.loadable, and_eq_true]
      have operandsCompile := isSome_buildConditions .or (of_decide_eq_true proper.1) compiles
      exact ⟨proper.1, areLoadable_of_editable operands proper.2 operandsCompile editable⟩
  | .and operands, proper, compiles, editable => by
      rw [Ast.proper, and_eq_true] at proper
      rw [Ast.loadable, and_eq_true]
      have operandsCompile := isSome_buildConditions .and (of_decide_eq_true proper.1) compiles
      exact ⟨proper.1, areLoadable_of_editable operands proper.2 operandsCompile editable⟩

theorem areLoadable_of_editable :
    ∀ operands : List Ast, areProper operands = true →
      (buildConditions runtime operands).isSome = true → areEditable operands = true →
      areLoadable operands = true
  | [], _, _, _ => rfl
  | operand :: operands, proper, compiles, editable => by
      rw [areProper, and_eq_true] at proper
      rw [areEditable, and_eq_true] at editable
      rw [areLoadable, and_eq_true]
      rw [buildConditions] at compiles
      cases first : buildCondition runtime operand with
      | none => simp [first] at compiles
      | some condition =>
        cases others : buildConditions runtime operands with
        | none => simp [first, others] at compiles
        | some conditions =>
          exact ⟨loadable_of_editable operand proper.1 (by rw [first]; rfl) editable.1,
            areLoadable_of_editable operands proper.2 (by rw [others]; rfl) editable.2⟩

end

/-- Where the editor loses nothing, what it saves matches the same requests. -/
theorem edited_condition_matches (runtime : Runtime) (condition : String) (ast : Ast)
    (compiled : Condition) (parsed : parseConditionString condition = .ok ast)
    (compiles : buildCondition runtime ast = some compiled) (editable : ast.editable = true) :
    ∃ text recompiled, resave runtime.address condition = some text ∧
      compileText runtime text = some recompiled ∧
      ∀ request, recompiled.matches runtime request = compiled.matches runtime request := by
  have loadable := loadable_of_editable ast (proper_of_parse parsed)
    (by rw [compiles]; rfl) editable
  obtain ⟨object, loaded⟩ : ∃ object, Loaded runtime ast object := loaded_of_loadable ast loadable
  obtain ⟨text, written, read⟩ : ∃ text, objectToStr runtime.address object = some text ∧ _ :=
    parse_objectToStr loaded.readable
  refine ⟨text, compiled, ?_, ?_, fun _ => rfl⟩
  · rw [resave_of_parse parsed, loaded.loads]
    exact written
  · rw [compileText_of_parse read, loaded.builds, compiles]

def bareRuntime : Runtime where
  address := fun _ => "0x1"
  reference := fun _ => "HASH(0x1)"
  regexMatch := fun _ _ => some false
  compareNumbers := fun _ _ => none
  strptime := fun _ => none
  localtime := ""
  deviceIsA := fun _ _ => false
  inPeriod := fun _ => false

theorem edited_negation_of_group_matches :
    ∃ ast compiled,
      parseConditionString "!(a == \"b\" || defined(c)) && d.e != \"\\\"\"" = .ok ast ∧
      buildCondition bareRuntime ast = some compiled ∧ ast.editable = true ∧
      ∃ text recompiled,
        resave bareRuntime.address "!(a == \"b\" || defined(c)) && d.e != \"\\\"\"" = some text ∧
        compileText bareRuntime text = some recompiled ∧
        ∀ request,
          recompiled.matches bareRuntime request = compiled.matches bareRuntime request := by
  have met : (match parseConditionString "!(a == \"b\" || defined(c)) && d.e != \"\\\"\"" with
      | .ok ast => (buildCondition bareRuntime ast).isSome && ast.editable
      | .error _ => false) = true := by decide +kernel
  split at met
  next ast parsed =>
    rw [and_eq_true, isSome_iff_exists] at met
    obtain ⟨⟨compiled, compiles⟩, editable⟩ := met
    exact ⟨ast, compiled, parsed, compiles, editable,
      edited_condition_matches bareRuntime _ ast compiled parsed compiles editable⟩
  · cases met

/-- A bare `true` does not compile any more, and a negated comparison no longer
matches where the field is missing. -/
theorem edited_condition_differs :
    (resave bareRuntime.address "true" = some "var(true, \"\")" ∧
      (compileText bareRuntime "true").map
        (fun compiled => compiled.matches bareRuntime (.hash [])) = some (some true) ∧
      (compileText bareRuntime "var(true, \"\")").map
        (fun compiled => compiled.matches bareRuntime (.hash [])) = none) ∧
    resave bareRuntime.address "!(a == \"b\")" = some "a != \"b\"" ∧
      (compileText bareRuntime "!(a == \"b\")").map
        (fun compiled => compiled.matches bareRuntime (.hash [])) = some (some true) ∧
      (compileText bareRuntime "a != \"b\"").map
        (fun compiled => compiled.matches bareRuntime (.hash [])) = some (some false) := by
  decide +kernel

end Loading

variable {runtime : Runtime}

theorem isSome_buildParentCondition (child : Condition) (keys : List String) :
    (buildParentCondition child keys).isSome = !keys.isEmpty := by
  induction keys with
  | nil => rfl
  | cons key keys ih =>
    cases keys with
    | nil => rfl
    | cons next keys =>
      rw [buildParentCondition, isSome_map, ih]
      · rfl
      · simp

variable {compiled : Condition} {op : CompareOp} {value : String}

theorem buildParentCondition_missing {child : Condition} {keys : List String}
    (builds : buildParentCondition child keys = some compiled) :
    compiled.matches runtime (.hash []) = some false := by
  rcases keys with _ | ⟨key, _ | ⟨next, keys⟩⟩
  · cases builds
  · cases builds
    rfl
  · rw [buildParentCondition, map_eq_some_iff] at builds
    · obtain ⟨inner, -, rfl⟩ := builds
      rfl
    · simp

theorem buildBinaryCondition_missing
    (builds : buildBinaryCondition runtime op field value = some compiled) :
    compiled.matches runtime (.hash []) = some false := by
  obtain ⟨test, -, builds⟩ := bind_eq_some_iff.mp builds
  exact buildParentCondition_missing builds

@[simp] theorem isSome_new?_inverse (op : CompareOp) (value : String) :
    (op.inverse.new? runtime value).isSome = (op.new? runtime value).isSome := by
  cases op <;> simp only [CompareOp.new?, CompareOp.inverse, CompareOp.match] <;>
    cases runtime.regexMatch (evalParam runtime value .undef) "test" <;> rfl

theorem exists_buildBinaryCondition_inverse
    (builds : buildBinaryCondition runtime op field value = some compiled) :
    ∃ inverted, buildBinaryCondition runtime op.inverse field value = some inverted := by
  obtain ⟨test, created, parents⟩ := bind_eq_some_iff.mp builds
  obtain ⟨inverse, createdInverse⟩ := isSome_iff_exists.mp
    ((isSome_new?_inverse op _).trans (by rw [created]; rfl))
  have nonempty := isSome_buildParentCondition (.test inverse)
    (splitKeys (field.toText runtime.address))
  rw [← isSome_buildParentCondition (.test test), parents, isSome_some,
    isSome_iff_exists] at nonempty
  obtain ⟨inverted, parentsInverse⟩ := nonempty
  exact ⟨inverted, bind_eq_some_iff.mpr ⟨inverse, createdInverse, parentsInverse⟩⟩

/-- The negation of a comparison is lost: without the field it holds, and after it was loaded
and saved it does not. -/
theorem negated_comparison_changes (valid : field.isIdentifier = true)
    (compiles : buildCondition runtime (.not (.cmp op field value)) = some compiled) :
    ∃ text recompiled,
      (astToObject (.not (.cmp op field value))).bind (objectToStr runtime.address) = some text ∧
      compileText runtime text = some recompiled ∧
      compiled.matches runtime (.hash []) = some true ∧
      recompiled.matches runtime (.hash []) = some false := by
  have loaded : Loaded runtime (.cmp op.inverse field value) _ := loaded_cmp op.inverse valid value
  obtain ⟨text, written, read⟩ : ∃ text, objectToStr runtime.address _ = some text ∧ _ :=
    parse_objectToStr loaded.readable
  rw [buildCondition, map_eq_some_iff] at compiles
  obtain ⟨positive, builds, rfl⟩ := compiles
  obtain ⟨inverted, buildsInverse⟩ := exists_buildBinaryCondition_inverse builds
  refine ⟨text, inverted, written, ?_, ?_, buildBinaryCondition_missing buildsInverse⟩
  · rw [compileText_of_parse read, loaded.builds]
    exact buildsInverse
  · exact congrArg (Option.map (!·)) (buildBinaryCondition_missing builds)

theorem negated_equality_changes :
    ∃ compiled text recompiled,
      buildCondition bareRuntime (.not (.cmp .equals (.text "a") "b")) = some compiled ∧
      compileText bareRuntime text = some recompiled ∧
      compiled.matches bareRuntime (.hash []) ≠ recompiled.matches bareRuntime (.hash []) := by
  obtain ⟨compiled, compiles⟩ : ∃ compiled,
    buildCondition bareRuntime (.not (.cmp .equals (.text "a") "b")) = some compiled := ⟨_, rfl⟩
  obtain ⟨text, recompiled, -, read, before, after⟩ := negated_comparison_changes rfl compiles
  exact ⟨compiled, text, recompiled, compiles, read, by simp [before, after]⟩

end PacketFence.Filter
