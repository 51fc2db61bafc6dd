import PacketFence.DetectParser.Participation

/-!
# The shape of a call

The template of an action is expanded before it is split. What a line brings
in for a placeholder is therefore split as well: the parameters of a call are
the pieces of the template, each expanded by itself, exactly if no expanded
piece contains a separator, or has a blank next to a separator of the template.
-/

namespace PacketFence.DetectParser

open Foundations List Template

variable (environment : Environment)

def Produces (rule : Rule) (action : Action) (line : Bytes) (call : ApiCall) : Prop :=
  ∃ context paramsString, rule.context? environment line = .ok (some context) ∧
    expandString environment context action.argsTemplate = .ok paramsString ∧
      call = makeCall environment action paramsString

def PieceByPiece (rule : Rule) (action : Action) (line : Bytes) (call : ApiCall) : Prop :=
  ∀ context, rule.context? environment line = .ok (some context) →
    (split action.argsTemplate).map (expandString environment context) = call.params.map .ok

/-- Two calls for two lines that differ in what is inside of their parameters only. -/
structure SameShape (rule : Rule) (action : Action)
    (firstLine secondLine : Bytes) (first second : ApiCall) : Prop where
  method : first.method = second.method
  length : first.params.length = second.params.length
  firstPieces : PieceByPiece environment rule action firstLine first
  secondPieces : PieceByPiece environment rule action secondLine second

def Contained (rule : Rule) (action : Action) (line : Bytes) : Prop :=
  ∀ context, rule.context? environment line = .ok (some context) →
    Splitting.AllFit isSeparator isBlank (expand environment.names context.text) true
      (split action.argsTemplate)

variable {names : Template.NameRunes} {byte : UInt8}

theorem breaks_of_isSeparator (separator : isSeparator byte = true) :
    Template.Breaks names byte := by
  rcases of_decide_eq_true separator with rfl | rfl
  all_goals exact breaks_of_isPlain rfl

theorem breaks_of_isBlank (blank : isBlank byte = true) : Template.Breaks names byte := by
  rcases of_decide_eq_true blank with rfl | rfl | rfl | rfl | rfl
  all_goals exact breaks_of_isPlain rfl

theorem respects_expand (names : Template.NameRunes) (value : Bytes → Bytes) :
    Splitting.Respects isSeparator isBlank (expand names value) where
  nil := rfl
  atSeparator _ _ _ separator := expand_append (breaks_of_isSeparator separator) value
  atBlank _ _ _ blank := expand_append (breaks_of_isBlank blank) value
  apart byte blank := by
    rcases of_decide_eq_true blank with rfl | rfl | rfl | rfl | rfl
    all_goals rfl

section Calls

variable {environment : Environment} {rule : Rule} {action : Action} {line : Bytes}
  {context : Context} {call : ApiCall}

section

variable (produced : Produces environment rule action line call)

include produced

theorem pieceByPiece_iff : PieceByPiece environment rule action line call ↔
      Contained environment rule action line := by
  obtain ⟨context, paramsString, made, expanded, rfl⟩ := produced
  have groups : AreGroups context.line context.submatches := areGroups_of_context? made
  have only : ∀ other, rule.context? environment line = .ok (some other) ↔ context = other := by
    intro other
    rw [made, Except.ok.injEq, Option.some.injEq]
  rw [expandString_eq groups] at expanded
  cases expanded
  have pieces : (split action.argsTemplate).map (expandString environment context) =
      ((split action.argsTemplate).map
        (expand environment.names context.text)).map .ok := by
    rw [map_map]
    exact map_congr_left fun piece _ => expandString_eq groups piece
  have respects := respects_expand environment.names context.text
  rw [PieceByPiece, Contained]
  simp only [only, forall_eq']
  rw [pieces, List.map_inj_right fun _ _ => Except.ok.inj, eq_comm]
  exact respects.split_rewrite_iff action.argsTemplate

theorem method_of_produces : call.method = action.methodName := by
  obtain ⟨_, _, _, _, rfl⟩ := produced
  rfl

theorem length_of_pieceByPiece (pieces : PieceByPiece environment rule action line call) :
    call.params.length = (split action.argsTemplate).length := by
  obtain ⟨context, _, made, _, _⟩ := produced
  have lengths := congrArg List.length (pieces context made)
  rw [length_map, length_map] at lengths
  exact lengths.symm

end

theorem contained_of_context? (made : rule.context? environment line = .ok (some context))
    (fits : Splitting.AllFit isSeparator isBlank
      (expand environment.names context.text) true (split action.argsTemplate)) :
    Contained environment rule action line := by
  intro other again
  rw [made] at again
  cases again
  exact fits

theorem exists_of_mem_actionCalls {cache : RateLimitCache} {actions : List Action}
    {result : List ApiCall × RateLimitCache}
    (called : actionCalls environment context cache actions = .ok result)
    (member : call ∈ result.1) :
    ∃ action ∈ actions, ∃ paramsString,
      expandString environment context action.argsTemplate = .ok paramsString ∧
        call = makeCall environment action paramsString := by
  induction actions generalizing cache result with
  | nil =>
    cases called
    cases member
  | cons action rest ih =>
    obtain ⟨paramsString, expanded, called⟩ := ok_of_bind called
    obtain ⟨others, calledRest, called⟩ := ok_of_bind called
    have isResult : result.1 =
        if (notRateLimited (rateLimitKey action paramsString) cache).1 then
          makeCall environment action paramsString :: others.1
        else
          others.1 := congrArg Prod.fst (Except.ok.inj called).symm
    have calls : call = makeCall environment action paramsString ∨ call ∈ others.1 := by
      rw [isResult] at member
      split at member
      · exact mem_cons.mp member
      · exact .inr member
    rcases calls with rfl | inRest
    · exact ⟨action, mem_cons_self, paramsString, expanded, rfl⟩
    · obtain ⟨other, isAction, found⟩ := ih calledRest inRest
      exact ⟨other, mem_cons_of_mem _ isAction, found⟩

theorem exists_produces_of_mem_parse {rules : List Rule} {result : List ApiCall × List Rule}
    (parsed : parse environment rules line = .ok result) (member : call ∈ result.1) :
    ∃ rule ∈ rules, ∃ action ∈ rule.actions, Produces environment rule action line call := by
  induction rules generalizing result with
  | nil =>
    cases parsed
    cases member
  | cons rule rest ih =>
    have ofRest {others : List ApiCall × List Rule}
        (parsedRest : parse environment rest line = .ok others) (inRest : call ∈ others.1) :
        ∃ other ∈ rule :: rest, ∃ action ∈ other.actions,
          Produces environment other action line call := by
      obtain ⟨other, isRule, found⟩ := ih parsedRest inRest
      exact ⟨other, mem_cons_of_mem _ isRule, found⟩
    obtain ⟨made?, made, parsed⟩ := ok_of_bind parsed
    cases made? with
    | none =>
      obtain ⟨others, parsedRest, parsed⟩ := ok_of_bind parsed
      cases parsed
      exact ofRest parsedRest member
    | some context =>
      obtain ⟨⟨calls, cache⟩, called, parsed⟩ := ok_of_bind parsed
      have ofRule (inCalls : call ∈ calls) :
          ∃ other ∈ rule :: rest, ∃ action ∈ other.actions,
            Produces environment other action line call := by
        obtain ⟨action, isAction, paramsString, expanded, isCall⟩ :=
          exists_of_mem_actionCalls called inCalls
        exact ⟨rule, mem_cons_self, action, isAction, context, paramsString, made, expanded, isCall⟩
      dsimp only at parsed
      split at parsed
      · cases parsed
        exact ofRule member
      · obtain ⟨others, parsedRest, parsed⟩ := ok_of_bind parsed
        cases parsed
        rcases mem_append.mp member with inCalls | inRest
        · exact ofRule inCalls
        · exact ofRest parsedRest inRest

/-- The lines of two calls change nothing but the inside of parameters exactly if what
they bring in stays inside. -/
theorem same_shape_iff {firstLine secondLine : Bytes} {first second : ApiCall}
    (firstProduced : Produces environment rule action firstLine first)
    (secondProduced : Produces environment rule action secondLine second) :
    SameShape environment rule action firstLine secondLine first second ↔
      Contained environment rule action firstLine ∧
        Contained environment rule action secondLine := by
  rw [← pieceByPiece_iff firstProduced, ← pieceByPiece_iff secondProduced]
  constructor
  · intro same
    exact ⟨same.firstPieces, same.secondPieces⟩
  · rintro ⟨firstPieces, secondPieces⟩
    refine ⟨?_, ?_, firstPieces, secondPieces⟩
    · exact (method_of_produces firstProduced).trans (method_of_produces secondProduced).symm
    · exact (length_of_pieceByPiece firstProduced firstPieces).trans
        (length_of_pieceByPiece secondProduced secondPieces).symm

end Calls

/-- `^(?P<user>.*)$` -/
def wholeLine : Regexp where
  subexpNames := [[], asciiBytes "user"]
  findStringSubmatchIndex line :=
    if ascii '\n' ∈ line then none else some [0, line.length, 0, line.length]
  length_eq line found matched := by
    split at matched
    · cases matched
    · cases matched; rfl
  isGroup line found matched := by
    have all : IsGroup line 0 line.length :=
      .inr ⟨Int.le_refl 0, Int.natCast_nonneg _, Int.le_refl _⟩
    split at matched
    · cases matched
    · cases matched
      exact areGroups_pair all all

def loginAction : Action where
  methodName := asciiBytes "event"
  argsTemplate := asciiBytes "name, $user"

def loginRule : Rule where
  rateLimitCache := none
  regexp := wholeLine
  actions := [loginAction]
  lastIfMatch := false
  ipMacTranslation := false

def loginCall (params : List Bytes) : ApiCall where
  method := asciiBytes "event"
  params := params
  tenantId := 1

theorem bob_produces :
    Produces lenientEnvironment loginRule loginAction (asciiBytes "bob")
      (loginCall [asciiBytes "name", asciiBytes "bob"]) := ⟨_, _, rfl, rfl, rfl⟩

theorem eve_produces :
    Produces lenientEnvironment loginRule loginAction (asciiBytes "eve")
      (loginCall [asciiBytes "name", asciiBytes "eve"]) := ⟨_, _, rfl, rfl, rfl⟩

theorem parse_bob_produces :
    ∃ call, ∃ rule ∈ [loginRule], ∃ action ∈ rule.actions,
      Produces lenientEnvironment rule action (asciiBytes "bob") call := by
  have parsed : parse lenientEnvironment [loginRule] (asciiBytes "bob") = .ok _ := rfl
  exact ⟨_, exists_produces_of_mem_parse parsed mem_cons_self⟩

theorem plain_users_same_shape :
    SameShape lenientEnvironment loginRule loginAction (asciiBytes "bob") (asciiBytes "eve")
      (loginCall [asciiBytes "name", asciiBytes "bob"])
      (loginCall [asciiBytes "name", asciiBytes "eve"]) := by
  apply (same_shape_iff bob_produces eve_produces).mpr
  constructor
  · exact contained_of_context? rfl ⟨by decide +kernel, by decide +kernel, trivial⟩
  · exact contained_of_context? rfl ⟨by decide +kernel, by decide +kernel, trivial⟩

/-- A user with a comma becomes two parameters. -/
theorem comma_in_user_adds_parameter :
    ¬ SameShape lenientEnvironment loginRule loginAction (asciiBytes "bob") (asciiBytes "a,b")
      (loginCall [asciiBytes "name", asciiBytes "bob"])
      (loginCall [asciiBytes "name", asciiBytes "a", asciiBytes "b"]) ∧
    Produces lenientEnvironment loginRule loginAction (asciiBytes "bob")
      (loginCall [asciiBytes "name", asciiBytes "bob"]) ∧
    Produces lenientEnvironment loginRule loginAction (asciiBytes "a,b")
      (loginCall [asciiBytes "name", asciiBytes "a", asciiBytes "b"]) := by
  refine ⟨?_, bob_produces, _, _, rfl, rfl, rfl⟩
  intro same
  cases same.length

end PacketFence.DetectParser
