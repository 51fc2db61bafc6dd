import PacketFence.DetectParser.Generic
import PacketFence.Foundations.Failure

/-!
# Groups that take no part in a match

The expansion of a template looks at the bounds of a group before it slices the
line, the map of the named groups does not. So the parser returns exactly if
the named groups of every rule that it gets to have taken part.
-/

namespace PacketFence.DetectParser

open Foundations List

variable {environment : Environment} {rule : Rule} {line : Bytes} {context : Context}

def AreGroups (line : Bytes) (submatches : List Int) : Prop :=
  ∀ i low high, submatches[2 * i]? = some low → submatches[2 * i + 1]? = some high →
    IsGroup line low high

def Participates (rule : Rule) (line : Bytes) : Prop :=
  ∀ submatches, rule.regexp.findStringSubmatchIndex line = some submatches →
    ∀ i name low, rule.regexp.subexpNames[i]? = some name → name ≠ [] →
      submatches[2 * i]? = some low → 0 ≤ low

/-- The rule matches and is not skipped for the sake of an address. -/
def Applies (environment : Environment) (rule : Rule) (line : Bytes) : Prop :=
  ∃ context, rule.context? environment line = .ok (some context)

/-- The named groups took part in every rule that the parser gets to. -/
def Safe (environment : Environment) (line : Bytes) : List Rule → Prop
  | [] => True
  | rule :: rest =>
    Participates rule line ∧
      (¬ (Applies environment rule line ∧ rule.lastIfMatch = true) →
        Safe environment line rest)

/-- Whatever a rule works with, a group that took no part stands for nothing, by its
number and by its name. -/
def AbsentEmpty (environment : Environment) (rules : List Rule) (line : Bytes) : Prop :=
  ∀ rule ∈ rules, ∀ context, rule.context? environment line = .ok (some context) →
    ∀ i low, context.submatches[2 * i]? = some low → low < 0 →
      (∀ name, Template.number? name = some i → context.valueOf name = .ok []) ∧
        ∀ name, rule.regexp.subexpNames[i]? = some name → name ≠ [] →
          context.valueOf name = .ok []

variable {i : Nat} {low : Int} {submatches : List Int} {high : Int}

theorem succeeds_slice_iff {post : Bytes → Prop} (group : IsGroup line low high) :
    Succeeds (slice line low high) post ↔
      0 ≤ low ∧ post ((line.drop low.toNat).take (high - low).toNat) := by
  unfold slice
  split
  next bounds =>
    rw [succeeds_ok]
    exact (and_iff_right bounds.1).symm
  next outside =>
    apply iff_of_false not_succeeds_error
    rintro ⟨took, _⟩
    rcases group with ⟨rfl, rfl⟩ | bounds
    · cases took
    · exact outside bounds

theorem index_of_lt (inside : i < submatches.length) : index submatches i = .ok submatches[i] := by
  unfold index
  rw [getElem?_eq_getElem inside]

theorem AreGroups.isGroup_getElem (groups : AreGroups line submatches)
    (inside : 2 * i + 1 < submatches.length) :
    IsGroup line submatches[2 * i] submatches[2 * i + 1] :=
  groups i _ _ (getElem?_eq_getElem _) (getElem?_eq_getElem inside)

theorem areGroups_pair {wholeLow wholeHigh : Int} (whole : IsGroup line wholeLow wholeHigh)
    (group : IsGroup line low high) : AreGroups line [wholeLow, wholeHigh, low, high] := by
  intro i first second isFirst isSecond
  rcases i with _ | _ | i
  · cases isFirst
    cases isSecond
    exact whole
  · cases isFirst
    cases isSecond
    exact group
  · cases isFirst

/-! ### Expanding -/

section Expansion

def Context.text (context : Context) (name : Bytes) : Bytes :=
  (context.valueOf name).toOption.getD []

section

variable (groups : AreGroups context.line context.submatches)

include groups

theorem succeeds_valueOf (name : Bytes) : Succeeds (context.valueOf name) fun _ => True := by
  unfold Context.valueOf
  split
  next number _ =>
    split
    next inside =>
      rw [succeeds_bind, index_of_lt (Nat.lt_of_succ_lt inside), succeeds_ok]
      split
      next took =>
        rw [succeeds_bind, index_of_lt inside, succeeds_ok]
        apply (succeeds_slice_iff (groups.isGroup_getElem inside)).mpr
        exact ⟨took, trivial⟩
      · exact succeeds_pure.mpr trivial
    · exact succeeds_pure.mpr trivial
  · exact succeeds_pure.mpr trivial

theorem valueOf_eq_text (name : Bytes) : context.valueOf name = .ok (context.text name) := by
  obtain ⟨text, found, _⟩ := succeeds_valueOf groups name
  rw [Context.text, found]
  rfl

theorem expandString_eq (template : Bytes) : expandString environment context template =
      .ok (Template.expand environment.names context.text template) := by
  have part : context.expandPart = fun part => pure (part.expand context.text) := by
    funext part
    cases part with
    | literal byte => rfl
    | placeholder name => exact valueOf_eq_text groups name
  unfold expandString Template.expand
  rw [part, mapM_pure, flatMap_def]
  rfl

end

theorem valueOf_of_absent {name : Bytes}
    (number : Template.number? name = some i) (bound : context.submatches[2 * i]? = some low)
    (absent : low < 0) : context.valueOf name = .ok [] := by
  have found : index context.submatches (2 * i) = .ok low := by
    unfold index
    rw [bound]
  unfold Context.valueOf
  rw [number]
  dsimp only
  split
  · rw [found]
    exact if_neg (Int.not_le.mpr absent)
  · rfl

theorem succeeds_actionCalls (environment : Environment)
    (groups : AreGroups context.line context.submatches) (cache : RateLimitCache)
    (actions : List Action) :
    Succeeds (actionCalls environment context cache actions) fun _ => True := by
  induction actions generalizing cache with
  | nil => exact succeeds_ok.mpr trivial
  | cons action rest ih =>
    rw [actionCalls, expandString_eq groups, succeeds_bind, succeeds_ok, succeeds_bind]
    obtain ⟨calls, made, _⟩ := ih (notRateLimited _ cache).2
    exact ⟨calls, made, succeeds_pure.mpr trivial⟩

end Expansion

/-! ### The named groups -/

theorem succeeds_namedGroups_iff (groups : AreGroups line submatches) {names : List Bytes}
    {start : Nat} (long : 2 * (start + names.length) ≤ submatches.length)
    (replacements : Replacements) :
    Succeeds (namedGroups line submatches start names replacements) (fun _ => True) ↔
      ∀ i name low, names[i]? = some name → name ≠ [] →
        submatches[2 * (start + i)]? = some low → 0 ≤ low := by
  induction names generalizing start replacements with
  | nil => exact iff_of_true (succeeds_ok.mpr trivial) nofun
  | cons name names ih =>
    rw [length_cons] at long
    have inside : 2 * start + 1 < submatches.length := by omega
    have rest : 2 * (start + 1 + names.length) ≤ submatches.length := by omega
    have apart : (∀ i other low, (name :: names)[i]? = some other → other ≠ [] →
          submatches[2 * (start + i)]? = some low → 0 ≤ low) ↔
        (name ≠ [] → 0 ≤ submatches[2 * start]) ∧
          ∀ i other low, names[i]? = some other → other ≠ [] →
            submatches[2 * (start + 1 + i)]? = some low → 0 ≤ low := by
      rw [← Nat.and_forall_add_one]
      simp [getElem?_eq_getElem (Nat.lt_of_succ_lt inside), Nat.add_assoc, Nat.add_comm 1]
    rw [apart]
    by_cases named : name = []
    · rw [namedGroups, if_neg (not_not.mpr named), ih rest]
      exact (and_iff_right fun other => absurd named other).symm
    · rw [namedGroups, if_pos named, succeeds_bind, index_of_lt (Nat.lt_of_succ_lt inside),
        succeeds_ok, succeeds_bind, index_of_lt inside, succeeds_ok, succeeds_bind,
        succeeds_slice_iff (groups.isGroup_getElem inside), ih rest]
      exact and_congr_left' ⟨fun took _ => took, fun took => took named⟩

/-! ### Rules -/

theorem context?_of_not_matches (silent : rule.regexp.findStringSubmatchIndex line = none) :
    rule.context? environment line = .ok none := by rw [Rule.context?, silent]

theorem succeeds_context?_iff (environment : Environment) :
    Succeeds (rule.context? environment line) (fun _ => True) ↔ Participates rule line := by
  cases found : rule.regexp.findStringSubmatchIndex line with
  | none =>
    rw [context?_of_not_matches found, succeeds_ok, Participates, found]
    exact iff_of_true trivial nofun
  | some submatches =>
    have groups : AreGroups line submatches := rule.regexp.isGroup line submatches found
    have long : 2 * (0 + rule.regexp.subexpNames.length) ≤ submatches.length := by
      rw [Nat.zero_add, rule.regexp.length_eq line submatches found]
    rw [Rule.context?, found, Participates, found]
    simp only [getReplacementMap, succeeds_bind, succeeds_pure, Option.some.injEq, forall_eq',
      succeeds_namedGroups_iff groups long, Nat.zero_add]

theorem found_of_context? (made : rule.context? environment line = .ok (some context)) :
    context.line = line ∧
      rule.regexp.findStringSubmatchIndex line = some context.submatches := by
  cases found : rule.regexp.findStringSubmatchIndex line with
  | none =>
    rw [context?_of_not_matches found] at made
    cases made
  | some submatches =>
    rw [Rule.context?, found] at made
    obtain ⟨replacements, _, made⟩ := ok_of_bind made
    obtain ⟨cleaned, _, rfl⟩ := Option.map_eq_some_iff.mp (Except.ok.inj made)
    exact ⟨rfl, rfl⟩

theorem areGroups_of_context? (made : rule.context? environment line = .ok (some context)) :
    AreGroups context.line context.submatches := by
  obtain ⟨rfl, found⟩ := found_of_context? made
  exact rule.regexp.isGroup _ _ found

theorem absentEmpty (environment : Environment) (rules : List Rule) (line : Bytes) :
    AbsentEmpty environment rules line := by
  intro rule _ context made i low bound absent
  constructor
  · intro name number
    exact valueOf_of_absent number bound absent
  · intro name named nonempty
    have participates : Participates rule line :=
      (succeeds_context?_iff environment).mp ⟨some context, made, trivial⟩
    obtain ⟨_, found⟩ := found_of_context? made
    have took : 0 ≤ low := participates _ found i name low named nonempty bound
    exact absurd took (Int.not_le.mpr absent)

variable {rest : List Rule}

theorem succeeds_parse_of_skipped (skipped : rule.context? environment line = .ok none) :
    Succeeds (parse environment (rule :: rest) line) (fun _ => True) ↔
      Succeeds (parse environment rest line) (fun _ => True) := by
  rw [parse, succeeds_bind, skipped, succeeds_ok, succeeds_bind]
  simp

theorem succeeds_parse_of_context? (made : rule.context? environment line = .ok (some context)) :
    Succeeds (parse environment (rule :: rest) line) (fun _ => True) ↔
      (rule.lastIfMatch ≠ true → Succeeds (parse environment rest line) (fun _ => True)) := by
  obtain ⟨⟨calls, cache⟩, ran, _⟩ := succeeds_actionCalls environment
    (areGroups_of_context? made) rule.rateLimitCache rule.actions
  rw [parse, succeeds_bind, made, succeeds_ok]
  dsimp only
  rw [ran, succeeds_bind, succeeds_ok]
  split
  next last => exact iff_of_true (succeeds_pure.mpr trivial) fun others => absurd last others
  next others =>
    rw [imp_iff_right others, succeeds_bind]
    simp

theorem succeeds_parse_iff {rules : List Rule} :
    Succeeds (parse environment rules line) (fun _ => True) ↔ Safe environment line rules := by
  induction rules with
  | nil => exact iff_of_true (succeeds_ok.mpr trivial) trivial
  | cons rule rest ih =>
    rw [Safe, ← ih, ← succeeds_context?_iff environment]
    cases made : rule.context? environment line with
    | error panic =>
      rw [parse, succeeds_bind, made]
      exact iff_of_false not_succeeds_error fun safe => not_succeeds_error safe.1
    | ok made? =>
      rw [succeeds_ok, true_and]
      cases made? with
      | none =>
        have skipped : ¬ Applies environment rule line := by
          rintro ⟨context, applies⟩
          rw [made] at applies
          cases applies
        rw [succeeds_parse_of_skipped made, imp_iff_right fun stops => skipped stops.1]
      | some context =>
        have applies : Applies environment rule line := ⟨context, made⟩
        rw [succeeds_parse_of_context? made, and_iff_right applies]

/-- The parser returns, and the groups that took no part stand for nothing, exactly if
the named groups took part wherever it gets to. -/
theorem parse_returns_iff (environment : Environment) (rules : List Rule) (line : Bytes) :
    (Succeeds (parse environment rules line) (fun _ => True) ∧
        AbsentEmpty environment rules line) ↔
      Safe environment line rules := by
  rw [succeeds_parse_iff]
  exact and_iff_left (absentEmpty environment rules line)

/-- `^(?P<user>a)?b$` -/
def optionalUser : Regexp where
  subexpNames := [[], asciiBytes "user"]
  findStringSubmatchIndex line :=
    if line = asciiBytes "ab" then some [0, 2, 0, 1]
    else if line = asciiBytes "b" then some [0, 1, -1, -1]
    else none
  length_eq line found matched := by
    split at matched
    · cases matched; rfl
    · split at matched
      · cases matched; rfl
      · cases matched
  isGroup line found matched := by
    split at matched
    next whole =>
      cases matched
      subst whole
      exact areGroups_pair (.inr (by decide)) (.inr (by decide))
    · split at matched
      next whole =>
        cases matched
        subst whole
        exact areGroups_pair (.inr (by decide)) (.inl ⟨rfl, rfl⟩)
      · cases matched

def lenientEnvironment : Environment where
  names := .onlyAscii
  cleanMac := id
  cleanIp := some
  mac2ip _ := none
  ip2mac _ := none
  tenantId := 1

def userRule : Rule where
  rateLimitCache := none
  regexp := optionalUser
  actions := [⟨asciiBytes "event", asciiBytes "name, $user"⟩]
  lastIfMatch := false
  ipMacTranslation := false

/-- A line without the optional user stops the parser. -/
theorem absent_group_panics :
    parse lenientEnvironment [userRule] (asciiBytes "b") = .error (.slice (-1) (-1)) := by rfl

end PacketFence.DetectParser
