import PacketFence.Foundations.Failure
import PacketFence.Foundations.Splitting
import PacketFence.MiniTemplate.Parser

/-!
# Parameters of a filter's action

`pf::access_filter` splits the template of an action at commas and equals signs
and expands each piece in two passes, `$name` first and `${path}` after it. A
`$name` in a piece lets the second pass expand what the request brings. A path
with a dot ends in a function that is not imported when its first key is there.
-/

namespace PacketFence.AccessFilter

open Foundations Foundations.Lexing MiniTemplate List

def pieces (template : Text) : List Text :=
  Splitting.split (fun char => char == ',' || char == '=') isSpace template

/-- Perl's `split` returns no empty pieces at the end. -/
def perlSplit (template : Text) : List Text :=
  (pieces template).rdropWhile List.isEmpty

/-- What stands behind each `$` of a text, up to the next one. -/
def behind (text : Text) : List Text :=
  (text.splitOn '$').tail

/-- A replacement of all matches of an expression that begins with `$` and
matches no other `$`. -/
def replaceAll (replace : Text → Text) (text : Text) : Text :=
  text.takeWhile (· ≠ '$') ++ (behind text).flatMap replace

def replaceAllM (replace : Text → Except String Text) (text : Text) : Except String Text := do
  let replaced ← (behind text).mapM replace
  return text.takeWhile (· ≠ '$') ++ replaced.flatten

def inPath (char : Char) : Bool :=
  isWord char || char == '-' || char == '.'

/-- The keys of a path in braces, and the text behind it. -/
def path? : Text → Option (List Text × Text)
  | '{' :: body =>
    match body.dropWhile inPath with
    | '}' :: rest =>
      let keys := (body.takeWhile inPath).splitOn '.'
      if keys.any List.isEmpty then none else some (keys, rest)
    | _ => none
  | _ => none

section Expansion

variable (address : Vars → Text) (args : Vars)

def replaceName (text : Text) : Text :=
  if startsWord text then
    (valueOf args (text.takeWhile isWord)).string address ++ text.dropWhile isWord
  else
    '$' :: text

/-- `reftype` is not imported by the package, and it is called for a key that exists. -/
def replaceParamsDeep : List Text → Except String Text
  | [] => .ok []
  | [param] => .ok ((valueOf args param).string address)
  | key :: _ =>
    if (args.lookup key).isSome then
      .error "Undefined subroutine &pf::access_filter::reftype called"
    else
      .ok []

def replacePath (text : Text) : Except String Text :=
  match path? text with
  | some (keys, rest) => return (← replaceParamsDeep address args keys) ++ rest
  | none => .ok ('$' :: text)

def evalActionParam (answer : Text) : Except String Text :=
  replaceAllM (replacePath address args) (replaceAll (replaceName address args) answer)

def evalActionParams (template : Text) : Except String (List Text) :=
  (perlSplit template).mapM (evalActionParam address args)

/-- What the second pass puts for a path, and for a dollar that begins none. -/
def expand (text : Text) : Text :=
  match path? text with
  | some (keys, rest) => (valueAt args keys).string address ++ rest
  | none => '$' :: text

/-- The single pass: names and paths of the piece, each by its value. -/
def literally (piece : Text) : Text :=
  piece |> replaceAll fun text =>
    match path? text with
    | some (keys, rest) => (valueAt args keys).string address ++ rest
    | none => replaceName address args text

end Expansion

def keys? (part : Text) : Option (List Text) :=
  (path? part).map Prod.fst

/-- The keys of each path of a text. -/
def paths (text : Text) : List (List Text) :=
  (behind text).filterMap keys?

/-- `reftype` is not called for these keys. -/
def reachable (args : Vars) : List Text → Bool
  | key :: _ :: _ => (args.lookup key).isNone
  | _ => true

/-! ### Texts and their dollars -/

theorem splitOn_dollar (text : Text) :
    text.splitOn '$' = text.takeWhile (· ≠ '$') :: behind text := by
  induction text with
  | nil => rfl
  | cons char rest ih =>
    rw [behind, splitOn_cons_eq_if_modifyHead]
    by_cases dollar : char = '$'
    · simp [dollar]
    · simp [dollar, ih]

theorem plain_or_append (text : Text) :
    '$' ∉ text ∨ ∃ before part, '$' ∉ part ∧ text = before ++ '$' :: part := by
  induction text using List.reverseRecOn with
  | nil => exact .inl not_mem_nil
  | append_singleton text char ih =>
    by_cases dollar : char = '$'
    · exact .inr ⟨text, [], not_mem_nil, by rw [dollar]⟩
    · obtain plain | ⟨before, part, plain, rfl⟩ := ih
      · exact .inl (by simpa [plain] using Ne.symm dollar)
      · exact .inr ⟨before, part ++ [char], by simpa [plain] using Ne.symm dollar, by simp⟩

/-- Texts are followed from one dollar to the next. -/
theorem dollar_induction {motive : Text → Prop} (plain : ∀ text, '$' ∉ text → motive text)
    (append : ∀ before part, '$' ∉ part → motive before → motive (before ++ '$' :: part))
    (text : Text) : motive text := by
  obtain none | ⟨before, part, none, split⟩ := plain_or_append text
  · exact plain text none
  · rw [split]
    exact append before part none (dollar_induction plain append before)
termination_by text.length
decreasing_by simp [split]

variable {text part : Text} {replace : Text → Except String Text} {answer : Text}

@[simp] theorem behind_of_plain (plain : '$' ∉ text) : behind text = [] := by
  rw [behind, splitOn_eq_singleton plain, tail_cons]

@[simp] theorem replaceAll_of_plain (replace : Text → Text) (plain : '$' ∉ text) :
    replaceAll replace text = text := by
  rw [replaceAll, behind_of_plain plain, flatMap_nil, append_nil, takeWhile_eq_self_iff]
  exact fun char member => decide_eq_true fun same => plain (same ▸ member)

section

variable (before : Text) (plain : '$' ∉ part)

include plain

theorem splitOn_append_dollar :
    (before ++ '$' :: part).splitOn '$' = before.splitOn '$' ++ [part] := by
  rw [splitOn_append_cons_self, splitOn_eq_singleton plain]

@[simp] theorem behind_append : behind (before ++ '$' :: part) = behind before ++ [part] := by
  rw [behind, splitOn_append_dollar before plain, splitOn_dollar before, cons_append, tail_cons]

@[simp] theorem replaceAll_append (replace : Text → Text) :
    replaceAll replace (before ++ '$' :: part) = replaceAll replace before ++ replace part := by
  have split := splitOn_append_dollar before plain
  rw [splitOn_dollar, splitOn_dollar before] at split
  obtain ⟨head, tail⟩ := List.cons.inj split
  rw [replaceAll, head, tail, replaceAll]
  simp

@[simp]
theorem paths_append : paths (before ++ '$' :: part) = paths before ++ (keys? part).toList := by
  rw [paths, behind_append before plain, filterMap_append, paths]
  cases found : keys? part <;> simp [found]

end

theorem replaceAllM_eq_ok {value : Text → Text}
    (succeeds : ∀ part ∈ behind text, replace part = .ok (value part)) :
    replaceAllM replace text = .ok (replaceAll value text) := by
  have mapped : (behind text).mapM replace = .ok ((behind text).map value) := by
    rw [mapM_eq_ok_iff, map_map]
    exact map_congr_left succeeds
  rw [replaceAllM, mapped, replaceAll, flatMap_def]
  rfl

theorem ok_of_replaceAllM (run : replaceAllM replace text = .ok answer)
    (member : part ∈ behind text) : ∃ value, replace part = .ok value := by
  obtain ⟨replaced, mapped, -⟩ := ok_of_bind run
  have result := mem_map_of_mem member (f := replace)
  rw [mapM_eq_ok_iff.mp mapped] at result
  obtain ⟨value, -, succeeds⟩ := mem_map.mp result
  exact ⟨value, succeeds.symm⟩

/-! ### The two passes -/

variable (address : Vars → Text) (args : Vars)

theorem path?_append {keys : List Text} {rest : Text} (more : Text)
    (found : path? part = some (keys, rest)) :
    path? (part ++ more) = some (keys, rest ++ more) := by
  unfold path? at found
  split at found
  next body =>
    split at found
    next rest closed =>
      have ends : (body ++ more).dropWhile inPath = '}' :: (rest ++ more) := by
        simp [dropWhile_append, closed]
      have begins : (body ++ more).takeWhile inPath = body.takeWhile inPath := by
        have whole := takeWhile_append_dropWhile (p := inPath) (l := body)
        rw [takeWhile_append, if_neg]
        intro short
        rw [closed] at whole
        have length := congrArg List.length whole
        simp [short] at length
      obtain ⟨named, same⟩ := Option.ite_none_left_eq_some.mp found
      cases same
      simp [path?, ends, begins, named]
    · cases found
  · cases found

/-- Another character goes to the end, or it completes a path. -/
theorem replaceAll_expand_concat (text : Text) (char : Char) :
    (paths text).length < (paths (text ++ [char])).length ∨
      (paths (text ++ [char])).length = (paths text).length ∧
        replaceAll (expand address args) (text ++ [char]) =
          replaceAll (expand address args) text ++ [char] := by
  by_cases dollar : char = '$'
  · subst dollar
    right
    rw [paths_append _ not_mem_nil, replaceAll_append _ not_mem_nil]
    exact ⟨by simp [keys?, path?], rfl⟩
  · have other : '$' ∉ [char] := by simpa using Ne.symm dollar
    obtain plain | ⟨before, part, plain, rfl⟩ := plain_or_append text
    · have longer : '$' ∉ text ++ [char] := by simp [plain, Ne.symm dollar]
      right
      rw [replaceAll_of_plain _ plain, replaceAll_of_plain _ longer, paths, paths,
        behind_of_plain plain, behind_of_plain longer]
      exact ⟨rfl, rfl⟩
    · have longer : '$' ∉ part ++ [char] := by simp [plain, Ne.symm dollar]
      rw [append_assoc, cons_append, paths_append _ plain, paths_append _ longer,
        replaceAll_append _ plain, replaceAll_append _ longer]
      cases found : path? part with
      | some path =>
        right
        simp [keys?, expand, found, path?_append [char] found]
      | none =>
        cases again : path? (part ++ [char]) with
        | some path =>
          left
          simp [keys?, found, again]
        | none =>
          right
          simp [keys?, expand, found, again]

theorem replaceAll_expand_append (text more : Text) :
    (paths text).length ≤ (paths (text ++ more)).length ∧
      ((paths (text ++ more)).length ≤ (paths text).length →
        replaceAll (expand address args) (text ++ more) =
          replaceAll (expand address args) text ++ more) := by
  induction more generalizing text with
  | nil => simp
  | cons char more ih =>
    obtain ⟨fewer, same⟩ := ih (text ++ [char])
    rw [append_cons]
    obtain longer | ⟨length, added⟩ := replaceAll_expand_concat address args text char
    · exact ⟨by omega, fun equal => by omega⟩
    · refine ⟨by omega, fun equal => ?_⟩
      rw [same (by omega), added, append_assoc, singleton_append]

/-- The piece after the first pass has at least its own paths. If it has no others, the second
pass leaves what the first one has put. -/
theorem replaceAll_replaceName (piece : Text) :
    (paths piece).length ≤ (paths (replaceAll (replaceName address args) piece)).length ∧
      ((paths (replaceAll (replaceName address args) piece)).length ≤ (paths piece).length →
        replaceAll (expand address args) (replaceAll (replaceName address args) piece) =
          literally address args piece) := by
  induction piece using dollar_induction with
  | plain piece plain => simp [literally, replaceAll_of_plain _ plain]
  | append before part plain ih =>
    obtain ⟨fewer, same⟩ := ih
    rw [literally, replaceAll_append _ plain, replaceAll_append _ plain, paths_append _ plain]
    cases found : path? part with
    | some path =>
      have unnamed : replaceName address args part = '$' :: part := by
        unfold path? at found
        split at found
        · rfl
        · cases found
      rw [unnamed, paths_append _ plain, replaceAll_append _ plain]
      simp only [length_append]
      refine ⟨by omega, fun equal => ?_⟩
      rw [same (by omega)]
      simp [expand, found, literally]
    | none =>
      obtain ⟨more, kept⟩ := replaceAll_expand_append address args
        (replaceAll (replaceName address args) before) (replaceName address args part)
      simp only [keys?, found, Option.map_none, Option.toList_none, append_nil]
      refine ⟨by omega, fun equal => ?_⟩
      rw [kept (by omega), same (by omega)]
      rfl

variable {args}

theorem replaceParamsDeep_eq_ok {keys : List Text} (there : reachable args keys) :
    replaceParamsDeep address args keys = .ok ((valueAt args keys).string address) := by
  match keys with
  | [] | [_] => rfl
  | key :: _ :: _ =>
    have absent : args.lookup key = none := Option.isNone_iff_eq_none.mp there
    simp [replaceParamsDeep, valueAt, valueOf, absent, Value.string]

theorem reachable_of_replaceParamsDeep {keys : List Text}
    (run : replaceParamsDeep address args keys = .ok answer) : reachable args keys := by
  match keys with
  | [] | [_] => rfl
  | key :: _ :: _ =>
    by_contra taken
    have there : (args.lookup key).isSome := by simpa [reachable] using taken
    simp [replaceParamsDeep, there] at run

variable {piece : Text}
  (inert : paths (replaceAll (replaceName address args) piece) = paths piece)

include inert

theorem evalActionParam_of_reachable (there : ∀ keys ∈ paths piece, reachable args keys) :
    evalActionParam address args piece = .ok (literally address args piece) := by
  rw [← (replaceAll_replaceName address args piece).2 (by rw [inert])]
  refine replaceAllM_eq_ok fun part member => ?_
  rw [replacePath, expand]
  cases found : path? part with
  | none => rfl
  | some path =>
    have own : path.1 ∈ paths piece := by
      rw [← inert]
      exact mem_filterMap.mpr ⟨part, member, by simp [keys?, found]⟩
    simp only [replaceParamsDeep_eq_ok address (there _ own)]
    rfl

theorem reachable_of_evalActionParam (run : evalActionParam address args piece = .ok answer)
    {keys : List Text} (member : keys ∈ paths piece) : reachable args keys := by
  rw [← inert] at member
  obtain ⟨part, there, found⟩ := mem_filterMap.mp member
  obtain ⟨⟨_, rest⟩, path, rfl⟩ := Option.map_eq_some_iff.mp found
  obtain ⟨value, ran⟩ := ok_of_replaceAllM run there
  rw [replacePath, path] at ran
  obtain ⟨value, ran, -⟩ := ok_of_bind ran
  exact reachable_of_replaceParamsDeep address ran

omit inert

theorem perlSplit_eq_pieces_iff {template : Text} :
    perlSplit template = pieces template ↔ ∀ piece ∈ (pieces template).getLast?, piece ≠ [] := by
  rw [perlSplit, Splitting.rdropWhile_eq_self_iff_getLast]
  simp

/-- If no value brings in a path, a template is expanded literally exactly if it does not end in
an empty piece and has a path with a dot only where the first key is missing. -/
theorem evalActionParams_literally_iff (address : Vars → Text) (args : Vars) (template : Text)
    (inert : ∀ piece ∈ pieces template,
      paths (replaceAll (replaceName address args) piece) = paths piece) :
    evalActionParams address args template =
        .ok ((pieces template).map (literally address args)) ↔
      (∀ piece ∈ (pieces template).getLast?, piece ≠ []) ∧
        ∀ piece ∈ pieces template, ∀ keys ∈ paths piece, reachable args keys := by
  rw [← perlSplit_eq_pieces_iff, evalActionParams, mapM_eq_ok_iff, map_map]
  constructor
  · intro mapped
    have whole : perlSplit template = pieces template :=
      ( rdropWhile_prefix ..).eq_of_length (by simpa [perlSplit] using congrArg List.length mapped)
    refine ⟨whole, fun piece member keys => ?_⟩
    rw [whole] at mapped
    exact reachable_of_evalActionParam address (inert piece member)
      (map_inj_left.mp mapped piece member)
  · rintro ⟨whole, there⟩
    rw [whole]
    exact map_congr_left fun piece member =>
      evalActionParam_of_reachable address (inert piece member) (there piece member)

/-- A value without a path stays as it is, dollars and braces included. -/
theorem value_inserted :
    let args : Vars := [(['a'], .text "1$\x7b b".toList)]
    evalActionParams (fun _ => []) args "$a,x".toList = .ok ["1$\x7b b".toList, "x".toList] := by
  intro args
  refine (evalActionParams_literally_iff _ _ _ ?_).mpr ?_
  · decide
  · decide

theorem value_expanded :
    let args : Vars := [(['a'], .text "$\x7bb\x7d".toList), (['b'], .text "secret".toList)]
    evalActionParams (fun _ => []) args "$a".toList = .ok ["secret".toList] ∧
      (pieces "$a".toList).map (literally (fun _ => []) args) = ["$\x7bb\x7d".toList] := ⟨rfl, rfl⟩

end PacketFence.AccessFilter
