import PacketFence.Foundations.Failure
import PacketFence.MiniTemplate.Parser

/-!
# Texts and references are reproduced

A template of texts, with every `$` doubled, and of references to variables is
parsed, and processing what was parsed gives the texts and the values in their
order. Merging strings changes the nodes but not what they give.
-/

namespace PacketFence.MiniTemplate

open Foundations Lexing List

structure IsName (name : Text) : Prop where
  nonempty : name ≠ []
  chars : ∀ char ∈ name, isNameChar char = true

inductive Segment
  | literal (text : Text)
  | reference (name : Text) (valid : IsName name)

def Segment.template : Segment → Text
  | .literal text => text.flatMap fun char => if char = '$' then ['$', '$'] else [char]
  | .reference name _ => '$' :: '{' :: (name ++ ['}'])

variable (vars : Vars) (funcs : Text → Option Func) (address : Vars → Text)

def Segment.output : Segment → Text
  | .literal text => text
  | .reference name _ => (valueOf vars name).string address

def Yields (node : Node) (out : Text) : Prop :=
  Succeeds (processTmpl vars funcs node) (·.flatMap (Value.string address) = out)

def YieldsAll (nodes : List Node) (out : Text) : Prop :=
  Succeeds (processAll vars funcs nodes) (·.flatMap (Value.string address) = out)

/-- A template and its output, run by run up to the next `$`. -/
inductive Template : Text → Text → Prop
  | run (before : Text) : '$' ∉ before → Template before before
  | dollar (before : Text) {rest out : Text} : '$' ∉ before → Template rest out →
      Template (before ++ '$' :: '$' :: rest) (before ++ '$' :: out)
  | reference (before : Text) {name rest out : Text} : '$' ∉ before → IsName name →
      Template rest out → Template (before ++ '$' :: '{' :: (name ++ '}' :: rest))
        (before ++ ((valueOf vars name).string address ++ out))

variable {vars funcs address} {out text before rest : Text} {nodes : List Node} {node : Node}
  {depth : Nat}

@[simp] theorem yields_str_iff : Yields vars funcs address (.str text) out ↔ out = text := by
  simp [Yields, processTmpl, processSimple, Value.string, eq_comm]

theorem yields_var (name : Text) :
    Yields vars funcs address (.var name) ((valueOf vars name).string address) := by
  simp [Yields, processTmpl, processSimple]

@[simp] theorem yields_list_iff :
    Yields vars funcs address (.list nodes) out ↔ YieldsAll vars funcs address nodes out := by
  rw [Yields, processTmpl, YieldsAll]

@[simp] theorem yieldsAll_nil_iff : YieldsAll vars funcs address [] out ↔ out = [] := by
  simp [YieldsAll, processAll, eq_comm]

@[simp] theorem yieldsAll_cons_iff :
    YieldsAll vars funcs address (node :: nodes) out ↔
      ∃ first others, Yields vars funcs address node first ∧
        YieldsAll vars funcs address nodes others ∧ out = first ++ others := by
  simp only [YieldsAll, Yields, processAll, succeeds_bind, succeeds_pure]
  constructor
  · rintro ⟨first, head, others, tail, rfl⟩
    exact ⟨_, _, ⟨first, head, rfl⟩, ⟨others, tail, rfl⟩, flatMap_append⟩
  · rintro ⟨_, _, ⟨first, head, rfl⟩, ⟨others, tail, rfl⟩, rfl⟩
    exact ⟨first, head, others, tail, flatMap_append⟩

theorem yieldsAll_singleton_iff :
    YieldsAll vars funcs address [node] out ↔ Yields vars funcs address node out := by
  simp

theorem yieldsAll_mergeStrings_iff (last : Node) :
    YieldsAll vars funcs address (mergeStrings last nodes) out ↔
      YieldsAll vars funcs address (last :: nodes) out := by
  induction last, nodes using mergeStrings.induct generalizing out with
  | case1 last => rw [mergeStrings]
  | case2 first second rest ih =>
    rw [mergeStrings, ih]
    simp
  | case3 last node rest different ih =>
    rw [mergeStrings, yieldsAll_cons_iff, yieldsAll_cons_iff]
    · simp [ih]
    · exact different

theorem yields_optimize_iff (node : Node) :
    Yields vars funcs address (optimize node) out ↔ Yields vars funcs address node out := by
  unfold optimize
  split
  next node => rw [yields_list_iff, yieldsAll_singleton_iff]
  next text rest _ =>
    rw [yields_list_iff, ← yieldsAll_mergeStrings_iff]
    split
    next node merged => rw [merged, yieldsAll_singleton_iff]
    · rw [yields_list_iff]
  · rfl

/-- Nothing, or one node, is optimized. -/
theorem yieldsAll_optimize {next : Option Node}
    (yields : YieldsAll vars funcs address next.toList out) :
    YieldsAll vars funcs address (next.map optimize).toList out := by
  cases next with
  | none => exact yields
  | some node =>
    simp only [Option.map_some, Option.toList_some, yieldsAll_singleton_iff] at yields ⊢
    exact (yields_optimize_iff node).mpr yields

theorem Template.cons {char : Char} (plain : char ≠ '$')
    (template : Template vars address text out) :
    Template vars address (char :: text) (char :: out) := by
  have absent {before : Text} (absent : '$' ∉ before) : '$' ∉ char :: before :=
    not_mem_cons_of_ne_of_not_mem plain.symm absent
  cases template with
  | run before noDollar => exact .run _ (absent noDollar)
  | dollar before noDollar rest => exact .dollar _ (absent noDollar) rest
  | reference before noDollar name rest => exact .reference _ (absent noDollar) name rest

theorem template_segments (segments : List Segment) :
    Template vars address (segments.flatMap Segment.template)
      (segments.flatMap (Segment.output vars address)) := by
  induction segments with
  | nil => exact .run [] not_mem_nil
  | cons segment segments ih =>
    cases segment with
    | literal text =>
      induction text with
      | nil => exact ih
      | cons char text ihText =>
        by_cases dollar : char = '$'
        · subst dollar
          exact .dollar [] not_mem_nil ihText
        · have next := ihText.cons dollar
          simpa [Segment.template, Segment.output, dollar] using next
    | reference name valid =>
      have next := Template.reference [] not_mem_nil valid ih
      simpa [Segment.template, Segment.output] using next

theorem nameList_append {name : Text} (chars : ∀ char ∈ name, isNameChar char = true)
    (before rest : Text) :
    nameList before (name ++ '}' :: rest) = ([before ++ name], '}' :: rest) := by
  induction name generalizing before with
  | nil => rw [nil_append, nameList, if_neg (by decide), if_neg (by simp), append_nil]
  | cons char name ih =>
    obtain ⟨first, others⟩ := forall_mem_cons.mp chars
    rw [cons_append, nameList, if_pos first, ih others, append_assoc]
    rfl

theorem parseVarNames_of_isName {name : Text} (valid : IsName name) (rest : Text) :
    parseVarNames (skipSpace (name ++ '}' :: rest)) = .ok ([name], '}' :: rest) := by
  obtain ⟨char, others, rfl⟩ := exists_cons_of_ne_nil valid.nonempty
  have first := valid.chars char mem_cons_self
  have visible : isSpace char = false := by
    by_contra space
    rw [Bool.not_eq_false] at space
    rw [isNameChar, not_isWord_of_isSpace space, Bool.false_or, beq_iff_eq] at first
    subst first
    exact absurd space (by decide)
  have starts : startsName (char :: (others ++ '}' :: rest)) = true := first
  rw [cons_append, skipSpace_cons _ visible, parseVarNames, if_pos starts,
    ← cons_append, nameList_append valid.chars, nil_append]

theorem parseText_dollar (absent : '$' ∉ before)
    (parsed : parseVar depth rest = .ok node) (yields : Yields vars funcs address node out) :
    ∃ next, parseText (depth + 1) (before ++ '$' :: rest) = .ok next ∧
      YieldsAll vars funcs address next.toList (before ++ out) := by
  obtain ⟨taken, dropped⟩ := @span_append ('$' :: rest) (· ≠ '$') before
    (fun char member => decide_eq_true fun same => absent (same ▸ member)) (by simp)
  rw [parseText, dropped]
  · dsimp only
    rw [parsed, taken]
    cases before with
    | nil => exact ⟨some node, rfl, yieldsAll_singleton_iff.mpr yields⟩
    | cons char before =>
      refine ⟨_, rfl, yieldsAll_singleton_iff.mpr (yields_list_iff.mpr ?_)⟩
      exact yieldsAll_cons_iff.mpr
        ⟨_, _, yields_str_iff.mpr rfl, yieldsAll_singleton_iff.mpr yields, rfl⟩
  · simp

theorem parseText_template (template : Template vars address text out)
    (deep : text.length < depth) :
    ∃ next, parseText depth text = .ok next ∧ YieldsAll vars funcs address next.toList out := by
  obtain ⟨depth, rfl⟩ : ∃ less, depth = less + 1 := ⟨depth - 1, by omega⟩
  induction template generalizing depth with
  | run before absent =>
    cases before with
    | nil => exact ⟨none, by rw [parseText], yieldsAll_nil_iff.mpr rfl⟩
    | cons char before =>
      have dropped : (char :: before).dropWhile (· ≠ '$') = [] :=
        dropWhile_eq_nil_iff.mpr fun char member =>
          decide_eq_true fun same => absent (same ▸ member)
      refine ⟨some (.str (char :: before)), ?_, ?_⟩
      · rw [parseText, dropped]
        exact cons_ne_nil char before
      · exact yieldsAll_singleton_iff.mpr (yields_str_iff.mpr rfl)
  | dollar before absent template ih =>
    simp only [length_append, length_cons] at deep
    obtain ⟨depth, rfl⟩ : ∃ less, depth = less + 1 + 1 := ⟨depth - 2, by omega⟩
    obtain ⟨next, parsed, yields⟩ := ih depth (by omega)
    refine parseText_dollar absent ?_ ((yields_optimize_iff _).mpr (yields_list_iff.mpr
      (yieldsAll_cons_iff.mpr ⟨['$'], _, yields_str_iff.mpr rfl, yieldsAll_optimize yields, rfl⟩)))
    rw [parseVar, parsed]
    rfl
  | reference before absent valid template ih =>
    simp only [length_append, length_cons] at deep
    obtain ⟨depth, rfl⟩ : ∃ less, depth = less + 1 + 1 := ⟨depth - 2, by omega⟩
    obtain ⟨next, parsed, yields⟩ := ih depth (by omega)
    refine parseText_dollar absent ?_ (yields_list_iff.mpr (yieldsAll_cons_iff.mpr
      ⟨_, _, yields_var _, yields, rfl⟩))
    rw [parseVar, parseVarNames_of_isName valid]
    change (parseText (depth + 1) _ >>= fun next => _) = _
    rw [parsed]
    rfl

/-- Every template of texts and references is parsed, and gives the texts and the values. -/
theorem template_reproduces (vars : Vars) (funcs : Text → Option Func) (address : Vars → Text)
    (segments : List Segment) :
    ∃ parsed, parseTemplate (segments.flatMap Segment.template) = .ok parsed ∧
      process vars funcs address parsed = .ok (segments.flatMap (Segment.output vars address)) := by
  obtain ⟨next, parsed, yields⟩ := @parseText_template vars funcs address _ _
    (2 * (segments.flatMap Segment.template).length + 2) (template_segments segments) (by omega)
  refine ⟨next.map optimize, by rw [parseTemplate, parsed]; rfl, ?_⟩
  have optimized := yieldsAll_optimize yields
  cases next with
  | none => exact congrArg Except.ok (yieldsAll_nil_iff.mp optimized).symm
  | some node =>
    obtain ⟨values, processed, joined⟩ := yieldsAll_singleton_iff.mp optimized
    rw [Option.map_some, process, processed, ← joined]
    rfl

end PacketFence.MiniTemplate
