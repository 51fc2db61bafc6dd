import PacketFence.Filter.Grammar

/-!
# The parser answers

The fuel of the parser is enough for every text. A call either goes on behind
something it has read, so that the text in front of it is shorter, or goes down
from an expression towards a fact on the same text; the lengths come with the
soundness of what was read.
-/

namespace PacketFence.Filter

open Foundations Lexing

variable {condition : String} {fuel : Nat}

def Decided {Value : Type} (run : Except Failure Value) : Prop :=
  run ≠ .error .exhausted

theorem decided_ok {Value : Type} (value : Value) : Decided (.ok value) := nofun

theorem decided_fail {Value : Type} (message : String) (rest : Text) :
    Decided (fail condition message rest : Except Failure (Value × Text)) := nofun

theorem decided_bind {First Second : Type} {first : Except Failure First}
    {next : First → Except Failure Second} (decided : Decided first)
    (continues : ∀ value, first = .ok value → Decided (next value)) : Decided (first >>= next) := by
  cases first with
  | error error =>
    rintro ⟨⟩
    exact decided rfl
  | ok value => exact continues value rfl

/-- Nine calls for every character, and a few for the descent from an expression
to a fact, are enough. -/
structure Enough (condition : String) (fuel : Nat) : Prop where
  func : ∀ {text}, 9 * text.length + 2 ≤ fuel → ∀ name,
    Decided (parseFunc condition fuel name text)
  param : ∀ {text}, 9 * text.length + 1 ≤ fuel → Decided (parseParam condition fuel text)
  params : ∀ {text}, 9 * text.length + 1 ≤ fuel → Decided (parseParams condition fuel text)
  expr : ∀ {text}, 9 * text.length + 4 ≤ fuel → Decided (parseExpr condition fuel text)
  ors : ∀ {text}, 9 * text.length + 1 ≤ fuel → Decided (parseOrs condition fuel text)
  or : ∀ {text}, 9 * text.length + 3 ≤ fuel → Decided (parseOr condition fuel text)
  ands : ∀ {text}, 9 * text.length + 1 ≤ fuel → Decided (parseAnds condition fuel text)
  cmp : ∀ {text}, 9 * text.length + 2 ≤ fuel → Decided (parseCmp condition fuel text)
  fact : ∀ {text}, 9 * text.length + 1 ≤ fuel → Decided (parseFact condition fuel text)

variable (decided : Enough condition fuel) {text : Text}

include decided

theorem decided_call {name : String} {behind inside : Text} {Value : Type}
    {next : List Param × Text → Except Failure Value}
    (readName : parseId text = some (name, behind)) (opened : symbol? '(' behind = some inside)
    (enough : 9 * text.length ≤ fuel + 9) (continues : ∀ read, Decided (next read)) :
    Decided (parseFunc condition fuel name inside >>= next) := by
  have before := (isId_of_parseId readName).length_lt
  have after := (isSymbol_of_symbol? (by decide) opened).length_lt
  exact decided_bind (decided.func (by omega) name) fun read _ => continues read

theorem decided_parseFunc (enough : 9 * text.length + 2 ≤ fuel + 1) (name : String) :
    Decided (parseFunc condition (fuel + 1) name text) := by
  rw [parseFunc]
  split
  · exact decided_ok _
  · refine decided_bind (decided.param (by omega)) ?_
    rintro ⟨param, behind⟩ first
    obtain ⟨-, length⟩ := (soundParams true condition fuel).param first rfl
    refine decided_bind (decided.params (by omega)) ?_
    rintro ⟨params, closing⟩ _
    dsimp only
    split
    · exact decided_ok _
    · exact decided_fail _ _

theorem decided_parseParam (enough : 9 * text.length + 1 ≤ fuel + 1) :
    Decided (parseParam condition (fuel + 1) text) := by
  rw [parseParam]
  split
  next name behind readName =>
    split
    next inside opened =>
      exact decided_call decided readName opened (by omega) fun _ => decided_ok _
    · exact decided_ok _
  · split
    · exact decided_ok _
    · split <;> exact decided_ok _

theorem decided_parseParams (enough : 9 * text.length + 1 ≤ fuel + 1) :
    Decided (parseParams condition (fuel + 1) text) := by
  rw [parseParams]
  split
  next behind comma =>
    obtain ⟨next, separated, rfl⟩ := Option.map_eq_some_iff.mp comma
    have before := (isSymbol_of_symbol? (by decide) separated).length_lt
    have skipped := (spaced_skipSpace next).length_le
    refine decided_bind (decided.param (by omega)) ?_
    rintro ⟨param, behind⟩ first
    obtain ⟨-, length⟩ := (soundParams true condition fuel).param first rfl
    exact decided_bind (decided.params (by omega)) fun _ _ => decided_ok _
  · exact decided_ok _

theorem decided_parseExpr (enough : 9 * text.length + 4 ≤ fuel + 1) :
    Decided (parseExpr condition (fuel + 1) text) := by
  refine decided_bind (decided.or (by omega)) ?_
  rintro ⟨ast, behind⟩ first
  obtain ⟨-, length⟩ := (soundExpr true condition fuel).or first rfl
  exact decided_bind (decided.ors (by omega)) fun _ _ => decided_ok _

theorem decided_parseOrs (enough : 9 * text.length + 1 ≤ fuel + 1) :
    Decided (parseOrs condition (fuel + 1) text) := by
  rw [parseOrs]
  split
  next behind sign =>
    have before := (isSign_of_sign? sign).length_lt
    refine decided_bind (decided.or (by omega)) ?_
    rintro ⟨ast, behind⟩ first
    obtain ⟨-, length⟩ := (soundExpr true condition fuel).or first rfl
    exact decided_bind (decided.ors (by omega)) fun _ _ => decided_ok _
  · exact decided_ok _

theorem decided_parseOr (enough : 9 * text.length + 3 ≤ fuel + 1) :
    Decided (parseOr condition (fuel + 1) text) := by
  refine decided_bind (decided.cmp (by omega)) ?_
  rintro ⟨ast, behind⟩ first
  obtain ⟨-, length⟩ := (soundExpr true condition fuel).cmp first rfl
  exact decided_bind (decided.ands (by omega)) fun _ _ => decided_ok _

theorem decided_parseAnds (enough : 9 * text.length + 1 ≤ fuel + 1) :
    Decided (parseAnds condition (fuel + 1) text) := by
  rw [parseAnds]
  split
  next behind sign =>
    have before := (isSign_of_sign? sign).length_lt
    refine decided_bind (decided.cmp (by omega)) ?_
    rintro ⟨ast, behind⟩ first
    obtain ⟨-, length⟩ := (soundExpr true condition fuel).cmp first rfl
    exact decided_bind (decided.ands (by omega)) fun _ _ => decided_ok _
  · exact decided_ok _

theorem decided_parseCmp (enough : 9 * text.length + 2 ≤ fuel + 1) :
    Decided (parseCmp condition (fuel + 1) text) := by
  have fact : Decided (parseFact condition fuel text) := decided.fact (by omega)
  rw [parseCmp]
  split
  · exact fact
  next name behind readName =>
    have field : Decided (parseField condition fuel name behind) := by
      rw [parseField]
      split
      next inside opened =>
        exact decided_call decided readName opened (by omega) fun _ => decided_ok _
      · exact decided_ok _
    refine decided_bind field ?_
    rintro ⟨field, behind⟩ _
    dsimp only
    split
    · exact fact
    · split
      · exact decided_ok _
      · exact decided_fail _ _

theorem decided_parseFact (enough : 9 * text.length + 1 ≤ fuel + 1) :
    Decided (parseFact condition (fuel + 1) text) := by
  rw [parseFact]
  split
  next behind sign =>
    have before := (isSymbol_of_symbol? (by decide) sign).length_lt
    exact decided_bind (decided.fact (by omega)) fun _ _ => decided_ok _
  · split
    next inside opened =>
      have before := (isSymbol_of_symbol? (by decide) opened).length_lt
      refine decided_bind (decided.expr (by omega)) ?_
      rintro ⟨ast, closing⟩ _
      dsimp only
      split
      · exact decided_ok _
      · exact decided_fail _ _
    · split
      next name behind readName =>
        split
        next inside opened =>
          exact decided_call decided readName opened (by omega) fun _ => decided_ok _
        · exact decided_ok _
      · exact decided_fail _ _

omit decided

theorem enough_of_fuel (condition : String) (fuel : Nat) : Enough condition fuel := by
  induction fuel with
  | zero => constructor <;> intros <;> omega
  | succ fuel ih =>
    exact ⟨decided_parseFunc ih, decided_parseParam ih,
      decided_parseParams ih, decided_parseExpr ih, decided_parseOrs ih, decided_parseOr ih,
      decided_parseAnds ih, decided_parseCmp ih, decided_parseFact ih⟩

theorem decided_parseConditionString (condition : String) :
    Decided (parseConditionString condition) := by
  have skipped := (spaced_skipSpace condition.toList).length_le
  rw [String.length_toList] at skipped
  refine decided_bind ((enough_of_fuel condition _).expr ?_) ?_
  · rw [parseFuel]
    omega
  · rintro ⟨expr, rest⟩ _
    dsimp only
    split
    · exact decided_ok _
    · exact nofun

end PacketFence.Filter
