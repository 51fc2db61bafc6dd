import PacketFence.Filter.Grammar

/-!
# Accepted conditions are well formed

Whatever the parser accepts, its tree has at least two operands under every
`and` and `or`, and identifiers where names stand. Without gaps no parameter of
it is missing.
-/

namespace PacketFence.Filter

open Foundations Lexing

def Param.isField : Param → Bool
  | .text name => isIdentifier name.toList
  | .func name _ => isIdentifier name.toList
  | _ => false

mutual

def Ast.proper : Ast → Bool
  | .id name => isIdentifier name.toList
  | .or operands => decide (2 ≤ operands.length) && areProper operands
  | .and operands => decide (2 ≤ operands.length) && areProper operands
  | .not operand => operand.proper
  | .cmp _ field _ => field.isField
  | .func name _ => isIdentifier name.toList

def areProper : List Ast → Bool
  | [] => true
  | ast :: rest => ast.proper && areProper rest

end

variable {gaps : Bool}

mutual

theorem full_of_isParam {text rest : Text} {param : Param} :
    IsParam gaps text param rest → (gaps || param.full) = true
  | .var _ | .string _ | .id _ => by simp [Param.full]
  | .func _ _ arguments => by
      rw [Param.full]
      exact areFull_of_isArguments arguments
  | .gap allowed _ => by rw [allowed, Bool.true_or]

theorem areFull_of_isParams {text rest : Text} {params : List Param} :
    IsParams gaps text params rest → (gaps || areFull params) = true
  | .last read => by simp [areFull, full_of_isParam read]
  | .more read _ others => by
      simp [areFull, Bool.or_and_distrib_left, full_of_isParam read, areFull_of_isParams others]

theorem areFull_of_isArguments {text rest : Text} {params : List Param} :
    IsArguments gaps text params rest → (gaps || areFull params) = true
  | .none _ => by rw [areFull, Bool.or_true]
  | .some read _ _ => areFull_of_isParams read

end

theorem formed_of_isFunc {text rest : Text} {name : String} {params : List Param}
    (read : IsFunc gaps text name params rest) :
    isIdentifier name.toList = true ∧ (gaps || areFull params) = true := by
  obtain ⟨read, _, arguments⟩ := read
  exact ⟨read.1, areFull_of_isArguments arguments⟩

theorem formed_of_isVal {text rest : Text} {field : Param} (read : IsVal gaps text field rest) :
    field.isField = true ∧ (gaps || field.full) = true := by
  cases read with
  | id read => exact ⟨read.1, by rw [Param.full, Bool.or_true]⟩
  | func read =>
    exact formed_of_isFunc read

mutual

theorem formed_of_isExpr {text rest : Text} {ast : Ast} :
    IsExpr gaps text ast rest → ast.proper = true ∧ (gaps || ast.full) = true
  | .operand read => formed_of_isOr read
  | .or read joined => by
      simp [Ast.proper, Ast.full, areProper, areAllFull, Bool.or_and_distrib_left,
        formed_of_isOr read, formed_of_isOrs joined]

theorem formed_of_isOrs {text rest : Text} {asts : List Ast} :
    IsOrs gaps text asts rest →
      1 ≤ asts.length ∧ areProper asts = true ∧ (gaps || areAllFull asts) = true
  | .last _ read => by simp [areProper, areAllFull, formed_of_isOr read]
  | .more _ read joined => by
      simp [areProper, areAllFull, Bool.or_and_distrib_left, formed_of_isOr read,
        formed_of_isOrs joined]

theorem formed_of_isOr {text rest : Text} {ast : Ast} :
    IsOr gaps text ast rest → ast.proper = true ∧ (gaps || ast.full) = true
  | .operand read => formed_of_isCmp read
  | .and read joined => by
      simp [Ast.proper, Ast.full, areProper, areAllFull, Bool.or_and_distrib_left,
        formed_of_isCmp read, formed_of_isAnds joined]

theorem formed_of_isAnds {text rest : Text} {asts : List Ast} :
    IsAnds gaps text asts rest →
      1 ≤ asts.length ∧ areProper asts = true ∧ (gaps || areAllFull asts) = true
  | .last _ read => by simp [areProper, areAllFull, formed_of_isCmp read]
  | .more _ read joined => by
      simp [areProper, areAllFull, Bool.or_and_distrib_left, formed_of_isCmp read,
        formed_of_isAnds joined]

theorem formed_of_isCmp {text rest : Text} {ast : Ast} :
    IsCmp gaps text ast rest → ast.proper = true ∧ (gaps || ast.full) = true
  | .compare left _ _ => by
      rw [Ast.proper, Ast.full]
      exact formed_of_isVal left
  | .fact read => formed_of_isFact read

theorem formed_of_isFact {text rest : Text} {ast : Ast} :
    IsFact gaps text ast rest → ast.proper = true ∧ (gaps || ast.full) = true
  | .not _ read => by
      rw [Ast.proper, Ast.full]
      exact formed_of_isFact read
  | .group _ read _ => formed_of_isExpr read
  | .id read => by
      rw [Ast.proper, Ast.full, Bool.or_true]
      exact ⟨read.1, rfl⟩
  | .func read => by
      rw [Ast.proper, Ast.full]
      exact formed_of_isFunc read

end

theorem proper_of_parse {condition : String} {ast : Ast}
    (parsed : parseConditionString condition = .ok ast) : ast.proper = true := by
  obtain ⟨_, isExpr, -⟩ : Derives true condition ast := derives_of_parse parsed rfl
  exact (formed_of_isExpr isExpr).1

end PacketFence.Filter
