import PacketFence.Foundations.Failure
import PacketFence.Foundations.Lexing

/-!
# The condition parser

A condition is read from the left with `\G`-anchored patterns; the text that is
left plays the part of `pos`. The parser is recursive descent and gives up at
the first error, except that a comparison falls back to a fact when no operator
follows. A missing parameter is not an error: it is read as undefined.

Every call is made with fuel; a parser that runs out of it is `exhausted`, which
is not an answer of the source.
-/

namespace PacketFence.Filter

open Foundations Lexing

/-- A parameter of a function, or whatever stands in its place in an object:
nothing, a scalar, or a reference to a node of the tree. -/
inductive Param where
  | undef
  | text (value : String)
  | var (name : String)
  | func (name : String) (params : List Param)

inductive CompareOp where
  | equals
  | notEquals
  | regex
  | notRegex
  | greater
  | greaterEquals
  | lower
  | lowerEquals

/-- The syntax tree; the left side of a comparison is an identifier or a call. -/
inductive Ast where
  | id (name : String)
  | or (operands : List Ast)
  | and (operands : List Ast)
  | not (operand : Ast)
  | cmp (op : CompareOp) (field : Param) (value : String)
  | func (name : String) (params : List Param)

structure ParseError where
  offset : Nat
  message : String
  condition : String
  highlightedError : String

def MARKER : String := "^"

def HIGH_LIGHT : Char := '~'

def highlightError (message condition : String) (position : Nat) : String :=
  let shown := "parse error: " ++ message ++ "\n" ++ condition ++ "\n"
  if position = 0 then
    shown ++ MARKER ++ " " ++ String.ofList (List.replicate (condition.length - 2) HIGH_LIGHT) ++
      "\n"
  else
    let before := String.ofList (List.replicate (position - 1) HIGH_LIGHT) ++ " "
    let after := " " ++
      String.ofList (List.replicate (condition.length - before.length - 2) HIGH_LIGHT)
    shown ++ before ++ MARKER ++ after ++ "\n"

def formatParseError (message condition : String) (position : Nat) : ParseError where
  offset := position
  message := message
  condition := condition
  highlightedError := highlightError message condition position

inductive Failure where
  | died (error : ParseError)
  | exhausted

variable (text : Text)

/-- A sign that is written once or twice. -/
def sign? (sign : Char) : Option Text :=
  match skipSpace text with
  | first :: rest =>
    if first = sign then some (if rest.head? = some sign then rest.tail else rest) else none
  | [] => none

def orOperator? : Option Text := sign? text '|'

def andOperator? : Option Text := sign? text '&'

def compareOp? : Option (CompareOp × Text) :=
  match skipSpace text with
  | '=' :: '=' :: rest => some (.equals, rest)
  | '!' :: '=' :: rest => some (.notEquals, rest)
  | '=' :: '~' :: rest => some (.regex, rest)
  | '!' :: '~' :: rest => some (.notRegex, rest)
  | '<' :: '=' :: rest => some (.lowerEquals, rest)
  | '<' :: rest => some (.lower, rest)
  | '>' :: '=' :: rest => some (.greaterEquals, rest)
  | '>' :: rest => some (.greater, rest)
  | _ => none

def parseId : Option (String × Text) :=
  (identifier? text).map fun read => (String.ofList read.1, read.2)

def parseVarId : Option (String × Text) :=
  match skipSpace text with
  | '$' :: '{' :: inside =>
    if startsWord inside then
      match (identifierRest inside).2 with
      | '}' :: rest => some (String.ofList (identifierRest inside).1, rest)
      | _ => none
    else
      none
  | _ => none

def parseString : Option (String × Text) :=
  ((quoted? '"' text).or (quoted? '\'' text)).map fun read => (String.ofList read.1, read.2)

def comma? : Option Text :=
  (symbol? ',' text).map skipSpace

section

variable (condition : String)

/-- `die` with the position that has been reached. -/
def fail {Value : Type} (message : String) (rest : Text) : Except Failure (Value × Text) :=
  .error (.died (formatParseError message condition (condition.length - rest.length)))

mutual

/-- `_parse_func`, behind the opening parenthesis -/
def parseFunc : Nat → String → Text → Except Failure (List Param × Text)
  | 0, _, _ => .error .exhausted
  | fuel + 1, name, text =>
    match symbol? ')' text with
    | some rest => .ok ([], rest)
    | none => do
        let (first, rest) ← parseParam fuel text
        let (others, rest) ← parseParams fuel rest
        match symbol? ')' rest with
        | some rest => .ok (first :: others, rest)
        | none => fail condition ("Function " ++ name ++ " is not closed ") rest

def parseParam : Nat → Text → Except Failure (Param × Text)
  | 0, _ => .error .exhausted
  | fuel + 1, text =>
    match parseId text with
    | some (name, rest) =>
      match symbol? '(' rest with
      | some inside => do
          let (params, rest) ← parseFunc fuel name inside
          .ok (.func name params, rest)
      | none => .ok (.text name, rest)
    | none =>
      match parseVarId text with
      | some (name, rest) => .ok (.var name, rest)
      | none =>
        match parseString text with
        | some (value, rest) => .ok (.text value, rest)
        | none => .ok (.undef, text)

def parseParams : Nat → Text → Except Failure (List Param × Text)
  | 0, _ => .error .exhausted
  | fuel + 1, text =>
    match comma? text with
    | some rest => do
        let (param, rest) ← parseParam fuel rest
        let (others, rest) ← parseParams fuel rest
        .ok (param :: others, rest)
    | none => .ok ([], text)

end

/-- The left side of a comparison, behind its identifier. -/
def parseField (fuel : Nat) (name : String) (text : Text) : Except Failure (Param × Text) :=
  match symbol? '(' text with
  | some inside => do
      let (params, rest) ← parseFunc condition fuel name inside
      .ok (.func name params, rest)
  | none => .ok (.text name, text)

/-- Collapse into a single element if there is only one. -/
def collapse (node : List Ast → Ast) (first : Ast) : List Ast → Ast
  | [] => first
  | others => node (first :: others)

mutual

def parseExpr : Nat → Text → Except Failure (Ast × Text)
  | 0, _ => .error .exhausted
  | fuel + 1, text => do
      let (first, rest) ← parseOr fuel text
      let (others, rest) ← parseOrs fuel rest
      .ok (collapse .or first others, rest)

def parseOrs : Nat → Text → Except Failure (List Ast × Text)
  | 0, _ => .error .exhausted
  | fuel + 1, text =>
    match orOperator? text with
    | some rest => do
        let (operand, rest) ← parseOr fuel rest
        let (others, rest) ← parseOrs fuel rest
        .ok (operand :: others, rest)
    | none => .ok ([], text)

def parseOr : Nat → Text → Except Failure (Ast × Text)
  | 0, _ => .error .exhausted
  | fuel + 1, text => do
      let (first, rest) ← parseCmp fuel text
      let (others, rest) ← parseAnds fuel rest
      .ok (collapse .and first others, rest)

def parseAnds : Nat → Text → Except Failure (List Ast × Text)
  | 0, _ => .error .exhausted
  | fuel + 1, text =>
    match andOperator? text with
    | some rest => do
        let (operand, rest) ← parseCmp fuel rest
        let (others, rest) ← parseAnds fuel rest
        .ok (operand :: others, rest)
    | none => .ok ([], text)

def parseCmp : Nat → Text → Except Failure (Ast × Text)
  | 0, _ => .error .exhausted
  | fuel + 1, text =>
    match parseId text with
    | none => parseFact fuel text
    | some (name, rest) => do
        let (field, rest) ← parseField condition fuel name rest
        match compareOp? rest with
        | none => parseFact fuel text
        | some (op, rest) =>
          match (parseId rest).or (parseString rest) with
          | some (value, rest) => .ok (.cmp op field value, rest)
          | none => fail condition "Invalid format" rest

def parseFact : Nat → Text → Except Failure (Ast × Text)
  | 0, _ => .error .exhausted
  | fuel + 1, text =>
    match symbol? '!' text with
    | some rest => do
        let (fact, rest) ← parseFact fuel rest
        .ok (.not fact, rest)
    | none =>
      match symbol? '(' text with
      | some inside => do
          let (expr, rest) ← parseExpr fuel inside
          match symbol? ')' rest with
          | some rest => .ok (expr, rest)
          | none =>
            fail condition "No closing ')' invalid character or end of line found"
              (skipSpace rest)
      | none =>
        match parseId text with
        | some (name, rest) =>
          match symbol? '(' rest with
          | some inside => do
              let (params, rest) ← parseFunc condition fuel name inside
              .ok (.func name params, rest)
          | none => .ok (.id name, rest)
        | none => fail condition "Invalid character(s)" (skipSpace text)

end

variable {condition} {fuel : Nat} (text : Text)

@[simp] theorem parseFact_skipSpace :
    parseFact condition fuel (skipSpace text) = parseFact condition fuel text := by
  cases fuel with
  | zero => rfl
  | succ fuel => simp [parseFact, symbol?, parseId, identifier?, skipSpace_skipSpace]

@[simp] theorem parseCmp_skipSpace :
    parseCmp condition fuel (skipSpace text) = parseCmp condition fuel text := by
  cases fuel with
  | zero => rfl
  | succ fuel =>
    simp [parseCmp, parseId, identifier?, skipSpace_skipSpace]

@[simp] theorem parseOr_skipSpace :
    parseOr condition fuel (skipSpace text) = parseOr condition fuel text := by
  cases fuel with
  | zero => rfl
  | succ fuel => rw [parseOr, parseOr, parseCmp_skipSpace]

@[simp] theorem parseExpr_skipSpace :
    parseExpr condition fuel (skipSpace text) = parseExpr condition fuel text := by
  cases fuel with
  | zero => rfl
  | succ fuel => rw [parseExpr, parseExpr, parseOr_skipSpace]

end

/-- Nine calls for every character are more than are ever made. -/
def parseFuel (condition : String) : Nat :=
  9 * (condition.length + 1)

def parseConditionString (condition : String) : Except Failure Ast := do
  let (expr, rest) ← parseExpr condition (parseFuel condition) (skipSpace condition.toList)
  match skipSpace rest with
  | [] => .ok expr
  | left => (fail condition "Invalid character(s)" left).map Prod.fst

end PacketFence.Filter
