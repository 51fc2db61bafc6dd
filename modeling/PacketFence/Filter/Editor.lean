import PacketFence.Filter.Parser

/-!
# Conditions as objects of the editor

The editor works on objects: groups with an operator and values, and leaves
with an operator, a field and a value. They are made from a syntax tree and
written back as text. Writing a group of several values puts it in parentheses
and `objectToStr` removes the outer ones again; a group of one value is written
by `objectToStr` too, wherever it stands.
-/

namespace PacketFence.Filter

open Foundations Lexing

namespace CompareOp

def name : CompareOp → String
  | .equals => "equals"
  | .notEquals => "not_equals"
  | .regex => "regex"
  | .notRegex => "not_regex"
  | .greater => "greater"
  | .greaterEquals => "greater_equals"
  | .lower => "lower"
  | .lowerEquals => "lower_equals"

def inverse : CompareOp → CompareOp
  | .equals => .notEquals
  | .notEquals => .equals
  | .regex => .notRegex
  | .notRegex => .regex
  | .greater => .lowerEquals
  | .greaterEquals => .lower
  | .lower => .greaterEquals
  | .lowerEquals => .greater

def symbol : CompareOp → String
  | .equals => "=="
  | .notEquals => "!="
  | .regex => "=~"
  | .notRegex => "!~"
  | .greater => ">"
  | .greaterEquals => ">="
  | .lower => "<"
  | .lowerEquals => "<="

def ofName? : String → Option CompareOp
  | "equals" => some .equals
  | "not_equals" => some .notEquals
  | "regex" => some .regex
  | "not_regex" => some .notRegex
  | "greater" => some .greater
  | "greater_equals" => some .greaterEquals
  | "lower" => some .lower
  | "lower_equals" => some .lowerEquals
  | _ => none

end CompareOp

/-- `%OBJ_OPS` and `%OBJ_NOT_OPS` -/
inductive GroupOp where
  | and
  | or
  | notAnd
  | notOr
  deriving DecidableEq

namespace GroupOp

def name : GroupOp → String
  | .and => "and"
  | .or => "or"
  | .notAnd => "not_and"
  | .notOr => "not_or"

def ofName? : String → Option GroupOp
  | "and" => some .and
  | "or" => some .or
  | "not_and" => some .notAnd
  | "not_or" => some .notOr
  | _ => none

def symbol : GroupOp → String
  | .and => "&&"
  | .or => "||"
  | .notAnd => "&&"
  | .notOr => "||"

def negated : GroupOp → Bool
  | .and => false
  | .or => false
  | .notAnd => true
  | .notOr => true

end GroupOp

/-- An object with `values` is a group; a leaf has none, whatever its operator. -/
inductive Object where
  | group (op : GroupOp) (values : List Object)
  | leaf (op : String) (field value : Param)

def TRUE_CONDITION : String := "true"

mutual

/-- `none` if it dies: an identifier is not an array reference. -/
def astToObject : Ast → Option Object
  | .id name => some (.leaf "var" (.text name) .undef)
  | .or operands => (astsToObjects operands).map (.group .or)
  | .and operands => (astsToObjects operands).map (.group .and)
  | .cmp op field value => some (.leaf op.name field (.text value))
  | .func name params =>
    if name = TRUE_CONDITION then
      some (.leaf name .undef .undef)
    else
      some (.leaf name (params[0]?.getD .undef) (params[1]?.getD .undef))
  | .not (.or operands) => (astsToObjects operands).map (.group .notOr)
  | .not (.and operands) => (astsToObjects operands).map (.group .notAnd)
  | .not (.cmp op field value) => some (.leaf op.inverse.name field (.text value))
  | .not (.id _) => none
  | .not (.func name params) =>
    (astToObject (.func name params)).map fun object => .group .notAnd [object]
  | .not (.not operand) =>
    (astToObject (.not operand)).map fun object => .group .notAnd [object]

def astsToObjects : List Ast → Option (List Object)
  | [] => some []
  | ast :: rest => do
      let object ← astToObject ast
      let objects ← astsToObjects rest
      some (object :: objects)

end

/-- How a scalar is interpolated; a reference is shown with its address. -/
def Param.toText (address : Param → String) : Param → String
  | .undef => ""
  | .text value => value
  | .var name => "ARRAY(" ++ address (.var name) ++ ")"
  | .func name params => "ARRAY(" ++ address (.func name params) ++ ")"

def joinWith (separator : String) : List String → String
  | [] => ""
  | [text] => text
  | text :: rest => text ++ separator ++ joinWith separator rest

def stripClosing (text : Text) : Text :=
  match text.reverse with
  | ')' :: before => before.reverse
  | '\n' :: ')' :: before => before.reverse ++ ['\n']
  | _ => text

/-- Remove the outer parentheses; the closing one only if there is an opening
one. -/
def stripParentheses (text : String) : String :=
  match text.toList with
  | '(' :: inside => String.ofList (stripClosing inside)
  | _ => text

def quote (value : String) : String :=
  "\"" ++ String.ofList (escape '"' value.toList) ++ "\""

section

variable (address : Param → String)

/-- `none` if it dies: an operator of groups without values. -/
def leafToStr (op : String) (field value : Param) : Option String :=
  if op = TRUE_CONDITION then
    some "true()"
  else if (GroupOp.ofName? op).isSome then
    none
  else
    match CompareOp.ofName? op with
    | some compare =>
      some (field.toText address ++ " " ++ compare.symbol ++ " " ++
        quote (value.toText address))
    | none =>
      some (op ++ "(" ++ field.toText address ++ ", " ++ quote (value.toText address) ++ ")")

def groupToStr (op : GroupOp) (texts : List String) : String :=
  (if op.negated then "!(" else "(") ++ joinWith (" " ++ op.symbol ++ " ") texts ++ ")"

mutual

/-- `_object_to_str` -/
def rawObjectToStr : Object → Option String
  | .leaf op field value => leafToStr address op field value
  | .group .and [object] => (rawObjectToStr object).map stripParentheses
  | .group .or [object] => (rawObjectToStr object).map stripParentheses
  | .group op values => (rawObjectsToStrs values).map (groupToStr op)

def rawObjectsToStrs : List Object → Option (List String)
  | [] => some []
  | object :: rest => do
      let text ← rawObjectToStr object
      let texts ← rawObjectsToStrs rest
      some (text :: texts)

end

def objectToStr (object : Object) : Option String :=
  (rawObjectToStr address object).map stripParentheses

structure Item where
  topOp : Option GroupOp
  condition : String
  deriving DecidableEq

/-- `topOp` is what the item had before. -/
def flattenCondition (topOp : Option GroupOp) (condition : Object) : Option Item :=
  let topOp :=
    match condition with
    | .group op values => if values.length = 1 then some op else topOp
    | .leaf _ _ _ => none
  (objectToStr address condition).map fun text => ⟨topOp, text⟩

end

/-- A text that is not accepted leaves no tree and is expanded like an
identifier that is not defined. -/
def expandText (condition : String) : Option Object :=
  match parseConditionString condition with
  | .ok ast => astToObject ast
  | .error _ => some (.leaf "var" .undef .undef)

def expandCondition (item : Item) : Option Object :=
  (expandText item.condition).map fun condition =>
    match item.topOp with
    | some op =>
      if op.negated then
        match condition with
        | .leaf "not" field value => .leaf op.name field value
        | _ => condition
      else
        .group op [condition]
    | none =>
      match condition with
      | .group _ _ => condition
      | .leaf "not" _ _ => .leaf "not_and" .undef .undef
      | .leaf op field value =>
        if (GroupOp.ofName? op).isSome then condition
        else .group .and [.leaf op field value]

end PacketFence.Filter
