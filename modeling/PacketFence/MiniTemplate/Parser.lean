import PacketFence.Foundations.Lexing

/-!
# Templates with variables and functions

The parser reads a text from its end backwards into nested lists: what follows a
reference is parsed first and put behind it. `optimize` joins strings that stand
side by side in a list. A number bounds the depth of the calls.

Variables and functions are noted by the parser too; that note is not modelled.
-/

namespace PacketFence.MiniTemplate

open Foundations Lexing

/-- The arrays that begin with `S`, `V`, `K` or `F`, and arrays of arrays. -/
inductive Node
  | str (text : Text)
  | var (name : Text)
  | keys (names : List Text)
  | func (name : Text) (args : List Node)
  | list (nodes : List Node)

inductive ParseError
  | failed (message : String) (rest : Text)
  | tooDeep

/-! ### The parser -/

/-- The loop of `_optimize`: the last node so far, and those that follow. -/
def mergeStrings : Node → List Node → List Node
  | last, [] => [last]
  | .str first, .str second :: rest => mergeStrings (.str (first ++ second)) rest
  | last, node :: rest => last :: mergeStrings node rest

def optimize : Node → Node
  | .list [node] => node
  | .list (.str text :: rest) =>
    match mergeStrings (.str text) rest with
    | [node] => node
    | nodes => .list nodes
  | node => node

/-- `[a-zA-Z-0-9_]` -/
def isNameChar (char : Char) : Bool :=
  isWord char || char == '-'

def startsName (text : Text) : Bool :=
  text.head?.any isNameChar

/-- Names with dots between them, from within the first one. -/
def nameList (name : Text) : Text → List Text × Text
  | [] => ([name], [])
  | char :: rest =>
    if isNameChar char then
      nameList (name ++ [char]) rest
    else if char = '.' ∧ startsName rest then
      let (names, rest) := nameList [] rest
      (name :: names, rest)
    else
      ([name], char :: rest)

def parseVarNames (text : Text) : Except ParseError (List Text × Text) :=
  if startsName text then .ok (nameList [] text)
  else .error (.failed "Invalid variable name" text)

def nameNode : List Text → Node
  | [name] => .var name
  | names => .keys names

def parseVarName (text : Text) : Except ParseError (Node × Text) :=
  (parseVarNames text).map fun read => (nameNode read.1, read.2)

/-- `"(([^"]|\\")*)"`: `[^"]` takes a backslash too, so that the literal ends at the next
quote. -/
def quotedLiteral (quote : Char) : Text → Option (Text × Text)
  | [] => none
  | first :: text =>
    if first = quote then
      match text.dropWhile (· ≠ quote) with
      | _ :: rest => some (text.takeWhile (· ≠ quote), rest)
      | [] => none
    else
      none

def digits (text : Text) : Option (Text × Text) :=
  if text.takeWhile Char.isDigit = [] then none
  else some (text.takeWhile Char.isDigit, text.dropWhile Char.isDigit)

def sign : Text → Text × Text
  | '-' :: rest => (['-'], rest)
  | '+' :: rest => (['+'], rest)
  | text => ([], text)

def exponent : Text → Text × Text
  | [] => ([], [])
  | char :: rest =>
    if char = 'e' ∨ char = 'E' then
      match digits (sign rest).2 with
      | some (power, behind) => (char :: ((sign rest).1 ++ power), behind)
      | none => ([], char :: rest)
    else
      ([], char :: rest)

/-- `[0-9]*\.?[0-9]+`: without digits behind it, the point is not taken. -/
def mantissa (text : Text) : Option (Text × Text) :=
  match text.dropWhile Char.isDigit with
  | '.' :: behind =>
    match digits behind with
    | some (fraction, rest) => some (text.takeWhile Char.isDigit ++ '.' :: fraction, rest)
    | none => digits text
  | _ => digits text

def number (text : Text) : Option (Text × Text) :=
  (mantissa (sign text).2).map fun read =>
    ((sign text).1 ++ read.1 ++ (exponent read.2).1, (exponent read.2).2)

def literal (text : Text) : Option (Text × Text) :=
  quotedLiteral '"' text <|> quotedLiteral '\'' text <|> digits text <|> number text

mutual

def parseText : Nat → Text → Except ParseError (Option Node)
  | _, [] => .ok none
  | 0, _ => .error .tooDeep
  | depth + 1, text =>
    match text.dropWhile (· ≠ '$') with
    | [] => .ok (some (.str text))
    | _ :: rest => do
      let node ← parseVar depth rest
      match text.takeWhile (· ≠ '$') with
      | [] => return some node
      | before => return some (.list [.str before, node])

def parseVar : Nat → Text → Except ParseError Node
  | 0, _ => .error .tooDeep
  | depth + 1, '$' :: rest => do
    let next ← parseText depth rest
    return optimize (.list (.str ['$'] :: (next.map optimize).toList))
  | depth + 1, '{' :: rest => do
    let (names, rest) ← parseVarNames (skipSpace rest)
    match symbol? '(' rest with
    | some rest => do
      let (args, rest) ← parseFunc depth (skipSpace rest)
      match symbol? '}' rest with
      | some rest => do
        let next ← parseText depth rest
        return optimize (.list (.func (['.'].intercalate names) args :: next.toList))
      | none => .error (.failed "no matching \x7d" rest)
    | none =>
      match symbol? '}' rest with
      | some rest => do
        let next ← parseText depth rest
        match names with
        | [name] => return .list (.var name :: next.toList)
        | names => return optimize (.list (.keys names :: next.toList))
      | none => .error (.failed "no matching \x7d" rest)
  | depth + 1, text => do
    let (node, rest) ← parseVarName text
    let next ← parseText depth rest
    return optimize (.list (node :: next.toList))

def parseFunc : Nat → Text → Except ParseError (List Node × Text)
  | 0, _ => .error .tooDeep
  | depth + 1, text =>
    match symbol? ')' text with
    | some rest => .ok ([], skipSpace rest)
    | none => do
      let (arg, rest) ← parseFuncArg depth text
      let (args, rest) ← parseFuncArgs depth rest
      return (arg :: args, rest)

def parseFuncArgs : Nat → Text → Except ParseError (List Node × Text)
  | 0, _ => .error .tooDeep
  | depth + 1, text =>
    match symbol? ')' text with
    | some rest => .ok ([], skipSpace rest)
    | none =>
      match symbol? ',' text with
      | some rest => do
        let (arg, rest) ← parseFuncArg depth (skipSpace rest)
        let (args, rest) ← parseFuncArgs depth rest
        return (arg :: args, rest)
      | none => .error (.failed "No comma found" text)

def parseFuncArg : Nat → Text → Except ParseError (Node × Text)
  | 0, _ => .error .tooDeep
  | _ + 1, [] => .error (.failed "Missing ')' or ','" [])
  | _ + 1, '$' :: rest => parseVarName rest
  | depth + 1, text =>
    match literal text with
    | some (value, rest) => .ok (.str value, rest)
    | none =>
      match parseVarNames text with
      | .ok (names, rest) =>
        match symbol? '(' rest with
        | some rest => do
          let (args, rest) ← parseFunc depth (skipSpace rest)
          return (.func (['.'].intercalate names) args, rest)
        | none => .error (.failed "Invalid function arg" rest)
      | .error _ => .error (.failed "Invalid function arg" text)

end

/-- Each call is made behind a character, or one of two without that. -/
def parseTemplate (text : Text) : Except ParseError (Option Node) :=
  (parseText (2 * text.length + 2) text).map (Option.map optimize)

/-! ### Processing -/

inductive Value
  | undef
  | text (text : Text)
  | hash (fields : List (Text × Value))

abbrev Vars := List (Text × Value)

abbrev Func := List Value → Except String (List Value)

section Process

variable (vars : Vars) (funcs : Text → Option Func)

def valueOf (vars : Vars) (name : Text) : Value :=
  (vars.lookup name).getD .undef

def valueAt : Vars → List Text → Value
  | _, [] => .undef
  | vars, [name] => valueOf vars name
  | vars, name :: names =>
    match valueOf vars name with
    | .hash fields => valueAt fields names
    | _ => .text []

mutual

def processSimple : Node → Except String (List Value)
  | .str text => .ok [.text text]
  | .var name => .ok [valueOf vars name]
  | .keys names => .ok [valueAt vars names]
  | .func name args => do
    match funcs name with
    | none => .error s!"func {String.ofList name} is not defined\n"
    | some func => func (← processArgs args)
  | .list _ => .ok [.text []]

def processArgs : List Node → Except String (List Value)
  | [] => .ok []
  | arg :: args => return (← processSimple arg) ++ (← processArgs args)

end

mutual

def processTmpl : Node → Except String (List Value)
  | .list nodes => processAll nodes
  | node => processSimple vars funcs node

def processAll : List Node → Except String (List Value)
  | [] => .ok []
  | node :: nodes => return (← processTmpl node) ++ (← processAll nodes)

end

/-- How a value is joined to others; that of a reference has its address. -/
def Value.string (address : Vars → Text) : Value → Text
  | .undef => []
  | .text value => value
  | .hash fields => address fields

/-- Nothing is what an empty template is parsed into. -/
def process (address : Vars → Text) : Option Node → Except String Text
  | none => .ok []
  | some node => return (← processTmpl vars funcs node).flatMap (Value.string address)

end Process

end PacketFence.MiniTemplate
