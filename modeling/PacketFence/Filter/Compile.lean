import PacketFence.Filter.Editor
import Mathlib.Data.List.Infix

/-!
# Compiled conditions

`buildCondition` turns a syntax tree into condition objects, or dies. A
condition is matched against a request and may die there too, so matching has
an optional result; `all` and `any` stop at the first operand that decides.
What is not the code's own (regular expressions, numbers, dates, Fingerbank,
time periods) comes from the `Runtime`.
-/

namespace PacketFence.Filter

open Foundations Lexing

inductive Value where
  | undef
  | text (value : String)
  | array (items : List Value)
  | hash (entries : List (String × Value))

structure Runtime where
  /-- the address shown for a reference to a node of a syntax tree -/
  address : Param → String
  /-- how a reference in a request is shown -/
  reference : Value → String
  /-- whether a pattern matches a text, if it is one; the empty pattern stands
  for the last one that matched -/
  regexMatch : String → String → Option Bool
  /-- numeric comparison, undecided if one side is not a number -/
  compareNumbers : String → String → Option Ordering
  /-- a character without the difference of upper and lower case -/
  foldChar : Char → Text := fun char => [char.toLower]
  strptime : String → Option Int
  localtime : String
  deviceIsA : Value → String → Bool
  inPeriod : String → Bool

def Runtime.foldCase (runtime : Runtime) (text : String) : Text :=
  text.toList.flatMap runtime.foldChar

namespace Value

def get? (key : String) : Value → Option Value
  | .hash entries => entries.lookup key
  | _ => none

def isHash : Value → Bool
  | .hash _ => true
  | _ => false

def isDefined : Value → Bool
  | .undef => false
  | _ => true

def toText (runtime : Runtime) : Value → String
  | .undef => ""
  | .text value => value
  | .array items => runtime.reference (.array items)
  | .hash entries => runtime.reference (.hash entries)

def getDeep (runtime : Runtime) (value : Value) : List String → String
  | [] => ""
  | [key] => ((value.get? key).getD .undef).toText runtime
  | key :: rest =>
    match value.get? key with
    | some inner => if inner.isHash then getDeep runtime inner rest else ""
    | none => ""

end Value

/-- `split /\./`, which leaves out empty fields at the end. -/
def splitKeys (key : String) : List String :=
  (((key.toList.splitOn '.').reverse.dropWhile List.isEmpty).reverse).map String.ofList

/-- `s/\$([a-zA-Z_0-9]+)/…/ge`; the name behind a `$` is collected first. -/
def expandWords (lookup : String → String) : Option Text → Text → Text
  | none, [] => []
  | none, char :: rest =>
    if char = '$' then expandWords lookup (some []) rest
    else char :: expandWords lookup none rest
  | some name, [] => if name = [] then ['$'] else (lookup (String.ofList name)).toList
  | some name, char :: rest =>
    if isWord char then
      expandWords lookup (some (name ++ [char])) rest
    else
      (if name = [] then ['$'] else (lookup (String.ofList name)).toList) ++
        if char = '$' then expandWords lookup (some []) rest
        else char :: expandWords lookup none rest

def bracedPath? : Text → Option (Text × Text)
  | '$' :: '{' :: inside =>
    let path := inside.takeWhile (· != '}')
    let valid := (path.splitOn '.').all fun name =>
      !name.isEmpty && name.all fun char => isWord char || char == '-'
    match inside.dropWhile (· != '}') with
    | '}' :: rest => if valid then some (path, rest) else none
    | _ => none
  | _ => none

/-- `s/\$\{…\}/…/ge`, with as many steps as the text has characters. -/
def expandPaths (lookup : List String → String) : Nat → Text → Text
  | 0, text => text
  | _ + 1, [] => []
  | steps + 1, char :: rest =>
    match bracedPath? (char :: rest) with
    | some (path, behind) =>
      (lookup (splitKeys (String.ofList path))).toList ++ expandPaths lookup steps behind
    | none => char :: expandPaths lookup steps rest

def evalParam (runtime : Runtime) (answer : String) (args : Value) : String :=
  let words := expandWords (fun name => ((args.get? name).getD .undef).toText runtime) none
    answer.toList
  String.ofList (expandPaths (args.getDeep runtime) words.length words)

inductive Test where
  | compare (op : CompareOp) (value : String)
  | includes (value : String)
  | contains (value : String)
  | notContains (value : String)
  | isDefined
  | notDefined
  | dateBefore (value : Option String)
  | dateAfter (value : Option String)
  | deviceIsA (value : String)
  | timePeriod (value : String)
  | startsWith (value : String)
  | endsWith (value : String)

inductive Condition where
  | all (conditions : List Condition)
  | any (conditions : List Condition)
  | not (condition : Condition)
  | key (key : String) (condition : Condition)
  | test (test : Test)
  | true

def CompareOp.match (runtime : Runtime) (op : CompareOp) (argument value : String) :
    Option Bool :=
  match op with
  | .equals => some (argument == value)
  | .notEquals => some (argument != value)
  | .regex => runtime.regexMatch value argument
  | .notRegex => (runtime.regexMatch value argument).map (!·)
  | .greater => some (runtime.compareNumbers argument value == some .gt)
  | .greaterEquals =>
    some ((runtime.compareNumbers argument value).any fun order => order != .lt)
  | .lower => some (runtime.compareNumbers argument value == some .lt)
  | .lowerEquals =>
    some ((runtime.compareNumbers argument value).any fun order => order != .gt)

def Value.elements : Value → List Value
  | .array items => items
  | value => [value]

def Test.match (runtime : Runtime) (test : Test) (argument args : Value) : Option Bool :=
  let shown := argument.toText runtime
  let eval := fun value => evalParam runtime value args
  match test with
  | .compare op value =>
    if argument.isDefined then op.match runtime shown (eval value) else some false
  | .includes value =>
    some (argument.isDefined &&
      argument.elements.any fun item => eval value == item.toText runtime)
  | .contains value =>
    some (argument.isDefined &&
      decide (runtime.foldCase (eval value) <:+: runtime.foldCase shown))
  | .notContains value =>
    if !argument.isDefined then some false
    else if eval value = "" then (runtime.regexMatch "" shown).map (!·)
    else some !decide ((eval value).toList <:+: shown.toList)
  | .isDefined => some argument.isDefined
  | .notDefined => some !argument.isDefined
  | .dateBefore value => do
      let date ← runtime.strptime shown
      let control ← runtime.strptime (value.getD runtime.localtime)
      some (date < control)
  | .dateAfter value => do
      let date ← runtime.strptime shown
      let control ← runtime.strptime (value.getD runtime.localtime)
      some (control < date)
  | .deviceIsA value => some (runtime.deviceIsA argument (eval value))
  | .timePeriod value => some (runtime.inPeriod value)
  | .startsWith value =>
    some (argument.isDefined &&
      (runtime.foldCase (eval value)).isPrefixOf (runtime.foldCase shown))
  | .endsWith value =>
    some (argument.isDefined &&
      (runtime.foldCase (eval value)).isSuffixOf (runtime.foldCase shown))

section

variable (runtime : Runtime)

mutual

/-- `match($arg, $args)`; `key` uses its argument where `$args` is missing. -/
def Condition.match : Condition → Value → Option Value → Option Bool
  | .all conditions, argument, args => matchAll conditions argument args
  | .any conditions, argument, args => matchAny conditions argument args
  | .not condition, argument, args => (condition.match argument args).map (!·)
  | .key key condition, argument, args =>
    match argument.get? key with
    | some value => condition.match value (some (args.getD argument))
    | none => some false
  | .test test, argument, args => test.match runtime argument (args.getD .undef)
  | .true, _, _ => some Bool.true

def matchAll : List Condition → Value → Option Value → Option Bool
  | [], _, _ => some Bool.true
  | condition :: rest, argument, args =>
    match condition.match argument args with
    | some Bool.true => matchAll rest argument args
    | decided => decided

def matchAny : List Condition → Value → Option Value → Option Bool
  | [], _, _ => some Bool.false
  | condition :: rest, argument, args =>
    match condition.match argument args with
    | some Bool.false => matchAny rest argument args
    | decided => decided

end

def Condition.matches (condition : Condition) (request : Value) : Option Bool :=
  condition.match runtime request none

end

/-- `%FUNC_OPS` -/
inductive FuncOp where
  | includes
  | contains
  | notContains
  | defined
  | notDefined
  | dateIsBefore
  | dateIsAfter
  | fingerbankDeviceIsA
  | timePeriod
  | startsWith
  | endsWith
  | true
  deriving DecidableEq

def FuncOp.ofName? : String → Option FuncOp
  | "includes" => some .includes
  | "contains" => some .contains
  | "not_contains" => some .notContains
  | "defined" => some .defined
  | "not_defined" => some .notDefined
  | "date_is_before" => some .dateIsBefore
  | "date_is_after" => some .dateIsAfter
  | "fingerbank_device_is_a" => some .fingerbankDeviceIsA
  | "time_period" => some .timePeriod
  | "starts_with" => some .startsWith
  | "ends_with" => some .endsWith
  | "true" => some .true
  | _ => none

/-- `s/^not_//` -/
def stripNot? (name : String) : Option String :=
  match name.toList with
  | 'n' :: 'o' :: 't' :: '_' :: rest => some (String.ofList rest)
  | _ => none

/-- The function and whether its condition is wrapped in a `not`. -/
def resolveFunc (name : String) : Option (FuncOp × Bool) :=
  match FuncOp.ofName? name with
  | some op => some (op, false)
  | none => ((stripNot? name).bind FuncOp.ofName?).map fun op => (op, Bool.true)

def Param.str? : Param → Option String
  | .text value => some value
  | _ => none

def Param.maybeStr? : Param → Option (Option String)
  | .undef => some none
  | .text value => some (some value)
  | _ => none

/-- `new(value => $val)`, which dies if the value has not the type of the
attribute; a class without the attribute takes anything. -/
def FuncOp.new? (op : FuncOp) (value : Param) : Option Test :=
  match op with
  | .includes => value.str?.map .includes
  | .contains => value.str?.map .contains
  | .notContains => value.str?.map .notContains
  | .defined => some .isDefined
  | .notDefined => some .notDefined
  | .dateIsBefore => value.maybeStr?.map .dateBefore
  | .dateIsAfter => value.maybeStr?.map .dateAfter
  | .fingerbankDeviceIsA => value.str?.map .deviceIsA
  | .timePeriod => value.str?.map .timePeriod
  | .startsWith => value.str?.map .startsWith
  | .endsWith => value.str?.map .endsWith
  | .true => none

/-- It dies without a key. -/
def buildParentCondition (child : Condition) : List String → Option Condition
  | [] => none
  | [key] => some (.key key child)
  | key :: parents => (buildParentCondition child parents).map (.key key)

def radiusEapType2Values : List (String × String) := [
  ("Base", "0"),
  ("VALUE", "0"),
  ("None", "0"),
  ("Identity", "1"),
  ("Notification", "2"),
  ("NAK", "3"),
  ("MD5-Challenge", "4"),
  ("One-Time-Password", "5"),
  ("Generic-Token-Card", "6"),
  ("RSA-Public-Key", "9"),
  ("DSS-Unilateral", "10"),
  ("KEA", "11"),
  ("KEA-Validate", "12"),
  ("EAP-TLS", "13"),
  ("Defender-Token", "14"),
  ("RSA-SecurID-EAP", "15"),
  ("Arcot-Systems-EAP", "16"),
  ("Cisco-LEAP", "17"),
  ("Nokia-IP-Smart-Card", "18"),
  ("SIM", "18"),
  ("SRP-SHA1", "19"),
  ("EAP-TTLS", "21"),
  ("Remote-Access-Service", "22"),
  ("AKA", "23"),
  ("EAP-3Com-Wireless", "24"),
  ("PEAP", "25"),
  ("MS-EAP-Authentication", "26"),
  ("MAKE", "27"),
  ("CRYPTOCard", "28"),
  ("EAP-MSCHAP-V2", "29"),
  ("DynamID", "30"),
  ("Rob-EAP", "31"),
  ("SecurID-EAP", "32"),
  ("MS-Authentication-TLV", "33"),
  ("SentriNET", "34"),
  ("EAP-Actiontec-Wireless", "35"),
  ("Cogent-Biomentric-EAP", "36"),
  ("AirFortress-EAP", "37"),
  ("EAP-HTTP-Digest", "38"),
  ("SecuriSuite-EAP", "39"),
  ("DeviceConnect-EAP", "40"),
  ("EAP-SPEKE", "41"),
  ("EAP-MOBAC", "42"),
  ("EAP-FAST", "43"),
  ("Zonelabs", "44"),
  ("EAP-Link", "45"),
  ("EAP-PAX", "46"),
  ("EAP-PSK", "47"),
  ("EAP-SAKE", "48"),
  ("EAP-IKEv2", "49"),
  ("EAP-AKA2", "50"),
  ("EAP-GPSK", "51"),
  ("EAP-PWD", "52"),
  ("EAP-EVEv1", "53"),
  ("Microsoft-MS-CHAPv2", "26"),
  ("Cisco-MS-CHAPv2", "29"),
  ("MS-CHAP-V2", "26")]

def normalizeConnectionSubType (value : String) : String :=
  (radiusEapType2Values.lookup value).getD value

section

variable (runtime : Runtime)

/-- The pattern of a regular expression is tried once, and dies if it is none. -/
def CompareOp.new? (op : CompareOp) (value : String) : Option Test :=
  match op.match runtime "test" (evalParam runtime value .undef) with
  | some _ => some (.compare op value)
  | none => none

def buildBinaryCondition (op : CompareOp) (field : Param) (value : String) :
    Option Condition := do
  let keys := splitKeys (field.toText runtime.address)
  let value := if keys.getLast? = some "connection_sub_type" then
    normalizeConnectionSubType value else value
  let test ← op.new? runtime value
  buildParentCondition (.test test) keys

def buildFunction (name : String) (params : List Param) : Option Condition := do
  let (op, wrapInNot) ← resolveFunc name
  if op = .true then
    some .true
  else
    let test ← op.new? (params[1]?.getD .undef)
    let condition ←
      if op = .timePeriod then some (.test test)
      else
        buildParentCondition (.test test)
          (splitKeys ((params[0]?.getD Param.undef).toText runtime.address))
    some (if wrapInNot then .not condition else condition)

mutual

/-- `none` if it dies. -/
def buildCondition : Ast → Option Condition
  | .id name => if name = TRUE_CONDITION then some .true else none
  | .not operand => (buildCondition operand).map .not
  | .and [operand] => buildCondition operand
  | .or [operand] => buildCondition operand
  | .and operands => (buildConditions operands).map .all
  | .or operands => (buildConditions operands).map .any
  | .cmp op field value => buildBinaryCondition runtime op field value
  | .func name params => buildFunction runtime name params

def buildConditions : List Ast → Option (List Condition)
  | [] => some []
  | ast :: rest => do
      let condition ← buildCondition ast
      let conditions ← buildConditions rest
      some (condition :: conditions)

end

end

end PacketFence.Filter
