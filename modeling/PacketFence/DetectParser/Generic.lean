import PacketFence.Foundations.Splitting
import PacketFence.Foundations.Template

/-!
# The generic parser of log lines

A rule matches a line with a regular expression and makes a call for each of its
actions: the template of the action is expanded with what the groups matched and
then split at commas and equals signs into the parameters.

A slice or an index out of range is a panic. A regular expression is what its
documentation says of the bounds it reports; the functions of other packages are
part of the environment.
-/

namespace PacketFence.DetectParser

open Foundations

inductive Panic where
  | slice (low high : Int)
  | index

/-- The bounds of a group that took no part are -1. -/
def IsGroup (line : Bytes) (low high : Int) : Prop :=
  (low = -1 ∧ high = -1) ∨ (0 ≤ low ∧ low ≤ high ∧ high ≤ line.length)

structure Regexp where
  subexpNames : List Bytes
  findStringSubmatchIndex : Bytes → Option (List Int)
  length_eq : ∀ line found, findStringSubmatchIndex line = some found →
    found.length = 2 * subexpNames.length
  isGroup : ∀ line found, findStringSubmatchIndex line = some found →
    ∀ i low high, found[2 * i]? = some low → found[2 * i + 1]? = some high →
      IsGroup line low high

structure Action where
  methodName : Bytes
  argsTemplate : Bytes

/-- The keys that have not expired; none if there is no limit. -/
abbrev RateLimitCache := Option (List Bytes)

structure Rule where
  rateLimitCache : RateLimitCache
  regexp : Regexp
  actions : List Action
  lastIfMatch : Bool
  ipMacTranslation : Bool

structure Environment where
  names : Template.NameRunes
  /-- empty if the address is none -/
  cleanMac : Bytes → Bytes
  cleanIp : Bytes → Option Bytes
  mac2ip : Bytes → Option Bytes
  ip2mac : Bytes → Option Bytes
  tenantId : Int

structure ApiCall where
  method : Bytes
  params : List Bytes
  tenantId : Int

abbrev Replacements := Bytes → Option Bytes

structure Context where
  line : Bytes
  submatches : List Int
  replacements : Replacements

def slice (src : Bytes) (low high : Int) : Except Panic Bytes :=
  if 0 ≤ low ∧ low ≤ high ∧ high ≤ src.length then
    .ok ((src.drop low.toNat).take (high - low).toNat)
  else
    .error (.slice low high)

def index (submatches : List Int) (i : Nat) : Except Panic Int :=
  match submatches[i]? with
  | some bound => .ok bound
  | none => .error .index

/-! ### Splitting -/

def isSeparator (byte : UInt8) : Bool :=
  byte = ascii ',' ∨ byte = ascii '='

def isBlank (byte : UInt8) : Bool :=
  byte = ascii '\t' ∨ byte = ascii '\n' ∨ byte = 0x0C ∨ byte = ascii '\r' ∨ byte = ascii ' '

/-- `Split(text, -1)` with the pattern `\s*[,=]\s*` -/
def split (text : Bytes) : List Bytes :=
  Splitting.split isSeparator isBlank text

section Parser

variable (environment : Environment) (rule : Rule)

/-! ### Expanding -/

/-- The text of a placeholder. -/
def Context.valueOf (context : Context) (name : Bytes) : Except Panic Bytes :=
  match Template.number? name with
  | some number =>
    if 2 * number + 1 < context.submatches.length then do
      let low ← index context.submatches (2 * number)
      if 0 ≤ low then
        let high ← index context.submatches (2 * number + 1)
        slice context.line low high
      else
        return []
    else
      return []
  | none => return (context.replacements name).getD []

def Context.expandPart (context : Context) : Template.Part → Except Panic Bytes
  | .literal byte => .ok [byte]
  | .placeholder name => context.valueOf name

def expandString (context : Context) (template : Bytes) : Except Panic Bytes := do
  let texts ← (Template.parts environment.names template).mapM context.expandPart
  return texts.flatten

/-! ### The replacements -/

def namedGroups (line : Bytes) (submatches : List Int) :
    Nat → List Bytes → Replacements → Except Panic Replacements
  | _, [], replacements => .ok replacements
  | i, name :: rest, replacements =>
    if name ≠ [] then do
      let low ← index submatches (2 * i)
      let high ← index submatches (2 * i + 1)
      let text ← slice line low high
      namedGroups line submatches (i + 1) rest (Function.update replacements name (some text))
    else
      namedGroups line submatches (i + 1) rest replacements

def macName : Bytes := asciiBytes "mac"

def ipName : Bytes := asciiBytes "ip"

/-- The address that is missing is asked for; nothing is added if there is no answer. -/
def translate (replacements : Replacements) : Replacements :=
  match replacements macName, replacements ipName with
  | some mac, none =>
    match environment.mac2ip mac with
    | some ip => Function.update replacements ipName (some ip)
    | none => replacements
  | none, some ip =>
    match environment.ip2mac ip with
    | some mac => Function.update replacements macName (some mac)
    | none => replacements
  | _, _ => replacements

def getReplacementMap (line : Bytes) (submatches : List Int) : Except Panic Replacements := do
  let replacements ← namedGroups line submatches 0 rule.regexp.subexpNames fun _ => none
  return if rule.ipMacTranslation then translate environment replacements else replacements

/-- The rule is skipped if the hardware address is none. -/
def cleanMac? (replacements : Replacements) : Option Replacements :=
  match replacements macName with
  | none => some replacements
  | some mac =>
    if environment.cleanMac mac = [] then none
    else some (Function.update replacements macName (some (environment.cleanMac mac)))

def cleanIp? (replacements : Replacements) : Option Replacements :=
  match replacements ipName with
  | none => some replacements
  | some ip => (environment.cleanIp ip).map fun ip => Function.update replacements ipName (some ip)

def Rule.context? (line : Bytes) : Except Panic (Option Context) :=
  match rule.regexp.findStringSubmatchIndex line with
  | none => .ok none
  | some submatches => do
      let replacements ← getReplacementMap environment rule line submatches
      return ((cleanMac? environment replacements).bind (cleanIp? environment)).map fun cleaned =>
        ⟨line, submatches, cleaned⟩

/-! ### Parsing -/

def makeCall (action : Action) (paramsString : Bytes) : ApiCall where
  method := action.methodName
  params := split paramsString
  tenantId := environment.tenantId

def rateLimitKey (action : Action) (paramsString : Bytes) : Bytes :=
  action.methodName ++ asciiBytes ":" ++ paramsString

def notRateLimited (key : Bytes) : RateLimitCache → Bool × RateLimitCache
  | none => (true, none)
  | some keys => if key ∈ keys then (false, some keys) else (true, some (key :: keys))

def actionCalls (context : Context) :
    RateLimitCache → List Action → Except Panic (List ApiCall × RateLimitCache)
  | cache, [] => .ok ([], cache)
  | cache, action :: rest => do
      let paramsString ← expandString environment context action.argsTemplate
      let (passed, cache) := notRateLimited (rateLimitKey action paramsString) cache
      let (calls, cache) ← actionCalls context cache rest
      return (if passed then makeCall environment action paramsString :: calls else calls, cache)

/-- The calls for a line, and the rules with their caches after it. -/
def parse : List Rule → Bytes → Except Panic (List ApiCall × List Rule)
  | [], _ => .ok ([], [])
  | rule :: rest, line => do
      match ← rule.context? environment line with
      | none => do
          let (calls, rest) ← parse rest line
          return (calls, rule :: rest)
      | some context => do
          let (calls, cache) ← actionCalls environment context rule.rateLimitCache rule.actions
          if rule.lastIfMatch then
            return (calls, { rule with rateLimitCache := cache } :: rest)
          else
            let (others, rest) ← parse rest line
            return (calls ++ others, { rule with rateLimitCache := cache } :: rest)

end Parser

end PacketFence.DetectParser
