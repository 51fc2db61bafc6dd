import PacketFence.Foundations.TimedMap

/-!
# The filter stage of the DNS server

A query that no earlier stage has answered runs through the networks in an order
of their map. In the network of its client it is deferred, rejected, or
answered by a filter; the answers of the filter are remembered for five minutes.

The scope a filter is asked with is kept from one network to the next, so that a
network of another type inherits it. The key under which an answer is
remembered has neither the scope nor the type of the question in it, and runs
its parts together.
-/

namespace PacketFence.Dns

open Foundations

inductive NetworkType where
  | inlinel2
  | inlinel3
  | vlanIsolation
  | vlanRegistration
  | dnsEnforcement
  | other

inductive Scope where
  | unset
  | inline
  | isolation
  | registration
  | dnsenforcement
  deriving DecidableEq

def NetworkType.scope? : NetworkType → Option Scope
  | .inlinel2 => some .inline
  | .inlinel3 => some .inline
  | .vlanIsolation => some .isolation
  | .vlanRegistration => some .registration
  | .dnsEnforcement => some .dnsenforcement
  | .other => none

structure Network (Address : Type) where
  contains : Address → Bool
  type : NetworkType

/-- A query with what the database says of its client at this time. -/
structure Query (Address : Type) where
  address : Address
  mac : String
  status : String
  category : String
  securityEvent : Bool
  /-- the name asked for is that of a portal of the client's network -/
  portalName : Bool
  qname : String
  qtype : Nat
  now : Int
  /-- the networks in the order in which they are iterated -/
  order : List (Network Address)

structure Args where
  scope : Scope
  qname : String
  qtype : Nat
  mac : String
  deriving DecidableEq

/-- A filter fails, or gives a reply that may have an answer in it. -/
abbrev FilterDns := Args → Option (Option String)

inductive Outcome where
  /-- left to the next server -/
  | deferred
  | rejected
  /-- the record, in the form `dns.NewRR` is given -/
  | filtered (record : String)
  /-- no record is taken from the filter -/
  | portal
  deriving DecidableEq

def makeKeyCache (mac category : String) (securityEvent : Bool) (qname : String) : String :=
  mac ++ category ++ (if securityEvent then "true" else "false") ++ qname

/-- `cache.DefaultExpiration`, in nanoseconds -/
def defaultExpiration : Int := 300000000000

variable {Address : Type} (query : Query Address)

def Query.cacheKey : String :=
  makeKeyCache query.mac query.category query.securityEvent query.qname

def Query.args (scope : Scope) : Args :=
  ⟨scope, query.qname, query.qtype, query.mac⟩

/-- What is decided of a registered client before a filter is asked. -/
def Query.early : Scope → Option Outcome
  | .dnsenforcement | .inline =>
    if query.status == "reg" && !query.securityEvent && query.category != "REJECT" then
      if query.portalName then none else some .deferred
    else if query.status == "reg" && query.category == "REJECT" then
      some .rejected
    else
      none
  | _ => none

def locate (address : Address) : Scope → List (Network Address) → Option (Network Address × Scope)
  | _, [] => none
  | scope, network :: networks =>
    let scope := network.type.scope?.getD scope
    if network.contains address then some (network, scope) else locate address scope networks

def outcomeOf : Option (Option String) → Outcome
  | none => .portal
  | some answer => .filtered (answer.getD "")

/-- Ask the filter, and remember what it says; a failure is remembered as `null`. -/
def askFilter (filter : FilterDns) (cache : TimedMap String String) (query : Query Address)
    (scope : Scope) : Outcome × TimedMap String String :=
  let reply := filter (query.args scope)
  let remembered :=
    match reply with
    | none => "null"
    | some answer => answer.getD ""
  (outcomeOf reply, cache.put query.cacheKey remembered (query.now + defaultExpiration))

def serveDNS (filter : FilterDns) (cache : TimedMap String String) (query : Query Address) :
    Outcome × TimedMap String String :=
  match locate query.address .unset query.order with
  | none => (.portal, cache)
  | some (_, scope) =>
    match query.early scope with
    | some outcome => (outcome, cache)
    | none =>
      match cache.find? query.now query.cacheKey with
      | some reply =>
        if reply ≠ "null" then (.filtered reply, cache)
        else askFilter filter cache query scope
      | none => askFilter filter cache query scope

end PacketFence.Dns
