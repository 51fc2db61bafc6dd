import Mathlib.Data.List.Infix
import PacketFence.Foundations.TimedMap
import PacketFence.Foundations.Lexing
import PacketFence.Foundations.Machine

/-!
# The updates of the single sign-on

An update is passed on to the firewalls as a start. A firewall with cached
updates gets one only if its key is not in the cache, which all firewalls share.
Every visit of such a firewall drops the other keys of the device, and the flag
that a start is due is kept from one firewall to the next.
-/

namespace PacketFence.FirewallSso

open Foundations Lexing

structure Firewall where
  /-- `PfconfigHashNS` -/
  id : Text
  shouldCacheUpdates : Bool
  getCacheTimeout : Int
  deriving DecidableEq

/-- The firewalls by their id; they are visited in any order. -/
structure Firewalls where
  all : List Firewall
  distinct : (all.map (·.id)).Nodup

structure Info where
  mac : Text
  ip : Text
  username : Text
  role : Text
  deriving DecidableEq

def second : Int := 1000000000

abbrev Cache := ExpiringCache Text

def cacheKey (firewall : Firewall) (info : Info) : Text :=
  firewall.id ++ "|mac|".toList ++ info.mac ++ "|ip|".toList ++ info.ip ++
    "|username|".toList ++ info.username ++ "|role|".toList ++ info.role

def contains (text part : Text) : Bool :=
  part <:+: text

/-- The part of a key by which the entries of a device are found. -/
def macPart (mac : Text) : Text := "|mac|".toList ++ mac

def ipPart (ip : Text) : Text := "|ip|".toList ++ ip ++ "|".toList

/-- In seconds; 0 if there is none. -/
def cacheTimeout (firewall : Firewall) (timeout : Int) : Int :=
  if firewall.getCacheTimeout ≠ 0 then
    firewall.getCacheTimeout
  else if timeout ≠ 0 then
    timeout.tdiv 2
  else
    0

structure Loop where
  cache : Cache
  shouldStart : Bool
  started : List Text

section Handler

variable (now : Int) (info : Info) (timeout : Int)

/-- The cache without the other entries of the device. -/
def prune (cache : Cache) (firewall : Firewall) : Cache :=
  cache.deleteItems now fun key =>
    key ≠ cacheKey firewall info ∧ contains key (macPart info.mac)

/-- A firewall with cached updates: the cache after it, and whether its key was found. -/
def lookup (cache : Cache) (firewall : Firewall) : Cache × Bool :=
  let pruned := prune now info cache firewall
  if pruned.get now (cacheKey firewall info) then
    (pruned, true)
  else if cacheTimeout firewall timeout ≠ 0 then
    (pruned.set now (cacheKey firewall info) (cacheTimeout firewall timeout * second), false)
  else
    (pruned, false)

def visit (loop : Loop) (firewall : Firewall) : Loop :=
  let (cache, found) :=
    if firewall.shouldCacheUpdates then lookup now info timeout loop.cache firewall
    else (loop.cache, false)
  let shouldStart := loop.shouldStart || !found
  { cache := cache
    shouldStart := shouldStart
    started := if shouldStart then loop.started ++ [firewall.id] else loop.started }

def handleUpdate (cache : Cache) (order : List Firewall) : Loop :=
  order.foldl (visit now info timeout) ⟨cache, false, []⟩

def handleStop (cache : Cache) (ip : Text) : Cache :=
  cache.deleteItems now fun key => contains key (ipPart ip)

end Handler

/-! ### Runs -/

/-- A request that was handled, with its time. -/
inductive Past where
  | update (time : Int) (info : Info) (timeout : Int)
  | stop (ip : Text)

structure Server where
  cache : Cache
  now : Int
  history : List Past

inductive Event where
  | update (order : List Firewall) (info : Info) (timeout : Int)
  | stop (ip : Text)
  | tick (elapsed : Nat)

namespace Server

def start (now : Int) : Server where
  cache := .new (3600 * second)
  now := now
  history := []

variable (firewalls : Firewalls)

def step? (server : Server) : Event → Option Server
  | .update order info timeout =>
    if order.isPerm firewalls.all then
      some { server with
        cache := (handleUpdate server.now info timeout server.cache order).cache
        history := .update server.now info timeout :: server.history }
    else
      none
  | .stop ip =>
    some { server with
      cache := handleStop server.now server.cache ip
      history := .stop ip :: server.history }
  | .tick elapsed => some { server with now := server.now + elapsed }

def machine : Machine Server Event where
  step? := step? firewalls

end Server

end PacketFence.FirewallSso
