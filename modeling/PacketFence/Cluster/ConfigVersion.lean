import PacketFence.Foundations.Strconv

/-!
# `handle_config_conflict`

The scheduled check asks every enabled host for its configuration version; a
call that fails counts as version 0. Perl hashes are kept as lists of pairs,
and since `each` walks a hash in an order of its own, the decision is a
function of any list with the right pairs. The version the local host reads
from its own disk is only written into the map from servers to versions, which
nothing but a log line reads afterwards.
-/

namespace PacketFence.Cluster

open Foundations

abbrev Host := String

/-- The situation a check finds. Versions are the times of the last change,
which have equally many digits. -/
structure Survey where
  hosts : List Host
  hostId : Host
  version : Host → Nat
  /-- whether the webservice of the host answers -/
  alive : Host → Bool
  hosts_nodup : hosts.Nodup
  hostId_mem : hostId ∈ hosts
  two_lt_length : 2 < hosts.length
  version_pos : ∀ host ∈ hosts, 0 < version host
  sameDigits : ∀ first ∈ hosts, ∀ second ∈ hosts,
    (Nat.toDigits 10 (version first)).length =
      (Nat.toDigits 10 (version second)).length

abbrev VersionsMap := List (Nat × List Host)

/-- `$versions_map->{$version} //= []; push @{$versions_map->{$version}}, $server` -/
def pushServer (version : Nat) (server : Host) : VersionsMap → VersionsMap
  | [] => [(version, [server])]
  | (key, servers) :: rest =>
    if key = version then (key, servers ++ [server]) :: rest
    else (key, servers) :: pushServer version server rest

namespace Survey

variable (survey : Survey)

/-- What `%results` holds for a server. -/
def result (server : Host) : Nat :=
  if survey.alive server then survey.version server else 0

/-- `get_all_config_version`, where `order` is the order in which `each` walks
the servers. -/
def getAllConfigVersion (order : List Host) : VersionsMap :=
  order.foldl (fun map server => pushServer (survey.result server) server map) []

end Survey

/-- `int($half) == $half ? $half + 1 : ceil($half)` for half of the hosts. -/
def quorum (hosts : Nat) : Nat :=
  if hosts % 2 = 0 then hosts / 2 + 1 else (hosts + 1) / 2

def mostServers (map : VersionsMap) : Nat × Nat :=
  map.foldl
    (fun best entry =>
      if best.1 < entry.2.length then (entry.2.length, entry.1) else best)
    (0, 0)

/-- `sort` compares the keys as texts. -/
def textLe (first second : Nat) : Bool :=
  decide (Nat.toDigits 10 first ≤ Nat.toDigits 10 second)

/-- `[sort(keys(%$versions_map))]->[-1]` -/
def latest (map : VersionsMap) : Option Nat :=
  ((map.map Prod.fst).mergeSort textLe).getLast?

/-- Both ways of synching from a host that holds the version: the local host if
it is one, else the first server listed under the version. -/
def syncFrom (survey : Survey) (map : VersionsMap) (version : Nat) : Option Host :=
  if version = survey.version survey.hostId then
    some survey.hostId
  else
    (map.lookup version).bind List.head?

def handleConfigConflict (survey : Survey) (map : VersionsMap) : Option Host :=
  if map.length = 2 ∧ (map.lookup 0).any (fun servers => 0 < servers.length) then
    none
  else if 1 < map.length then
    if 2 < survey.hosts.length then
      if (mostServers map).2 = 0 then
        (latest map).bind (syncFrom survey map)
      else if quorum survey.hosts.length ≤ (mostServers map).1 then
        syncFrom survey map (mostServers map).2
      else
        (latest map).bind (syncFrom survey map)
    else
      (latest map).bind (syncFrom survey map)
  else
    none

section Specification

variable (survey : Survey)

def Survey.known (host : Host) : Bool :=
  survey.alive host || host == survey.hostId

variable (state : Host → Bool)

def Survey.holders (version : Nat) : Nat :=
  survey.hosts.countP fun host => state host && survey.version host == version

/-- A version held by more than half of all hosts. -/
def Survey.Majority (version : Nat) : Prop :=
  survey.hosts.length < 2 * survey.holders state version

def Survey.Agree : Prop :=
  ∀ first ∈ survey.hosts, state first = true →
    ∀ second ∈ survey.hosts, state second = true →
      survey.version first = survey.version second

def Resolved (master : Option Host) : Prop :=
  (survey.Agree survey.known ∧ master = none) ∨
    (¬ survey.Agree survey.known ∧
      ∃ host ∈ survey.hosts, master = some host ∧ survey.known host = true ∧
        (∀ version, survey.Majority survey.known version →
          survey.version host = version) ∧
        ((∀ version, ¬ survey.Majority survey.known version) →
          ∀ other ∈ survey.hosts, survey.known other = true →
            survey.version other ≤ survey.version host))

end Specification

end PacketFence.Cluster
