import PacketFence.Foundations.OrderBy

/-!
# The switch of an address

RADIUS finds the switch of a source address with a query over numeric bounds that
are computed when the configuration is loaded; everything else finds it by
`within` on the networks, ordered by their mask lengths.

The bounds are those of the usable addresses of a network, and the length of the
range decides which row comes first. The two lookups agree as long as the address
is usable in the most specific network it is in and no other row is as short.
-/

namespace PacketFence.Switch

open Foundations

/-- A `NetAddr::IP`, with its host bits. -/
structure Network where
  address : BitVec 32
  masklen : Fin 33
  deriving DecidableEq

def hostsOf (masklen : Fin 33) : Nat := 2 ^ (32 - masklen.val)

def numOf (masklen : Fin 33) : Nat :=
  if masklen < 31 then hostsOf masklen - 2 else hostsOf masklen

namespace Network

variable (net : Network)

def network : Nat :=
  net.address.toNat / hostsOf net.masklen * hostsOf net.masklen

def broadcast : Nat :=
  net.network + hostsOf net.masklen - 1

/-- Whether an address is `within` the network. -/
def contains (ip : BitVec 32) : Bool :=
  ip.toNat / hostsOf net.masklen = net.address.toNat / hostsOf net.masklen

def first : Nat :=
  if net.masklen < 31 then net.network + 1 else net.network

def last : Nat :=
  if net.masklen < 31 then net.broadcast - 1 else net.broadcast

def num : Nat := numOf net.masklen

end Network

/-- The id of a switch in the configuration. -/
inductive Id where
  | mac (mac : BitVec 48)
  | address (ip : BitVec 32)
  | range (network : Network)
  deriving DecidableEq

/-- `NetAddr::IP->new`, which makes nothing of a MAC. -/
def Id.netaddr? : Id → Option Network
  | .mac _ => none
  | .address ip => some ⟨ip, 32⟩
  | .range network => some network

def localhost : Id := .address 0x7F000001

structure NasRow where
  nasname : Id
  startIp : Nat
  endIp : Nat
  rangeLength : Nat
  deriving DecidableEq

/-- The length of a range is cut off at the largest `INT`. -/
def buildRadiusNasRow (id : Id) : NasRow :=
  match id.netaddr? with
  | none => ⟨id, 0, 0, 0⟩
  | some network =>
    ⟨id, network.first, network.last, min (network.last - network.first + 1) (2 ^ 31 - 1)⟩

variable (ids : List Id)

def populateNasConfig : List NasRow :=
  (ids.filter (· ≠ localhost)).map buildRadiusNasRow

/-- `INET_ATON(?) BETWEEN start_ip AND end_ip` -/
def NasRow.matches (ip : BitVec 32) (row : NasRow) : Bool :=
  row.startIp ≤ ip.toNat && ip.toNat ≤ row.endIp

def switchLookup (scan : Scan NasRow) (rows : List NasRow) (mac : BitVec 48) (ip : BitVec 32) :
    Option NasRow :=
  ((rows.find? (·.nasname = .mac mac)).or (rows.find? (·.nasname = .address ip))).or
    (scan.firstBy NasRow.rangeLength (NasRow.matches ip) rows)

/-- The configuration always has a switch for the server itself. -/
def switchConfig : List Id :=
  ids.insert localhost

def switchRanges : List (Network × Id) :=
  (switchConfig ids).filterMap fun id =>
    id.netaddr?.bind fun network => if network.num = 1 then none else some (network, id)

/-- Of the texts of addresses `0.0.0.0` is not valid. -/
def validIp (ip : BitVec 32) : Bool := ip ≠ 0

def instantiate (scan : Scan (Network × Id)) (ids : List Id) (ip : BitVec 32) : Option Id :=
  if .address ip ∈ switchConfig ids then
    some (.address ip)
  else if validIp ip then
    (scan.firstBy (fun range => OrderDual.toDual range.1.masklen) (fun range => range.1.contains ip)
      (switchRanges ids)).map Prod.snd
  else
    none

/-- No two switches are one network. -/
def DistinctNetworks : Prop :=
  ∀ first ∈ ids, ∀ second ∈ ids, ∀ network ∈ first.netaddr?, ∀ other ∈ second.netaddr?,
    network.masklen = other.masklen → network.network = other.network → first = second

def Network.usable (network : Network) (ip : BitVec 32) : Prop :=
  network.first ≤ ip.toNat ∧ ip.toNat ≤ network.last

def MostSpecific (ip : BitVec 32) (network : Network) : Prop :=
  (.range network ∈ ids ∧ network.masklen ≠ 32 ∧ network.contains ip = true) ∧
    ∀ other, .range other ∈ ids → other.masklen ≠ 32 → other.contains ip = true →
      other.masklen ≤ network.masklen

/-- What the two lookups have to find of an address that is not an entry itself. -/
structure PlainRange (ip : BitVec 32) : Prop where
  /-- no range is this single address -/
  single : ∀ network, .range network ∈ ids → network.masklen = 32 → network.address ≠ ip
  /-- nothing is instantiated for `0.0.0.0`, and the rows of MACs have `0` as their bounds -/
  zero : ip = 0 → (∀ mac, .mac mac ∉ ids) ∧ ∀ network, .range network ∈ ids → ¬ network.usable ip
  usable : ip ≠ 0 → ∀ network, MostSpecific ids ip network → network.usable ip
  /-- a range of two addresses is as long as the one of four around it -/
  point : ∀ network, MostSpecific ids ip network → network.masklen = 31 →
    ∀ other, .range other ∈ ids → other.masklen = 30 → ¬ other.usable ip

end PacketFence.Switch
