import PacketFence.Foundations.Machine
import Mathlib.Data.List.Nodup

/-!
# `galera-autofix`: sequence numbers and the boot decision

Every member of the cluster reports its sequence number to all members over
UDP. A member whose database is down listens for these datagrams with a fresh
table of the servers, and decides alone, once every row of the table has been
filled, whether it boots a new cluster or rejoins another node. The network
delivers what was sent in any order, any number of times or never, and adds
datagrams of its own from addresses outside the cluster.
-/

namespace PacketFence.Galera

open Foundations

def RunningSeqno : Int := -1

def DefaultSeqno : Int := -2

def InexistantSeqno : Int := -3

structure ClusterServer where
  managementIp : String
  host : String
  deriving DecidableEq

/-- A cluster as all of its members see it. The hosts are the section names
of cluster.conf, of which `pfconfig` accepts none twice. -/
structure Cluster where
  servers : List ClusterServer
  /-- the number the member reports: its live or recorded one, or
  `InexistantSeqno` -/
  seqno : ClusterServer → Int
  two_le_length : 2 ≤ servers.length
  ips_nodup : (servers.map ClusterServer.managementIp).Nodup
  hosts_nodup : (servers.map ClusterServer.host).Nodup
  seqno_ne_default : ∀ server ∈ servers, seqno server ≠ DefaultSeqno

structure Node where
  ip : String
  hostname : String
  seqno : Int
  pingable : Bool
  deriving DecidableEq

/-- `NewNode` followed by `RefreshStats`. -/
def newNode (pingable : ClusterServer → Bool) (server : ClusterServer) : Node where
  ip := server.managementIp
  hostname := server.host
  seqno := DefaultSeqno
  pingable := pingable server

/-- The `Args` of a message, as far as decoding them into an `int` can tell. -/
inductive Args where
  | number (value : Int)
  | null
  | other
  deriving DecidableEq

/-- What a datagram holds, as far as `json.Unmarshal` can tell. -/
inductive Payload where
  | message (type : String) (args : Args)
  | malformed
  deriving DecidableEq

structure Datagram where
  sender : String
  payload : Payload
  deriving DecidableEq

def MSG_SET_SEQNO : String := "set_seqno"

/-- Decoding `null` succeeds and leaves the variable as it was, which is
`DefaultSeqno`. -/
def decodeSeqno : Args → Option Int
  | .number value => some value
  | .null => some DefaultSeqno
  | .other => none

def handleMsgSetSeqno (sender : String) (args : Args) (nodes : List Node) : List Node :=
  match decodeSeqno args with
  | none => nodes
  | some seqno =>
    nodes.map fun node => if node.ip = sender then { node with seqno := seqno } else node

def handleMessage (datagram : Datagram) (nodes : List Node) : List Node :=
  match datagram.payload with
  | .malformed => nodes
  | .message type args =>
    if type = MSG_SET_SEQNO then handleMsgSetSeqno datagram.sender args nodes
    else nodes

/-- The condition on which `getSeqnoReport` stops listening. -/
def allReported (nodes : List Node) : Bool :=
  nodes.all fun node => node.seqno != DefaultSeqno

def filterPeers (hostname : String) (nodes : List Node) : List Node :=
  nodes.filter fun node => node.hostname != hostname

inductive Action where
  | bootNewCluster
  | bootAndRejoinCluster (node : Node)
  deriving DecidableEq

/-- The loop of `handlePeersPingable` over the table; `none` is a return. -/
def highestSeqnoNode? (highest : Node) : List Node → Option Node
  | [] => some highest
  | node :: rest =>
    if node.seqno = DefaultSeqno then
      none
    else
      highestSeqnoNode?
        (if highest.seqno < node.seqno then node else highest) rest

/-- `handlePeersPingable` from the complete report on: the action taken when
it returns true. -/
def elect (hostname : String) (nodes : List Node) : Option Action :=
  match nodes with
  | [] => none
  | first :: _ =>
    match highestSeqnoNode? first nodes with
    | none => none
    | some highest =>
      if highest.seqno = RunningSeqno then
        none
      else if highest.hostname = hostname then
        some .bootNewCluster
      else
        some (.bootAndRejoinCluster highest)

/-- The state of the cluster: the tables of the members that are listening,
what has been sent so far, and the decisions made, latest first. -/
structure State where
  listening : ClusterServer → Option (List Node)
  sent : List Datagram
  decisions : List (ClusterServer × Action)

def State.initial : State where
  listening := fun _ => none
  sent := []
  decisions := []

inductive Event where
  | report (server : ClusterServer)
  | handle (server : ClusterServer) (pingable : ClusterServer → Bool)
  | deliver (server : ClusterServer) (datagram : Datagram)
  | timeout (server : ClusterServer)

namespace Cluster

variable (cluster : Cluster)

/-- What `seqnoReporting` sends to every server. -/
def setSeqno (server : ClusterServer) : Datagram where
  sender := server.managementIp
  payload := .message MSG_SET_SEQNO (.number (cluster.seqno server))

/-- The datagram was sent by a member, or it comes from outside. -/
def Deliverable (state : State) (datagram : Datagram) : Prop :=
  datagram ∈ state.sent ∨
    datagram.sender ∉ cluster.servers.map ClusterServer.managementIp

instance (state : State) (datagram : Datagram) :
    Decidable (cluster.Deliverable state datagram) := by
  unfold Deliverable
  infer_instance

def step? (state : State) : Event → Option State
  | .report server =>
    if server ∈ cluster.servers then
      some { state with sent := cluster.setSeqno server :: state.sent }
    else
      none
  | .handle server pingable =>
    if server ∈ cluster.servers ∧ state.listening server = none then
      let nodes := cluster.servers.map (newNode pingable)
      if (filterPeers server.host nodes).all Node.pingable then
        some { state with
          listening := Function.update state.listening server (some nodes) }
      else
        some state
    else
      none
  | .deliver server datagram =>
    match state.listening server with
    | none => none
    | some nodes =>
      if cluster.Deliverable state datagram then
        let nodes := handleMessage datagram nodes
        if allReported nodes then
          some { state with
            listening := Function.update state.listening server none
            decisions :=
              ((elect server.host nodes).map (Prod.mk server)).toList ++
                state.decisions }
        else
          some { state with
            listening := Function.update state.listening server (some nodes) }
      else
        none
  | .timeout server =>
    match state.listening server with
    | none => none
    | some _ =>
      some { state with
        listening := Function.update state.listening server none }

def machine : Machine State Event where
  step? := cluster.step?

end Cluster

end PacketFence.Galera
