import PacketFence.Foundations.FirstMaximum
import PacketFence.Galera.Autofix
import Mathlib.Algebra.Order.Ring.Int

/-!
# Agreement of the boot decisions

A table only ever holds what its servers report, because a row is written for
the address a datagram comes from. A complete table is therefore the same on
every member, and so is the first maximum found in it.
-/

namespace PacketFence.Galera

open Foundations List

/-- The table lists the servers of the cluster in order, and a row that has
been filled holds what the server reports. -/
def Truthful (cluster : Cluster) (nodes : List Node) : Prop :=
  ∃ row : ClusterServer → Node, nodes = cluster.servers.map row ∧
    ∀ server ∈ cluster.servers,
      (row server).ip = server.managementIp ∧
      (row server).hostname = server.host ∧
      ((row server).seqno = DefaultSeqno ∨
        (row server).seqno = cluster.seqno server)

/-- What a member does when `first` is to boot the cluster. -/
def Agreed (first server : ClusterServer) (action : Action) : Prop :=
  (server = first ∧ action = .bootNewCluster) ∨
    (server ≠ first ∧ ∃ node, action = .bootAndRejoinCluster node ∧
      node.ip = first.managementIp ∧ node.hostname = first.host)

variable {cluster : Cluster} {nodes : List Node} {datagram : Datagram}
  {first second : ClusterServer} {highest : Node} {state : State}

theorem Cluster.eq_of_managementIp
    (firstMember : first ∈ cluster.servers) (secondMember : second ∈ cluster.servers)
    (same : first.managementIp = second.managementIp) : first = second :=
  inj_on_of_nodup_map cluster.ips_nodup firstMember secondMember same

theorem Cluster.eq_of_host
    (firstMember : first ∈ cluster.servers) (secondMember : second ∈ cluster.servers)
    (same : first.host = second.host) : first = second :=
  inj_on_of_nodup_map cluster.hosts_nodup firstMember secondMember same

theorem truthful_newNode (cluster : Cluster) (pingable : ClusterServer → Bool) :
    Truthful cluster (cluster.servers.map (newNode pingable)) := by
  refine ⟨newNode pingable, rfl, ?_⟩
  intro server _
  exact ⟨rfl, rfl, .inl rfl⟩

theorem Truthful.setSeqno {reporter : ClusterServer} (truthful : Truthful cluster nodes)
    (member : reporter ∈ cluster.servers) :
    Truthful cluster (handleMessage (cluster.setSeqno reporter) nodes) := by
  obtain ⟨row, rfl, rows⟩ := truthful
  refine ⟨fun server => if (row server).ip = reporter.managementIp then
    { row server with seqno := cluster.seqno reporter } else row server, ?_, ?_⟩
  · simp only [handleMessage, Cluster.setSeqno, handleMsgSetSeqno, decodeSeqno,
      if_true, map_map, Function.comp_def]
    rfl
  · intro server present
    obtain ⟨ip, hostname, seqno⟩ := rows server present
    by_cases same : (row server).ip = reporter.managementIp
    · have reports : server = reporter :=
        Cluster.eq_of_managementIp present member (ip ▸ same)
      subst server
      simp [ip, hostname]
    · simp only [if_neg same]
      exact ⟨ip, hostname, seqno⟩

theorem Truthful.handleMessage_of_outside (truthful : Truthful cluster nodes)
    (outside : datagram.sender ∉ cluster.servers.map ClusterServer.managementIp) :
    handleMessage datagram nodes = nodes := by
  obtain ⟨row, rfl, rows⟩ := truthful
  have untouched : ∀ server ∈ cluster.servers, (row server).ip ≠ datagram.sender := by
    intro server present same
    rw [(rows server present).1] at same
    exact outside (same ▸ mem_map_of_mem present)
  unfold handleMessage handleMsgSetSeqno
  split
  · rfl
  · split
    · split
      · rfl
      next seqno _ =>
        rw [map_map]
        refine map_congr_left fun server present => ?_
        simp [untouched server present]
    · rfl

theorem highestSeqnoNode?_firstMaximum {seen rest : List Node} {result : Node}
    (maximum : FirstMaximum Node.seqno seen highest)
    (found : highestSeqnoNode? highest rest = some result) :
    FirstMaximum Node.seqno (seen ++ rest) result := by
  induction rest generalizing seen highest with
  | nil =>
    simp only [highestSeqnoNode?, Option.some.injEq] at found
    subst result
    simpa using maximum
  | cons node rest ih =>
    simp only [highestSeqnoNode?] at found
    split at found
    · simp at found
    · have extended := ih (maximum.concat node) found
      simpa using extended

theorem Truthful.firstMaximum (truthful : Truthful cluster nodes)
    (complete : allReported nodes = true)
    (maximum : FirstMaximum Node.seqno nodes highest) :
    ∃ first, FirstMaximum cluster.seqno cluster.servers first ∧
      highest.seqno = cluster.seqno first ∧
      highest.ip = first.managementIp ∧ highest.hostname = first.host := by
  obtain ⟨row, rfl, rows⟩ := truthful
  have reported : ∀ server ∈ cluster.servers, (row server).seqno = cluster.seqno server := by
    intro server present
    rcases (rows server present).2.2 with missing | known
    · have filled := all_eq_true.mp complete _ (mem_map_of_mem present)
      simp [missing] at filled
    · exact known
  obtain ⟨first, source, rfl⟩ := maximum.of_map
  have member := source.mem
  exact ⟨first, source.congr reported, reported first member,
    (rows first member).1, (rows first member).2.1⟩

theorem Truthful.elect {server : ClusterServer} {action : Action}
    (truthful : Truthful cluster nodes) (complete : allReported nodes = true)
    (member : server ∈ cluster.servers)
    (elected : Galera.elect server.host nodes = some action) :
    ∃ first, FirstMaximum cluster.seqno cluster.servers first ∧
      cluster.seqno first ≠ RunningSeqno ∧ Agreed first server action := by
  cases nodes with
  | nil => simp [Galera.elect] at elected
  | cons head rest =>
    simp only [Galera.elect] at elected
    split at elected
    · simp at elected
    next highest found =>
      have scanned : highestSeqnoNode? head rest = some highest := by
        simp only [highestSeqnoNode?] at found
        split at found
        · simp at found
        · simpa using found
      have maximum := highestSeqnoNode?_firstMaximum
        (FirstMaximum.singleton Node.seqno head) scanned
      obtain ⟨first, chosen, seqno, ip, hostname⟩ := truthful.firstMaximum complete maximum
      split at elected
      · simp at elected
      next bootable =>
        refine ⟨first, chosen, seqno ▸ bootable, ?_⟩
        split at elected
        next this =>
          cases elected
          have same : first.host = server.host := hostname ▸ this
          exact .inl ⟨(Cluster.eq_of_host chosen.mem member same).symm, rfl⟩
        next other =>
          cases elected
          refine .inr ⟨?_, highest, rfl, ip, hostname⟩
          rintro rfl
          exact other hostname

structure Sound (cluster : Cluster) (state : State) : Prop where
  listening : ∀ server nodes, state.listening server = some nodes →
    server ∈ cluster.servers ∧ Truthful cluster nodes
  sent : ∀ datagram ∈ state.sent,
    ∃ server ∈ cluster.servers, datagram = cluster.setSeqno server
  decisions : ∀ server action, (server, action) ∈ state.decisions →
    ∃ first, FirstMaximum cluster.seqno cluster.servers first ∧
      cluster.seqno first ≠ RunningSeqno ∧ Agreed first server action

theorem Sound.initial (cluster : Cluster) : Sound cluster .initial where
  listening := by simp [State.initial]
  sent := by simp [State.initial]
  decisions := by simp [State.initial]

theorem Sound.truthful_deliver (sound : Sound cluster state)
    (deliverable : cluster.Deliverable state datagram) (truthful : Truthful cluster nodes) :
    Truthful cluster (handleMessage datagram nodes) := by
  rcases deliverable with sent | outside
  · obtain ⟨reporter, member, rfl⟩ := sound.sent datagram sent
    exact truthful.setSeqno member
  · rw [truthful.handleMessage_of_outside outside]
    exact truthful

theorem Sound.update_listening (sound : Sound cluster state)
    (server : ClusterServer) (table : Option (List Node)) (truthful : ∀ nodes, table = some nodes →
      server ∈ cluster.servers ∧ Truthful cluster nodes) :
    ∀ other nodes, Function.update state.listening server table other = some nodes →
      other ∈ cluster.servers ∧ Truthful cluster nodes := by
  intro other nodes present
  by_cases same : other = server
  · subst other
    rw [Function.update_self] at present
    exact truthful nodes present
  · rw [Function.update_of_ne same] at present
    exact sound.listening other nodes present

theorem Sound.step {next : State} {event : Event}
    (sound : Sound cluster state) (stepped : cluster.step? state event = some next) :
    Sound cluster next := by
  cases event with
  | report server =>
    simp only [Cluster.step?] at stepped
    split at stepped
    next member =>
      cases stepped
      refine ⟨sound.listening, ?_, sound.decisions⟩
      intro datagram present
      rcases mem_cons.mp present with rfl | older
      · exact ⟨server, member, rfl⟩
      · exact sound.sent datagram older
    · simp at stepped
  | handle server pingable =>
    simp only [Cluster.step?] at stepped
    split at stepped
    next idle =>
      split at stepped
      · cases stepped
        refine ⟨sound.update_listening server _ ?_, sound.sent, sound.decisions⟩
        rintro nodes ⟨⟩
        exact ⟨idle.1, truthful_newNode cluster pingable⟩
      · cases stepped
        exact sound
    · simp at stepped
  | deliver server datagram =>
    simp only [Cluster.step?] at stepped
    split at stepped
    · simp at stepped
    next nodes present =>
      split at stepped
      next deliverable =>
        obtain ⟨member, truthful⟩ := sound.listening server nodes present
        have updated := sound.truthful_deliver deliverable truthful
        split at stepped
        next complete =>
          cases stepped
          refine ⟨sound.update_listening server _ (by simp), sound.sent, ?_⟩
          intro decider action decided
          rcases mem_append.mp decided with now | older
          · rw [Option.mem_toList, Option.map_eq_some_iff] at now
            obtain ⟨_, elected, same⟩ := now
            cases same
            exact updated.elect complete member elected
          · exact sound.decisions decider action older
        · cases stepped
          refine ⟨sound.update_listening server _ ?_, sound.sent, sound.decisions⟩
          rintro nodes ⟨⟩
          exact ⟨member, updated⟩
      · simp at stepped
  | timeout server =>
    simp only [Cluster.step?] at stepped
    split at stepped
    · simp at stepped
    · cases stepped
      exact ⟨sound.update_listening server _ (by simp), sound.sent, sound.decisions⟩

/-- Whatever the network does, all decisions are about one node: the first one
with the highest sequence number. It alone boots a new cluster, everybody else
rejoins it, and nobody acts if the highest number is `RunningSeqno`. -/
theorem election_agreement (cluster : Cluster) {state : State}
    (reached : cluster.machine.Reaches Machine.anyEvent .initial state) :
    ∃ first, FirstMaximum cluster.seqno cluster.servers first ∧
      (∀ server action, (server, action) ∈ state.decisions →
        Agreed first server action) ∧
      (∀ server other, (server, .bootNewCluster) ∈ state.decisions →
        (other, .bootNewCluster) ∈ state.decisions → server = other) ∧
      (cluster.seqno first = RunningSeqno → state.decisions = []) := by
  have sound : Sound cluster state :=
    reached.invariant (Sound.initial cluster)
      fun _ _ _ sound _ stepped => sound.step stepped
  obtain ⟨first, chosen⟩ : ∃ first, FirstMaximum cluster.seqno cluster.servers first := by
    have length := cluster.two_le_length
    cases servers : cluster.servers with
    | nil => simp [servers] at length
    | cons head rest => exact FirstMaximum.exists_cons cluster.seqno head rest
  have agreed : ∀ server action, (server, action) ∈ state.decisions →
      cluster.seqno first ≠ RunningSeqno ∧ Agreed first server action := by
    intro server action decided
    obtain ⟨other, maximum, bootable, agreed⟩ := sound.decisions server action decided
    rw [chosen.unique maximum]
    exact ⟨bootable, agreed⟩
  have boots : ∀ server, (server, .bootNewCluster) ∈ state.decisions → server = first := by
    intro server decided
    rcases (agreed server _ decided).2 with ⟨same, _⟩ | ⟨_, node, rejoins, _⟩
    · exact same
    · simp at rejoins
  refine ⟨first, chosen, fun server action decided => (agreed server action decided).2, ?_, ?_⟩
  · intro server other serverBoots otherBoots
    rw [boots server serverBoots, boots other otherBoots]
  · intro running
    rw [eq_nil_iff_forall_not_mem]
    rintro ⟨server, action⟩ decided
    exact (agreed server action decided).1 running

namespace Example

def pf1 : ClusterServer := ⟨"192.168.1.11", "pf1"⟩

def pf2 : ClusterServer := ⟨"192.168.1.12", "pf2"⟩

def pf3 : ClusterServer := ⟨"192.168.1.13", "pf3"⟩

def trio : Cluster where
  servers := [pf1, pf2, pf3]
  seqno := fun server => if server = pf1 then InexistantSeqno else 7
  two_le_length := by decide
  ips_nodup := by decide
  hosts_nodup := by decide
  seqno_ne_default := by decide

/-- All members report before anybody listens to what they said. -/
def reports : List Event := [.report pf1, .report pf2, .report pf3]

/-- The member receives garbage and then the three reports, one of them twice. -/
def listens (server : ClusterServer) : List Event :=
  [.handle server (fun _ => true), .deliver server ⟨"10.0.0.1", .message "set_seqno" .null⟩,
    .deliver server (trio.setSeqno pf3), .deliver server (trio.setSeqno pf1),
    .deliver server (trio.setSeqno pf3), .deliver server (trio.setSeqno pf2)]

end Example

open Example

/-- The second member boots and the other two rejoin it. -/
theorem election_agreement_of_three :
    ∃ state, trio.machine.Reaches Machine.anyEvent .initial state ∧
      state.decisions = [(pf3, .bootAndRejoinCluster ⟨"192.168.1.12", "pf2", 7, true⟩),
          (pf2, .bootNewCluster), (pf1, .bootAndRejoinCluster ⟨"192.168.1.12", "pf2", 7, true⟩)] ∧
      ∃ first, FirstMaximum trio.seqno trio.servers first ∧
        ∀ server action, (server, action) ∈ state.decisions →
          Agreed first server action := by
  have replayed : (trio.machine.replay? (fun _ _ => true) .initial
        (reports ++ listens pf1 ++ listens pf2 ++ listens pf3)).map State.decisions =
      some [(pf3, .bootAndRejoinCluster ⟨"192.168.1.12", "pf2", 7, true⟩), (pf2, .bootNewCluster),
        (pf1, .bootAndRejoinCluster ⟨"192.168.1.12", "pf2", 7, true⟩)] := by decide
  rcases Option.map_eq_some_iff.mp replayed with ⟨state, run, decided⟩
  have reached : trio.machine.Reaches Machine.anyEvent .initial state :=
    Machine.reaches_anyEvent_of_replay? run .refl
  obtain ⟨first, maximum, agreed, _⟩ := election_agreement trio reached
  exact ⟨state, reached, decided, first, maximum, agreed⟩

end PacketFence.Galera
