import PacketFence.Cluster.ConfigVersion
import PacketFence.Foundations.FirstMaximum
import PacketFence.Foundations.Hash
import Mathlib.Data.List.Count
import Mathlib.Data.List.Perm.Lattice
import Mathlib.Data.List.Sort

/-!
# Who is made master

The decision only counts hosts whose webservice answers. As long as the local
webservice is one of them these are all the hosts with a known version, and the
conflict is resolved as documented. Otherwise the local version is missing
from the count, and the outcome is right only if it makes no difference.
-/

namespace PacketFence.Cluster

open Foundations List Prod

/-- What `each` may find in `$versions_map`. -/
structure IsVersionsMap (survey : Survey) (map : VersionsMap) : Prop where
  keys_nodup : (map.map fst).Nodup
  mem_iff : ∀ version servers, (version, servers) ∈ map →
    ∀ server, server ∈ servers ↔
      server ∈ survey.hosts ∧ survey.result server = version
  length_eq : ∀ version servers, (version, servers) ∈ map →
    servers.length = survey.hosts.countP fun host => survey.result host == version
  covers : ∀ host ∈ survey.hosts, ∃ servers, (survey.result host, servers) ∈ map
  held : ∀ version servers, (version, servers) ∈ map → servers ≠ []

variable {map : VersionsMap} {master : Host}

section Build

theorem pushServer_keys (version : Nat) (server : Host) (map : VersionsMap) :
    (pushServer version server map).map fst =
      if version ∈ map.map fst then map.map fst
      else map.map fst ++ [version] := by
  induction map with
  | nil => simp [pushServer]
  | cons entry rest ih =>
    obtain ⟨key, servers⟩ := entry
    by_cases same : key = version
    · simp [pushServer, same]
    · have apart : version ≠ key := Ne.symm same
      simp only [pushServer, if_neg same, map_cons, ih, mem_cons, apart, false_or]
      split <;> simp

theorem pushServer_lookup (version : Nat) (server : Host) (map : VersionsMap)
    (key : Nat) :
    (pushServer version server map).lookup key =
      if key = version then some ((map.lookup version).getD [] ++ [server])
      else map.lookup key := by
  induction map with
  | nil =>
    by_cases same : key = version
    · simp [pushServer, same]
    · simp [pushServer, lookup_cons_of_ne same, same]
  | cons entry rest ih =>
    obtain ⟨first, servers⟩ := entry
    by_cases same : first = version
    · subst first
      by_cases here : key = version
      · simp [pushServer, here]
      · simp [pushServer, lookup_cons_of_ne here, here]
    · rw [pushServer, if_neg same, lookup_cons_of_ne (Ne.symm same)]
      by_cases here : key = first
      · subst key
        simp [same]
      · rw [lookup_cons_of_ne here, lookup_cons_of_ne here, ih]

variable (survey : Survey) (order : List Host)

@[simp] theorem getAllConfigVersion_concat (server : Host) :
    survey.getAllConfigVersion (order ++ [server]) =
      pushServer (survey.result server) server (survey.getAllConfigVersion order) := by
  simp [Survey.getAllConfigVersion]

theorem getAllConfigVersion_keys_nodup :
    ((survey.getAllConfigVersion order).map fst).Nodup := by
  induction order using List.reverseRecOn with
  | nil => simp [Survey.getAllConfigVersion]
  | append_singleton order server ih =>
    rw [getAllConfigVersion_concat, pushServer_keys]
    split
    · exact ih
    next fresh =>
      rw [nodup_append_comm]
      exact nodup_cons.mpr ⟨fresh, ih⟩

theorem getAllConfigVersion_lookup (version : Nat) :
    (survey.getAllConfigVersion order).lookup version =
      if (order.filter fun host => survey.result host == version) = [] then none
      else some (order.filter fun host => survey.result host == version) := by
  induction order using List.reverseRecOn with
  | nil => simp [Survey.getAllConfigVersion]
  | append_singleton order server ih =>
    rw [getAllConfigVersion_concat, pushServer_lookup, filter_append]
    by_cases same : version = survey.result server
    · subst version
      rw [ih]
      by_cases empty : (order.filter fun host => survey.result host == survey.result server) = []
      · simp [empty]
      · simp [empty]
    · have apart : ¬ survey.result server = version := Ne.symm same
      simp [same, apart, ih]

theorem isVersionsMap_of_perm {order : List Host}
    (servers : order.Perm survey.hosts) (pairs : map.Perm (survey.getAllConfigVersion order)) :
    IsVersionsMap survey map := by
  have distinct := getAllConfigVersion_keys_nodup survey order
  have entry : ∀ version servers, (version, servers) ∈ map →
      servers ≠ [] ∧
        servers = order.filter fun host => survey.result host == version := by
    intro version servers member
    have found := (lookup_eq_some_iff_mem distinct).mpr (pairs.mem_iff.mp member)
    rw [getAllConfigVersion_lookup] at found
    split at found
    · simp at found
    next nonempty =>
      cases found
      exact ⟨nonempty, rfl⟩
  constructor
  · exact (pairs.map fst).nodup_iff.mpr distinct
  · intro version listed member server
    rw [(entry version listed member).2]
    simp [servers.mem_iff]
  · intro version listed member
    rw [(entry version listed member).2, ← countP_eq_length_filter]
    exact servers.countP_eq _
  · intro host present
    have nonempty : (order.filter fun other =>
        survey.result other == survey.result host) ≠ [] := by
      apply ne_nil_of_mem
      exact mem_filter.mpr ⟨servers.mem_iff.mpr present, by simp⟩
    refine ⟨order.filter fun other => survey.result other == survey.result host, ?_⟩
    refine pairs.mem_iff.mpr ((lookup_eq_some_iff_mem distinct).mp ?_)
    rw [getAllConfigVersion_lookup, if_neg nonempty]
  · intro version listed member
    exact (entry version listed member).1

end Build

theorem mostServers_spec (nonempty : map ≠ [])
    (held : ∀ version servers, (version, servers) ∈ map → servers ≠ []) :
    (∃ servers, ((mostServers map).2, servers) ∈ map ∧
        servers.length = (mostServers map).1) ∧
      ∀ version servers, (version, servers) ∈ map →
        servers.length ≤ (mostServers map).1 := by
  have best : ∃ entry, FirstMaximum (fun entry => entry.2.length) map entry ∧
      mostServers map = (entry.2.length, entry.1) := by
    induction map using List.reverseRecOn with
    | nil => exact absurd rfl nonempty
    | append_singleton map entry ih =>
      rw [mostServers, foldl_append]
      by_cases empty : map = []
      · subst map
        exact ⟨entry, .singleton _ entry,
          if_pos (length_pos_iff.mpr (held entry.1 entry.2 (by simp)))⟩
      · obtain ⟨best, maximum, scanned⟩ := ih empty
          fun version servers member => held version servers (by simp [member])
        refine ⟨_, maximum.concat entry, ?_⟩
        change (if (mostServers map).1 < entry.2.length then _ else mostServers map) = _
        rw [scanned]
        split <;> rfl
  obtain ⟨entry, maximum, scanned⟩ := best
  rw [scanned]
  exact ⟨⟨entry.2, maximum.mem, rfl⟩, fun version servers member => maximum.key_le member⟩

theorem textLe_trans (first second third : Nat) (before : textLe first second = true)
    (after : textLe second third = true) : textLe first third = true := by
  simp only [textLe, decide_eq_true_eq] at before after ⊢
  exact before.trans after

theorem textLe_total (first second : Nat) :
    (textLe first second || textLe second first) = true := by
  simp only [textLe, Bool.or_eq_true, decide_eq_true_eq]
  exact le_total _ _

theorem latest_spec (nonempty : map ≠ []) :
    ∃ version, latest map = some version ∧ version ∈ map.map fst ∧
      ∀ other ∈ map.map fst, textLe other version = true := by
  have permuted := mergeSort_perm (map.map fst) textLe
  have sorted : ((map.map fst).mergeSort textLe).Pairwise
      fun first second => textLe first second = true :=
    pairwise_mergeSort textLe_trans textLe_total (map.map fst)
  have remains : (map.map fst).mergeSort textLe ≠ [] := by
    intro empty
    rw [empty] at permuted
    exact nonempty (map_eq_nil_iff.mp permuted.symm.eq_nil)
  obtain ⟨front, version, split⟩ : ∃ front version,
      (map.map fst).mergeSort textLe = front ++ [version] :=
    ⟨_, _, (dropLast_append_getLast remains).symm⟩
  rw [split] at permuted sorted
  refine ⟨version, by simp [latest, split], permuted.mem_iff.mp (by simp), ?_⟩
  intro other member
  rcases mem_append.mp (permuted.mem_iff.mpr member) with earlier | last
  · exact (pairwise_append.mp sorted).2.2 other earlier version (by simp)
  · rw [mem_singleton.mp last]
    simp [textLe]

@[simp] theorem quorum_le_iff (hosts count : Nat) : quorum hosts ≤ count ↔ hosts < 2 * count := by
  unfold quorum
  split <;> omega

variable {host : Host} {version : Nat}

section Counting

variable (survey : Survey)

theorem result_eq_iff (positive : version ≠ 0) : survey.result host = version ↔
    survey.alive host = true ∧ survey.version host = version := by
  unfold Survey.result
  split
  next alive => simp [alive]
  next dead => simp [dead, positive.symm]

theorem countP_result (positive : version ≠ 0) :
    (survey.hosts.countP fun host => survey.result host == version) =
      survey.holders survey.alive version := by
  refine countP_congr fun host _ => ?_
  simp [result_eq_iff survey positive]

theorem countP_add_countP_le (list : List Host) (first second : Host → Bool)
    (disjoint : ∀ host ∈ list, second host = true → first host = false) :
    list.countP first + list.countP second ≤ list.length := by
  rw [length_eq_countP_add_countP first]
  refine Nat.add_le_add_left (countP_mono_left ?_) _
  intro host member holds
  simp [disjoint host member holds]

variable {state : Host → Bool}

theorem Majority.unique {first second : Nat}
    (firstHeld : survey.Majority state first) (secondHeld : survey.Majority state second) :
    first = second := by
  by_contra different
  have disjoint : survey.holders state first + survey.holders state second ≤
      survey.hosts.length := by
    refine countP_add_countP_le survey.hosts _ _ fun host _ holds => ?_
    simp only [Bool.and_eq_true, beq_iff_eq] at holds
    simp [holds.2, Ne.symm different]
  unfold Survey.Majority at firstHeld secondHeld
  omega

theorem Majority.exists_holder (held : survey.Majority state version) :
    ∃ host ∈ survey.hosts, state host = true ∧ survey.version host = version := by
  have positive : 0 < survey.holders state version := by
    unfold Survey.Majority at held
    omega
  obtain ⟨host, present, holds⟩ := countP_pos_iff.mp positive
  simp only [Bool.and_eq_true, beq_iff_eq] at holds
  exact ⟨host, present, holds⟩

theorem known_eq_alive (alive : survey.alive survey.hostId = true) :
    survey.known = survey.alive := by
  funext host
  by_cases same : host = survey.hostId
  · simp [Survey.known, same, alive]
  · simp [Survey.known, same]

theorem holders_known_of_dead (dead : survey.alive survey.hostId = false)
    (version : Nat) :
    survey.holders survey.known version =
      survey.holders survey.alive version +
        if version = survey.version survey.hostId then 1 else 0 := by
  have others : ∀ host ∈ survey.hosts.erase survey.hostId,
      survey.known host = survey.alive host := by
    intro host member
    have different := (survey.hosts_nodup.mem_erase_iff.mp member).1
    simp [Survey.known, different]
  have rest : ((survey.hosts.erase survey.hostId).countP fun host =>
        survey.known host && survey.version host == version) =
      (survey.hosts.erase survey.hostId).countP fun host =>
        survey.alive host && survey.version host == version :=
    countP_congr fun host member => by rw [others host member]
  have front := perm_cons_erase survey.hostId_mem
  unfold Survey.holders
  rw [front.countP_eq, front.countP_eq, countP_cons, countP_cons, rest]
  by_cases same : version = survey.version survey.hostId
  · simp [Survey.known, dead, same]
  · have different : ¬ survey.version survey.hostId = version := Ne.symm same
    simp [dead, same, different]

end Counting

theorem length_le_of_keys {keys : List Nat} (distinct : keys.Nodup)
    (within : ∀ version ∈ keys, version ∈ map.map fst) : keys.length ≤ map.length := by
  have longer := (subperm_of_subset distinct within).length_le
  simpa using longer

namespace IsVersionsMap

variable {survey : Survey} (valid : IsVersionsMap survey map)

include valid

theorem ne_nil : map ≠ [] := by
  rintro rfl
  obtain ⟨servers, member⟩ := valid.covers survey.hostId survey.hostId_mem
  simp at member

theorem version_mem (present : host ∈ survey.hosts)
    (alive : survey.alive host = true) : survey.version host ∈ map.map fst := by
  obtain ⟨servers, member⟩ := valid.covers host present
  have result : survey.result host = survey.version host := by simp [Survey.result, alive]
  exact mem_map.mpr ⟨_, member, result⟩

theorem exists_first (member : version ∈ map.map fst) (positive : version ≠ 0) :
    ∃ host rest, (version, host :: rest) ∈ map ∧ host ∈ survey.hosts ∧
      survey.alive host = true ∧ survey.version host = version := by
  obtain ⟨⟨_, servers⟩, entry, rfl⟩ := mem_map.mp member
  obtain ⟨server, rest, rfl⟩ := exists_cons_of_ne_nil (valid.held _ _ entry)
  have reported := (valid.mem_iff _ _ entry server).mp (by simp)
  exact ⟨server, rest, entry, reported.1, (result_eq_iff survey positive).mp reported.2⟩

theorem syncFrom_holds (membership : version ∈ map.map fst) (positive : version ≠ 0) :
    ∃ host ∈ survey.hosts, syncFrom survey map version = some host ∧
      survey.known host = true ∧ survey.version host = version := by
  unfold syncFrom
  split
  next own => exact ⟨survey.hostId, survey.hostId_mem, rfl, by simp [Survey.known], own.symm⟩
  · obtain ⟨server, rest, entry, member, alive, holds⟩ := valid.exists_first membership positive
    refine ⟨server, member, ?_, by simp [Survey.known, alive], holds⟩
    rw [(lookup_eq_some_iff_mem valid.keys_nodup).mpr entry]
    rfl

theorem latest_recent {witness : Host} (present : witness ∈ survey.hosts)
    (alive : survey.alive witness = true) :
    ∃ version, latest map = some version ∧ version ≠ 0 ∧
      version ∈ map.map fst ∧
      ∀ host ∈ survey.hosts, survey.alive host = true →
        survey.version host ≤ version := by
  obtain ⟨version, found, membership, after⟩ := latest_spec valid.ne_nil
  have positive : version ≠ 0 := by
    rintro rfl
    have before := after _ (valid.version_mem present alive)
    simp only [textLe, decide_eq_true_eq] at before
    exact absurd before (toDigits_zero_lt (survey.version_pos witness present)).not_ge
  refine ⟨version, found, positive, membership, ?_⟩
  intro host member answers
  obtain ⟨holder, _, _, holderMember, _, rfl⟩ := valid.exists_first membership positive
  have before := after _ (valid.version_mem member answers)
  simp only [textLe, decide_eq_true_eq] at before
  exact (toDigits_le_iff (survey.sameDigits host member holder holderMember)).mp before

theorem keys_length_le (keys : List Nat) (within : ∀ version ∈ map.map fst, version ∈ keys) :
    map.length ≤ keys.length := by
  have shorter := (subperm_of_subset valid.keys_nodup within).length_le
  simpa using shorter

theorem unchanged_of_agree (agree : survey.Agree survey.alive) :
    handleConfigConflict survey map = none := by
  obtain ⟨common, within⟩ : ∃ common, ∀ version ∈ map.map fst,
      version = 0 ∨ version = common := by
    by_cases silent : ∀ host ∈ survey.hosts, survey.alive host = false
    · refine ⟨0, fun version member => .inl ?_⟩
      by_contra positive
      obtain ⟨host, _, _, present, alive, _⟩ := valid.exists_first member positive
      simp [silent host present] at alive
    · simp only [not_forall, Bool.not_eq_false] at silent
      obtain ⟨first, firstMember, firstAlive⟩ := silent
      refine ⟨survey.version first, fun version member => ?_⟩
      by_cases zero : version = 0
      · exact .inl zero
      · obtain ⟨host, _, _, present, alive, rfl⟩ := valid.exists_first member zero
        exact .inr (agree host present alive first firstMember firstAlive)
  have short : map.length ≤ 2 := by
    have bounded := valid.keys_length_le [0, common] (by simpa using within)
    simpa using bounded
  unfold handleConfigConflict
  split
  · rfl
  next unhealthy =>
    have single : ¬ 1 < map.length := by
      intro several
      have two : map.length = 2 := by omega
      by_cases zero : 0 ∈ map.map fst
      · obtain ⟨⟨_, servers⟩, entry, rfl⟩ := mem_map.mp zero
        refine unhealthy ⟨two, ?_⟩
        rw [(lookup_eq_some_iff_mem valid.keys_nodup).mpr entry]
        simpa using length_pos_iff.mpr (valid.held _ _ entry)
      · have bounded := valid.keys_length_le [common] (by
          intro version member
          rcases within version member with rfl | same
          · exact absurd member zero
          · simp [same])
        simp at bounded
        omega
    rw [if_neg single]

theorem mostServers_of_majority (held : survey.Majority survey.alive version) :
    (mostServers map).2 = version ∧ survey.hosts.length < 2 * (mostServers map).1 := by
  obtain ⟨host, present, alive, rfl⟩ := Majority.exists_holder survey held
  have positive : survey.version host ≠ 0 := (survey.version_pos host present).ne'
  obtain ⟨⟨key, servers⟩, entry, same⟩ := mem_map.mp (valid.version_mem present alive)
  change key = survey.version host at same
  subst key
  obtain ⟨⟨most, mostEntry, count⟩, bounded⟩ := mostServers_spec valid.ne_nil valid.held
  have length := valid.length_eq _ _ entry
  have mostLength := valid.length_eq _ _ mostEntry
  have most := bounded _ _ entry
  rw [countP_result survey positive] at length
  unfold Survey.Majority at held
  refine ⟨?_, by omega⟩
  by_contra different
  have disjoint := countP_add_countP_le survey.hosts
    (fun other => survey.result other == (mostServers map).2)
    (fun other => survey.result other == survey.version host)
    fun other _ holds => by
      simp only [beq_iff_eq] at holds
      simp [holds, Ne.symm different]
  rw [countP_result survey positive] at disjoint
  omega

theorem master_of_latest {witness : Host} (present : witness ∈ survey.hosts)
    (alive : survey.alive witness = true) :
    ∃ host ∈ survey.hosts, (latest map).bind (syncFrom survey map) = some host ∧
      survey.known host = true ∧
      (∃ holder ∈ survey.hosts, survey.alive holder = true ∧
        survey.version holder = survey.version host) ∧
      ∀ other ∈ survey.hosts, survey.alive other = true →
        survey.version other ≤ survey.version host := by
  obtain ⟨version, found, positive, membership, recent⟩ := valid.latest_recent present alive
  obtain ⟨host, member, syncs, known, rfl⟩ := valid.syncFrom_holds membership positive
  obtain ⟨holder, _, _, holds⟩ := valid.exists_first membership positive
  exact ⟨host, member, by rw [found]; exact syncs, known, ⟨holder, holds⟩, recent⟩

theorem several_of_disagree (disagree : ¬ survey.Agree survey.alive) :
    1 < map.length ∧
      ¬ (map.length = 2 ∧
        (map.lookup 0).any (fun servers => 0 < servers.length) = true) := by
  simp only [Survey.Agree, not_forall] at disagree
  obtain ⟨first, firstMember, firstAlive, second, secondMember, secondAlive, different⟩ := disagree
  have firstKey := valid.version_mem firstMember firstAlive
  have secondKey := valid.version_mem secondMember secondAlive
  constructor
  · have distinct : [survey.version first, survey.version second].Nodup := by
      simpa using different
    refine length_le_of_keys distinct ?_
    simp only [forall_mem_cons]
    exact ⟨firstKey, secondKey, by simp⟩
  · rintro ⟨two, dead⟩
    obtain ⟨servers, found, _⟩ := (Option.any_eq_true _ _).mp dead
    have zeroKey : 0 ∈ map.map fst := mem_map_of_mem
      ((lookup_eq_some_iff_mem valid.keys_nodup).mp found)
    have firstPositive := survey.version_pos first firstMember
    have secondPositive := survey.version_pos second secondMember
    have distinct : [0, survey.version first, survey.version second].Nodup := by
      simp [different, firstPositive.ne, secondPositive.ne]
    have three : 3 ≤ map.length := by
      refine length_le_of_keys distinct ?_
      simp only [forall_mem_cons]
      exact ⟨zeroKey, firstKey, secondKey, by simp⟩
    omega

theorem handleConfigConflict_of_disagree (disagree : ¬ survey.Agree survey.alive) :
    handleConfigConflict survey map =
      if (mostServers map).2 ≠ 0 ∧ quorum survey.hosts.length ≤ (mostServers map).1 then
        syncFrom survey map (mostServers map).2
      else
        (latest map).bind (syncFrom survey map) := by
  obtain ⟨several, unhealthy⟩ := valid.several_of_disagree disagree
  unfold handleConfigConflict
  rw [if_neg unhealthy, if_pos several, if_pos survey.two_lt_length]
  by_cases zero : (mostServers map).2 = 0
  · simp [zero]
  · simp [zero]

theorem majority_of_scanned (positive : (mostServers map).2 ≠ 0)
    (enough : quorum survey.hosts.length ≤ (mostServers map).1) :
    survey.Majority survey.alive (mostServers map).2 := by
  obtain ⟨⟨most, entry, count⟩, _⟩ := mostServers_spec valid.ne_nil valid.held
  have length := valid.length_eq _ _ entry
  rw [countP_result survey positive] at length
  have strict := (quorum_le_iff _ _).mp enough
  unfold Survey.Majority
  omega

theorem scanned_of_majority (majority : survey.Majority survey.alive version) :
    (mostServers map).2 ≠ 0 ∧ quorum survey.hosts.length ≤ (mostServers map).1 := by
  obtain ⟨rfl, enough⟩ := valid.mostServers_of_majority majority
  obtain ⟨holder, member, _, holds⟩ := Majority.exists_holder survey majority
  have positive := survey.version_pos holder member
  exact ⟨by omega, (quorum_le_iff _ _).mpr enough⟩

/-- If the answering hosts disagree, a host is made master that holds the
version of a majority of answering hosts, or the most recent version of an
answering host. -/
theorem master_of_disagree (disagree : ¬ survey.Agree survey.alive) :
    ∃ host ∈ survey.hosts, handleConfigConflict survey map = some host ∧
      survey.known host = true ∧
      (∀ version, survey.Majority survey.alive version →
        survey.version host = version) ∧
      ((∀ version, ¬ survey.Majority survey.alive version) →
        (∃ holder ∈ survey.hosts, survey.alive holder = true ∧
          survey.version holder = survey.version host) ∧
        ∀ other ∈ survey.hosts, survey.alive other = true →
          survey.version other ≤ survey.version host) := by
  rw [valid.handleConfigConflict_of_disagree disagree]
  split
  next scanned =>
    have held := valid.majority_of_scanned scanned.1 scanned.2
    obtain ⟨⟨most, entry, _⟩, _⟩ := mostServers_spec valid.ne_nil valid.held
    obtain ⟨host, member, syncs, known, holds⟩ :=
      valid.syncFrom_holds (mem_map_of_mem entry) scanned.1
    refine ⟨host, member, syncs, known, ?_, fun none => absurd held (none _)⟩
    intro version majority
    rw [holds, (valid.mostServers_of_majority majority).1]
  next unscanned =>
    simp only [Survey.Agree, not_forall] at disagree
    obtain ⟨first, firstMember, firstAlive, _⟩ := disagree
    obtain ⟨recent, recentMember, latestSyncs, recentKnown, recentHolds⟩ :=
      valid.master_of_latest firstMember firstAlive
    exact ⟨recent, recentMember, latestSyncs, recentKnown,
      fun version majority => absurd (valid.scanned_of_majority majority) unscanned,
      fun _ => recentHolds⟩

end IsVersionsMap

namespace Survey

variable (survey : Survey)

/-- The local webservice answers, or leaving its version out of the count makes
no difference: every host that answers has that version, or the hosts that
answer disagree and either have a majority without the local host, or have a
version at least as recent, which is the local one if that has a majority. -/
def Unaffected : Prop :=
  survey.alive survey.hostId = true ∨
    (∀ host ∈ survey.hosts, survey.alive host = true →
      survey.version host = survey.version survey.hostId) ∨
    (¬ survey.Agree survey.alive ∧
      ((∃ version, survey.Majority survey.alive version) ∨
        ((∃ host ∈ survey.hosts, survey.alive host = true ∧
            survey.version survey.hostId ≤ survey.version host) ∧
          (survey.hosts.length <
              2 * (survey.holders survey.alive (survey.version survey.hostId) + 1) →
            ∀ host ∈ survey.hosts, survey.alive host = true →
              survey.version host ≤ survey.version survey.hostId))))

/-- A master that is right for the count with the local version. -/
def Right (master : Host) : Prop :=
  (∀ version, survey.Majority survey.known version → survey.version master = version) ∧
    ((∀ version, ¬ survey.Majority survey.known version) →
      ∀ other ∈ survey.hosts, survey.known other = true →
        survey.version other ≤ survey.version master)

variable {survey}

theorem known_of_alive (alive : survey.alive host = true) :
    survey.known host = true := by simp [known, alive]

theorem disagree_known (disagree : ¬ survey.Agree survey.alive) : ¬ survey.Agree survey.known := by
  intro agree
  apply disagree
  intro first firstMember firstAlive second secondMember secondAlive
  exact agree first firstMember (known_of_alive firstAlive) second secondMember
    (known_of_alive secondAlive)

theorem agree_known_iff :
    survey.Agree survey.known ↔
      ∀ host ∈ survey.hosts, survey.alive host = true →
        survey.version host = survey.version survey.hostId := by
  constructor
  · intro known host present alive
    exact known host present (known_of_alive alive) survey.hostId survey.hostId_mem
      (by simp [Survey.known])
  · intro same first firstMember firstKnown second secondMember secondKnown
    have value : ∀ host ∈ survey.hosts, survey.known host = true →
        survey.version host = survey.version survey.hostId := by
      intro host present known
      rcases Bool.or_eq_true_iff.mp known with alive | own
      · exact same host present alive
      · rw [beq_iff_eq.mp own]
    rw [value first firstMember firstKnown, value second secondMember secondKnown]

theorem majority_known_of_alive (majority : survey.Majority survey.alive version) :
    survey.Majority survey.known version := by
  have more : survey.holders survey.alive version ≤ survey.holders survey.known version := by
    refine countP_mono_left fun host _ holds => ?_
    simp only [Bool.and_eq_true] at holds ⊢
    exact ⟨known_of_alive holds.1, holds.2⟩
  unfold Majority at majority ⊢
  omega

section Dead

variable (dead : survey.alive survey.hostId = false)

include dead

theorem majority_own_iff_of_dead :
    survey.Majority survey.known (survey.version survey.hostId) ↔
      survey.hosts.length <
        2 * (survey.holders survey.alive (survey.version survey.hostId) + 1) := by
  have more := holders_known_of_dead survey dead (survey.version survey.hostId)
  rw [if_pos rfl] at more
  unfold Majority
  rw [more]

theorem eq_own_of_majority (none : ∀ version, ¬ survey.Majority survey.alive version)
    (held : survey.Majority survey.known version) : version = survey.version survey.hostId := by
  by_contra different
  have same := holders_known_of_dead survey dead version
  rw [if_neg different, Nat.add_zero] at same
  apply none version
  unfold Majority at held ⊢
  rwa [same] at held

variable (none : ∀ version, ¬ survey.Majority survey.alive version) {holder : Host}

include none

theorem right_iff (member : holder ∈ survey.hosts) (alive : survey.alive holder = true)
    (holds : survey.version holder = survey.version master)
    (bounded : ∀ other ∈ survey.hosts, survey.alive other = true →
      survey.version other ≤ survey.version master) :
    survey.Right master ↔
      (∃ host ∈ survey.hosts, survey.alive host = true ∧
          survey.version survey.hostId ≤ survey.version host) ∧
        (survey.Majority survey.known (survey.version survey.hostId) →
          ∀ host ∈ survey.hosts, survey.alive host = true →
            survey.version host ≤ survey.version survey.hostId) := by
  by_cases decisive : survey.Majority survey.known (survey.version survey.hostId)
  · constructor
    · rintro ⟨right, _⟩
      have same := right _ decisive
      refine ⟨⟨holder, member, alive, ?_⟩, ?_⟩
      · rw [holds, same]
      · intro _ host present answers
        exact same ▸ bounded host present answers
    · rintro ⟨⟨host, present, answers, atLeast⟩, atMost⟩
      have upper := atMost decisive holder member alive
      have lower := atLeast.trans (bounded host present answers)
      have same : survey.version master = survey.version survey.hostId :=
        le_antisymm (holds ▸ upper) lower
      refine ⟨?_, fun undecided => absurd decisive (undecided _)⟩
      intro version held
      rw [same, eq_own_of_majority dead none held]
  · have nobody : ∀ version, ¬ survey.Majority survey.known version := by
      intro version held
      exact decisive (eq_own_of_majority dead none held ▸ held)
    constructor
    · rintro ⟨_, right⟩
      refine ⟨⟨holder, member, alive, ?_⟩, fun decided => absurd decided decisive⟩
      rw [holds]
      exact right nobody survey.hostId survey.hostId_mem (by simp [Survey.known])
    · rintro ⟨⟨host, present, answers, atLeast⟩, _⟩
      refine ⟨fun version held => absurd held (nobody version), ?_⟩
      intro _ other otherMember known
      rcases Bool.or_eq_true_iff.mp known with replies | itself
      · exact bounded other otherMember replies
      · rw [beq_iff_eq.mp itself]
        exact atLeast.trans (bounded host present answers)

end Dead

end Survey

open Survey

theorem resolved_iff_of_made {survey : Survey}
    (disagree : ¬ survey.Agree survey.alive) (member : master ∈ survey.hosts)
    (known : survey.known master = true) (made : handleConfigConflict survey map = some master) :
    Resolved survey (handleConfigConflict survey map) ↔ survey.Right master := by
  rw [made]
  constructor
  · rintro (⟨_, none⟩ | ⟨_, host, _, same, _, right⟩)
    · simp at none
    · cases same
      exact right
  · intro right
    exact .inr ⟨disagree_known disagree, master, member, rfl, known, right⟩

section Resolution

variable {survey : Survey} (valid : IsVersionsMap survey map)

include valid

theorem resolved_of_local_alive (alive : survey.alive survey.hostId = true) :
    Resolved survey (handleConfigConflict survey map) := by
  have known := known_eq_alive survey alive
  unfold Resolved
  rw [known]
  by_cases agree : survey.Agree survey.alive
  · exact .inl ⟨agree, valid.unchanged_of_agree agree⟩
  · obtain ⟨host, member, master, holds, majority, recent⟩ :=
      valid.master_of_disagree agree
    rw [known] at holds
    exact .inr ⟨agree, host, member, master, holds, majority, fun none => (recent none).2⟩

theorem resolved_iff_of_agree (agree : survey.Agree survey.alive) :
    Resolved survey (handleConfigConflict survey map) ↔
      survey.Agree survey.known := by
  rw [valid.unchanged_of_agree agree]
  constructor
  · rintro (⟨same, _⟩ | ⟨_, host, _, master, _⟩)
    · exact same
    · simp at master
  · intro same
    exact .inl ⟨same, rfl⟩

theorem resolved_iff_of_dead (dead : survey.alive survey.hostId = false)
    (disagree : ¬ survey.Agree survey.alive) :
    Resolved survey (handleConfigConflict survey map) ↔
      (∃ version, survey.Majority survey.alive version) ∨
        ((∃ host ∈ survey.hosts, survey.alive host = true ∧
            survey.version survey.hostId ≤ survey.version host) ∧
          (survey.hosts.length <
              2 * (survey.holders survey.alive (survey.version survey.hostId) + 1) →
            ∀ host ∈ survey.hosts, survey.alive host = true →
              survey.version host ≤ survey.version survey.hostId)) := by
  obtain ⟨master, member, made, known, majority, recent⟩ := valid.master_of_disagree disagree
  rw [resolved_iff_of_made disagree member known made]
  by_cases counted : ∃ version, survey.Majority survey.alive version
  · obtain ⟨version, held⟩ := counted
    have holds := majority version held
    refine iff_of_true ⟨?_, ?_⟩ (.inl ⟨version, held⟩)
    · intro other otherHeld
      rw [holds]
      exact Majority.unique survey (majority_known_of_alive held) otherHeld
    · intro none
      exact absurd (majority_known_of_alive held) (none version)
  · have none : ∀ version, ¬ survey.Majority survey.alive version :=
      fun version held => counted ⟨version, held⟩
    obtain ⟨⟨holder, holderMember, holderAlive, holderVersion⟩, bounded⟩ := recent none
    rw [or_iff_right counted, ← majority_own_iff_of_dead dead]
    exact right_iff dead none holderMember holderAlive holderVersion bounded

end Resolution

/-- Whatever the iteration orders of the hashes are, the conflict is resolved
exactly if the local version is counted or would make no difference. -/
theorem config_conflict_resolved_iff (survey : Survey) {order : List Host}
    {map : VersionsMap} (servers : order.Perm survey.hosts)
    (pairs : map.Perm (survey.getAllConfigVersion order)) :
    Resolved survey (handleConfigConflict survey map) ↔ survey.Unaffected := by
  have valid := isVersionsMap_of_perm survey servers pairs
  unfold Unaffected
  cases alive : survey.alive survey.hostId with
  | true => exact iff_of_true (resolved_of_local_alive valid alive) (.inl rfl)
  | false =>
    by_cases agree : survey.Agree survey.alive
    · rw [resolved_iff_of_agree valid agree, agree_known_iff]
      simp [agree]
    · rw [resolved_iff_of_dead valid alive agree]
      have differs : ¬ ∀ host ∈ survey.hosts, survey.alive host = true →
          survey.version host = survey.version survey.hostId := by
        intro same
        apply agree
        intro first firstMember firstAlive second secondMember secondAlive
        rw [same first firstMember firstAlive, same second secondMember secondAlive]
      simp [differs, agree]

namespace Example

/-- Three hosts of which the first runs the check with its own webservice dead
or alive and an older or newer configuration than the other two. -/
def survey (answers : Bool) (own : Nat) (digits : own = 1620000000 ∨ own = 1640000000) :
    Survey where
  hosts := ["pf1", "pf2", "pf3"]
  hostId := "pf1"
  version := fun host => if host = "pf1" then own else 1630000000
  alive := fun host => answers || host != "pf1"
  hosts_nodup := by decide
  hostId_mem := by decide
  two_lt_length := by decide
  version_pos := by rcases digits with rfl | rfl <;> decide
  sameDigits := by rcases digits with rfl | rfl <;> decide

end Example

open Example

/-- With the local webservice alive the majority wins over the newer local
version. -/
theorem config_conflict_resolved_by_majority :
    handleConfigConflict (survey true 1640000000 (.inr rfl))
        [(1630000000, ["pf2", "pf3"]), (1640000000, ["pf1"])] = some "pf2" ∧
      Resolved (survey true 1640000000 (.inr rfl)) (some "pf2") := by
  have master : handleConfigConflict (survey true 1640000000 (.inr rfl))
      [(1630000000, ["pf2", "pf3"]), (1640000000, ["pf1"])] = some "pf2" := by decide
  have servers : ["pf2", "pf1", "pf3"].Perm (survey true 1640000000 (.inr rfl)).hosts := by decide
  have pairs : [(1630000000, ["pf2", "pf3"]), (1640000000, ["pf1"])].Perm
      ((survey true 1640000000 (.inr rfl)).getAllConfigVersion ["pf2", "pf1", "pf3"]) := by decide
  have resolved := (config_conflict_resolved_iff _ servers pairs).mpr (.inl rfl)
  exact ⟨master, master ▸ resolved⟩

/-- The two other hosts have the majority, but with the local webservice dead
nothing is pushed. -/
theorem config_conflict_ignored_when_local_dead :
    ¬ ∀ (survey : Survey) (order : List Host) (map : VersionsMap), order.Perm survey.hosts →
      map.Perm (survey.getAllConfigVersion order) →
      Resolved survey (handleConfigConflict survey map) := by
  intro always
  have resolved := always (survey false 1640000000 (.inr rfl)) ["pf1", "pf2", "pf3"]
    [(0, ["pf1"]), (1630000000, ["pf2", "pf3"])] (by decide) (by decide)
  have unchanged : handleConfigConflict (survey false 1640000000 (.inr rfl))
      [(0, ["pf1"]), (1630000000, ["pf2", "pf3"])] = none := by decide
  rw [unchanged] at resolved
  rcases resolved with ⟨agree, _⟩ | ⟨_, host, _, made, _⟩
  · have same := agree "pf1" (by decide) (by decide) "pf2" (by decide) (by decide)
    exact absurd same (by decide)
  · simp at made

end PacketFence.Cluster
