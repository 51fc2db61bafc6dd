import PacketFence.Switch.Lookup

/-!
# The agreement of the two lookups

An entry is found by both lookups alike. A range is found alike where the usable
addresses of the most specific one decide: RADIUS compares with the first and the
last usable address and takes the shortest range, the switch factory asks for
containment and takes the first of the sorted ranges.
-/

namespace PacketFence.Switch

open Foundations List Option Scan Network

/-- `range_length` under a mask. -/
def lengthOf (masklen : Fin 33) : Nat := min (numOf masklen) (2 ^ 31 - 1)

theorem numOf_eq_one_iff : ∀ masklen : Fin 33, numOf masklen = 1 ↔ masklen = 32 := by decide

theorem two_le_lengthOf : ∀ masklen : Fin 33, masklen ≠ 32 → 2 ≤ lengthOf masklen := by decide

theorem lengthOf_lt : ∀ short long : Fin 33, short < long → long ≠ 32 →
    ¬ (short = 30 ∧ long = 31) → lengthOf long < lengthOf short := by decide

theorem hostsOf_pos (masklen : Fin 33) : 0 < hostsOf masklen := Nat.two_pow_pos _

theorem four_le_hostsOf : ∀ masklen : Fin 33, masklen < 31 → 4 ≤ hostsOf masklen := by decide

variable {net other : Network} {ip : BitVec 32}

namespace Network

theorem contains_iff :
    net.contains ip = true ↔ net.network ≤ ip.toNat ∧ ip.toNat ≤ net.broadcast := by
  have positive := hostsOf_pos net.masklen
  rw [contains, decide_eq_true_eq, Nat.div_eq_iff positive]
  rfl

theorem contains_of_usable (usable : net.usable ip) : net.contains ip = true := by
  obtain ⟨low, high⟩ := usable
  unfold first at low
  unfold last at high
  rw [contains_iff]
  split at low <;> split at high <;> omega

theorem usable_single (single : net.masklen = 32) : net.usable ip ↔ ip = net.address := by
  have hosts : hostsOf 32 = 1 := rfl
  have narrow : ¬ (32 : Fin 33) < 31 := by decide
  simp only [usable, first, last, broadcast, network, single, hosts, narrow, if_false,
    Nat.div_one, Nat.mul_one, ← BitVec.toNat_inj]
  omega

theorem length_range : min (net.last - net.first + 1) (2 ^ 31 - 1) = lengthOf net.masklen := by
  have addresses : net.last - net.first + 1 = numOf net.masklen := by
    unfold last first numOf broadcast
    split
    next wide =>
      have := four_le_hostsOf net.masklen wide
      omega
    · have := hostsOf_pos net.masklen
      omega
  rw [addresses, lengthOf]

theorem network_eq (same : net.masklen = other.masklen) (inside : net.contains ip = true)
    (also : other.contains ip = true) : net.network = other.network := by
  simp only [contains, decide_eq_true_eq] at inside also
  rw [network, network, ← inside, same, also]

end Network

section Lookups

variable {ids : List Id} {mac : BitVec 48} {row : NasRow}

@[simp] theorem buildRadiusNasRow_range (net : Network) :
    buildRadiusNasRow (.range net) = ⟨.range net, net.first, net.last, lengthOf net.masklen⟩ := by
  rw [← net.length_range]
  rfl

@[simp] theorem nasname_buildRadiusNasRow (id : Id) : (buildRadiusNasRow id).nasname = id := by
  cases id <;> rfl

@[simp] theorem mem_populateNasConfig :
    row ∈ populateNasConfig ids ↔ ∃ id ∈ ids, id ≠ localhost ∧ buildRadiusNasRow id = row := by
  simp [populateNasConfig, and_assoc]

variable {id : Id}

theorem matches_iff_usable (isNet : id.netaddr? = some net) :
    (buildRadiusNasRow id).matches ip = true ↔ net.usable ip := by
  simp only [buildRadiusNasRow, isNet, NasRow.matches, Bool.and_eq_true, decide_eq_true_eq]
  rfl

theorem range_mem_populateNasConfig (configured : .range net ∈ ids) :
    buildRadiusNasRow (.range net) ∈ populateNasConfig ids :=
  mem_populateNasConfig.mpr ⟨_, configured, by simp [localhost], rfl⟩

theorem cases_of_matches (unlisted : .address ip ∉ ids) (present : row ∈ populateNasConfig ids)
    (matching : row.matches ip = true) :
    (∃ mac, .mac mac ∈ ids ∧ ip = 0 ∧ row = buildRadiusNasRow (.mac mac)) ∨
      ∃ net, .range net ∈ ids ∧ net.usable ip ∧ row = buildRadiusNasRow (.range net) := by
  obtain ⟨id, configured, _, rfl⟩ := mem_populateNasConfig.mp present
  cases id with
  | mac mac =>
    left
    refine ⟨mac, configured, ?_, rfl⟩
    have zero : ip.toNat ≤ 0 := by
      simpa [buildRadiusNasRow, Id.netaddr?, NasRow.matches] using matching
    exact BitVec.eq_of_toNat_eq (Nat.le_zero.mp zero)
  | address other =>
    have usable := (matches_iff_usable rfl).mp matching
    rw [(usable_single rfl).mp usable] at unlisted
    exact absurd configured unlisted
  | range net => exact Or.inr ⟨net, configured, (matches_iff_usable rfl).mp matching, rfl⟩

theorem find?_nasname_eq_none (absent : id ∉ ids) :
    (populateNasConfig ids).find? (·.nasname = id) = none := by
  refine find?_eq_none.mpr fun row present named => ?_
  obtain ⟨other, configured, _, rfl⟩ := mem_populateNasConfig.mp present
  rw [nasname_buildRadiusNasRow, decide_eq_true_eq] at named
  exact absent (named ▸ configured)

theorem switchLookup_eq (scan : Scan NasRow) (unknown : .mac mac ∉ ids)
    (unlisted : .address ip ∉ ids) :
    switchLookup scan (populateNasConfig ids) mac ip =
      scan.firstBy NasRow.rangeLength (NasRow.matches ip) (populateNasConfig ids) := by
  rw [switchLookup, find?_nasname_eq_none unknown, find?_nasname_eq_none unlisted, none_or, none_or]

theorem mem_switchConfig : id ∈ switchConfig ids ↔ id = localhost ∨ id ∈ ids :=
  List.mem_insert_iff

theorem mem_switchRanges {range : Network × Id} :
    range ∈ switchRanges ids ↔
      range.2 = .range range.1 ∧ .range range.1 ∈ ids ∧ range.1.masklen ≠ 32 := by
  obtain ⟨net, id⟩ := range
  simp only [switchRanges, mem_filterMap, mem_switchConfig, bind_eq_some_iff,
    ite_none_left_eq_some, num, numOf_eq_one_iff, Option.some.injEq, Prod.mk.injEq]
  constructor
  · rintro ⟨id, configured, net, isNet, wide, rfl, rfl⟩
    cases id with
    | mac mac => cases isNet
    | address ip =>
      cases isNet
      exact absurd rfl wide
    | range other =>
      cases isNet
      refine ⟨rfl, ?_, wide⟩
      rcases configured with same | configured
      · cases same
      · exact configured
  · rintro ⟨rfl, configured, wide⟩
    exact ⟨_, Or.inr configured, net, rfl, wide, rfl, rfl⟩

/-- Without an exact entry the most specific range is instantiated, if there is one. -/
theorem instantiate_cases (scan : Scan (Network × Id)) (unlisted : .address ip ∉ switchConfig ids) :
    (∃ net, instantiate scan ids ip = some (.range net) ∧ ip ≠ 0 ∧ MostSpecific ids ip net) ∨
      instantiate scan ids ip = none ∧
        (ip ≠ 0 → ∀ net, .range net ∈ ids → net.masklen ≠ 32 → net.contains ip = false) := by
  rw [instantiate, if_neg unlisted]
  by_cases zero : ip = 0
  · exact .inr ⟨by simp [validIp, zero], fun valid => absurd zero valid⟩
  have valid : validIp ip = true := decide_eq_true zero
  rw [if_pos valid]
  cases found : scan.firstBy (fun range => OrderDual.toDual range.1.masklen)
      (fun range => range.1.contains ip) (switchRanges ids) with
  | none =>
    refine Or.inr ⟨rfl, fun _ net configured wide => ?_⟩
    exact firstBy_eq_none_iff.mp found (net, .range net)
      (mem_switchRanges.mpr ⟨rfl, configured, wide⟩)
  | some range =>
    obtain ⟨named, configured, wide⟩ := mem_switchRanges.mp (mem_of_firstBy found)
    have inside := wanted_of_firstBy found
    refine Or.inl ⟨range.1, congrArg some named, zero, ⟨configured, wide, inside⟩, ?_⟩
    intro other also otherWide otherInside
    have member : (other, Id.range other) ∈ switchRanges ids :=
      mem_switchRanges.mpr ⟨rfl, also, otherWide⟩
    exact key_le_of_firstBy found member otherInside

theorem MostSpecific.unique (distinct : DistinctNetworks ids)
    (specific : MostSpecific ids ip net) (also : MostSpecific ids ip other) : net = other := by
  obtain ⟨⟨configured, wide, inside⟩, longest⟩ := specific
  obtain ⟨⟨otherConfigured, otherWide, otherInside⟩, otherLongest⟩ := also
  have masks : net.masklen = other.masklen :=
    le_antisymm (otherLongest net configured wide inside)
      (longest other otherConfigured otherWide otherInside)
  have same := distinct _ configured _ otherConfigured net rfl other rfl masks
    (network_eq masks inside otherInside)
  exact Id.range.inj same

theorem switchLookup_of_plain (distinct : DistinctNetworks ids) (unknown : .mac mac ∉ ids)
    (unlisted : .address ip ∉ ids) (plain : PlainRange ids ip)
    (valid : ip ≠ 0) (specific : MostSpecific ids ip net) (scan : Scan NasRow) :
    (switchLookup scan (populateNasConfig ids) mac ip).map NasRow.nasname = some (.range net) := by
  have own := range_mem_populateNasConfig specific.1.1
  have matching : (buildRadiusNasRow (.range net)).matches ip = true :=
    (matches_iff_usable rfl).mpr (plain.usable valid net specific)
  rw [switchLookup_eq scan unknown unlisted]
  obtain ⟨row, found⟩ := scan.exists_firstBy NasRow.rangeLength own matching
  have shortest := key_le_of_firstBy found own matching
  rw [found, map_some]
  rcases cases_of_matches unlisted (mem_of_firstBy found) (wanted_of_firstBy found) with
    ⟨_, _, zero, _⟩ | ⟨other, configured, usable, rfl⟩
  · exact absurd zero valid
  · have wide : other.masklen ≠ 32 := fun single =>
      plain.single other configured single ((usable_single single).mp usable).symm
    have inside := contains_of_usable usable
    have notLonger := specific.2 other configured wide inside
    rw [buildRadiusNasRow_range, buildRadiusNasRow_range] at shortest
    have masks : other.masklen = net.masklen := by
      by_contra different
      have shorter := lt_of_le_of_ne notLonger different
      have longer := lengthOf_lt _ _ shorter specific.1.2.1 fun ⟨thirty, thirtyOne⟩ =>
        plain.point net specific thirtyOne other configured thirty usable
      exact absurd shortest (Nat.not_le.mpr longer)
    have same := distinct _ configured _ specific.1.1 other rfl net rfl masks
      (network_eq masks inside specific.1.2.2)
    rw [nasname_buildRadiusNasRow, same]

theorem switchLookup_of_none (unknown : .mac mac ∉ ids) (unlisted : .address ip ∉ ids)
    (plain : PlainRange ids ip)
    (outside : ip ≠ 0 → ∀ net, .range net ∈ ids → net.masklen ≠ 32 → net.contains ip = false)
    (scan : Scan NasRow) : switchLookup scan (populateNasConfig ids) mac ip = none := by
  rw [switchLookup_eq scan unknown unlisted, firstBy_eq_none_iff]
  intro row present
  by_contra matching
  rcases cases_of_matches unlisted present (Bool.eq_true_of_not_eq_false matching) with
    ⟨other, configured, zero, _⟩ | ⟨other, configured, usable, _⟩
  · exact (plain.zero zero).1 other configured
  · have wide : other.masklen ≠ 32 := fun single =>
      plain.single other configured single ((usable_single single).mp usable).symm
    have inside := contains_of_usable usable
    rw [outside (fun zero => (plain.zero zero).2 other configured usable) other configured wide]
      at inside
    exact absurd inside (by decide)

theorem switchLookup_of_listed (unknown : .mac mac ∉ ids) (listed : .address ip ∈ ids)
    (remote : .address ip ≠ localhost) (scan : Scan NasRow) :
    (switchLookup scan (populateNasConfig ids) mac ip).map NasRow.nasname = some (.address ip) := by
  have present : buildRadiusNasRow (.address ip) ∈ populateNasConfig ids :=
    mem_populateNasConfig.mpr ⟨_, listed, remote, rfl⟩
  rw [switchLookup, find?_nasname_eq_none unknown, none_or]
  cases found : (populateNasConfig ids).find? (·.nasname = .address ip) with
  | none =>
    have other := find?_eq_none.mp found _ present
    simp at other
  | some row =>
    have named := find?_some found
    rw [some_or, map_some, of_decide_eq_true named]

theorem mem_of_switchLookup {scan : Scan NasRow} {rows : List NasRow}
    (found : switchLookup scan rows mac ip = some row) : row ∈ rows := by
  rcases or_eq_some_iff.mp found with exact | ⟨_, ranged⟩
  · rcases or_eq_some_iff.mp exact with byMac | ⟨_, byIp⟩
    · exact mem_of_find?_eq_some byMac
    · exact mem_of_find?_eq_some byIp
  · exact mem_of_firstBy ranged

/-- Whatever rows come first, the query names the switch that is instantiated. -/
def LookupsAgree (ids : List Id) (mac : BitVec 48) (ip : BitVec 32) : Prop :=
  ∀ (scan : Scan NasRow) (order : Scan (Network × Id)),
    (switchLookup scan (populateNasConfig ids) mac ip).map NasRow.nasname =
      instantiate order ids ip

section Agree

variable (unknown : .mac mac ∉ ids) (unlisted : .address ip ∉ switchConfig ids)
  (agree : LookupsAgree ids mac ip)

include unknown unlisted agree

theorem row_of_agree (scan : Scan NasRow)
    (found : scan.firstBy NasRow.rangeLength (NasRow.matches ip) (populateNasConfig ids) =
      some row) :
    ∃ net, ip ≠ 0 ∧ MostSpecific ids ip net ∧ row = buildRadiusNasRow (.range net) := by
  have elsewhere : .address ip ∉ ids :=
    fun listed => unlisted (mem_switchConfig.mpr (Or.inr listed))
  have named := agree scan .inOrder
  rw [switchLookup_eq scan unknown elsewhere, found, map_some] at named
  rcases instantiate_cases .inOrder unlisted with ⟨net, chosen, valid, specific⟩ | ⟨none, _⟩
  · rw [chosen, Option.some.injEq] at named
    obtain ⟨id, _, _, rfl⟩ := mem_populateNasConfig.mp (mem_of_firstBy found)
    rw [nasname_buildRadiusNasRow] at named
    exact ⟨net, valid, specific, congrArg _ named⟩
  · rw [none] at named
    cases named

theorem two_le_rangeLength (present : row ∈ populateNasConfig ids)
    (matching : row.matches ip = true) : 2 ≤ row.rangeLength := by
  obtain ⟨first, found⟩ := inOrder.exists_firstBy NasRow.rangeLength present matching
  have shortest := key_le_of_firstBy found present matching
  obtain ⟨net, -, specific, rfl⟩ := row_of_agree unknown unlisted agree .inOrder found
  have wide := two_le_lengthOf net.masklen specific.1.2.1
  rw [buildRadiusNasRow_range] at shortest
  exact wide.trans shortest

theorem plainRange_of_agree (distinct : DistinctNetworks ids) : PlainRange ids ip where
  single := by
    rintro net configured single rfl
    have long := two_le_rangeLength unknown unlisted agree
      (range_mem_populateNasConfig configured)
      ((matches_iff_usable rfl).mpr ((usable_single single).mpr rfl))
    rw [buildRadiusNasRow_range, single] at long
    change 2 ≤ lengthOf 32 at long
    exact absurd long (by decide)
  zero := by
    rintro rfl
    have unmatched {row : NasRow} (present : row ∈ populateNasConfig ids) :
        row.matches 0 ≠ true := by
      intro matching
      obtain ⟨first, found⟩ := inOrder.exists_firstBy NasRow.rangeLength present matching
      obtain ⟨_, valid, _⟩ := row_of_agree unknown unlisted agree _ found
      exact valid rfl
    refine ⟨fun other configured => ?_, fun net configured usable => ?_⟩
    · exact unmatched
        (mem_populateNasConfig.mpr ⟨.mac other, configured, by simp [localhost], rfl⟩) rfl
    · exact unmatched (range_mem_populateNasConfig configured) ((matches_iff_usable rfl).mpr usable)
  usable := by
    intro valid net specific
    have elsewhere : .address ip ∉ ids :=
      fun listed => unlisted (mem_switchConfig.mpr (Or.inr listed))
    have named := agree .inOrder .inOrder
    rcases instantiate_cases .inOrder unlisted with ⟨chosen, isChosen, _⟩ | ⟨_, outside⟩
    · rw [isChosen, switchLookup_eq _ unknown elsewhere, map_eq_some_iff] at named
      obtain ⟨row, found, _⟩ := named
      obtain ⟨other, -, also, rfl⟩ := row_of_agree unknown unlisted agree _ found
      rw [also.unique distinct specific] at found
      exact (matches_iff_usable rfl).mp (wanted_of_firstBy found)
    · have inside := specific.1.2.2
      rw [outside valid net specific.1.1 specific.1.2.1] at inside
      exact absurd inside (by decide)
  point := by
    intro net specific thirtyOne other configured thirty usable
    -- the wider range is as short, so that some scan comes to it first
    have found : (startingWith (buildRadiusNasRow (.range other))).firstBy
        NasRow.rangeLength (NasRow.matches ip) (populateNasConfig ids) =
          some (buildRadiusNasRow (.range other)) := by
      refine startingWith_firstBy (range_mem_populateNasConfig configured)
        ((matches_iff_usable rfl).mpr usable) fun row present matching => ?_
      rw [buildRadiusNasRow_range, thirty]
      exact two_le_rangeLength unknown unlisted agree present matching
    obtain ⟨chosen, -, also, same⟩ := row_of_agree unknown unlisted agree _ found
    rw [also.unique distinct specific] at same
    have names := congrArg NasRow.nasname same
    rw [Id.range.inj names, thirtyOne] at thirty
    exact absurd thirty (by decide)

end Agree

end Lookups

/-- For switches that are distinct networks, and no switch of the MAC of the
request, the two lookups agree on a source address exactly if it is not that of
the server itself, and is an entry or is plainly in its most specific range. -/
theorem switch_lookups_agree_iff (ids : List Id) (distinct : DistinctNetworks ids)
    (mac : BitVec 48) (unknown : .mac mac ∉ ids) (ip : BitVec 32) :
    LookupsAgree ids mac ip ↔
      .address ip ≠ localhost ∧ (.address ip ∈ ids ∨ PlainRange ids ip) := by
  constructor
  · intro agree
    have remote : .address ip ≠ localhost := by
      intro isLocal
      have named := agree .inOrder .inOrder
      rw [instantiate, if_pos (mem_switchConfig.mpr (Or.inl isLocal)), isLocal,
        map_eq_some_iff] at named
      obtain ⟨row, found, named⟩ := named
      have present := mem_of_switchLookup found
      obtain ⟨id, _, other, rfl⟩ := mem_populateNasConfig.mp present
      rw [nasname_buildRadiusNasRow] at named
      exact other named
    refine ⟨remote, or_iff_not_imp_left.mpr fun elsewhere => ?_⟩
    have unlisted : .address ip ∉ switchConfig ids := fun member =>
      (mem_switchConfig.mp member).elim remote elsewhere
    exact plainRange_of_agree unknown unlisted agree distinct
  · rintro ⟨remote, found⟩ scan order
    by_cases listed : .address ip ∈ ids
    · rw [switchLookup_of_listed unknown listed remote, instantiate,
        if_pos (mem_switchConfig.mpr (Or.inr listed))]
    · have plain := found.resolve_left listed
      have unlisted : .address ip ∉ switchConfig ids := fun member =>
        (mem_switchConfig.mp member).elim remote listed
      rcases instantiate_cases order unlisted with ⟨net, chosen, valid, specific⟩ | ⟨none, outside⟩
      · rw [switchLookup_of_plain distinct unknown listed plain valid specific, chosen]
      · rw [switchLookup_of_none unknown listed plain outside, none, map_none]

namespace Scenario

def floor : Network := ⟨0x0A000100, 24, by decide⟩

def campus : Network := ⟨0x0A000000, 16, by decide⟩

def ids : List Id := [.range floor, .range campus]

theorem distinctNetworks_ids : DistinctNetworks ids := by
  intro first isFirst second isSecond network isNetwork other isOther masks _
  simp only [ids, mem_cons, not_mem_nil, or_false] at isFirst isSecond
  rcases isFirst with rfl | rfl <;> rcases isSecond with rfl | rfl <;>
    cases isNetwork <;> cases isOther <;>
    first
      | rfl
      | exact absurd masks (by decide)

theorem mem_ids {network : Network} (configured : .range network ∈ ids) :
    network = floor ∨ network = campus := by simpa [ids] using configured

theorem plainRange_ids : PlainRange ids 0x0A000107 where
  single := by
    intro network configured
    rcases mem_ids configured with rfl | rfl <;> decide
  zero := fun zero => absurd zero (by decide)
  usable := by
    intro _ network specific
    rcases mem_ids specific.1.1 with rfl | rfl <;> exact ⟨by decide, by decide⟩
  point := by
    intro network specific
    rcases mem_ids specific.1.1 with rfl | rfl <;> intro thirtyOne <;>
      exact absurd thirtyOne (by decide)

end Scenario

open Scenario

theorem switch_lookups_agree_inside :
    (switchLookup .inOrder (populateNasConfig ids) 0 0x0A000107).map NasRow.nasname =
      instantiate .inOrder ids 0x0A000107 :=
  (switch_lookups_agree_iff ids distinctNetworks_ids 0 (by decide) 0x0A000107).mpr
    ⟨by decide, Or.inr plainRange_ids⟩ .inOrder .inOrder

/-- `10.0.1.0` is not usable in the smaller range, but is in the larger one. -/
theorem switch_lookups_differ_at_network_address :
    DistinctNetworks ids ∧ .mac 0 ∉ ids ∧
    (switchLookup .inOrder (populateNasConfig ids) 0 0x0A000100).map NasRow.nasname =
      some (.range campus) ∧
    instantiate .inOrder ids 0x0A000100 = some (.range floor) :=
  ⟨distinctNetworks_ids, by decide, by decide, by decide⟩

end PacketFence.Switch
