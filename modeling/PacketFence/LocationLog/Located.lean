import PacketFence.LocationLog.Synchronize

/-!
# The row of a device after its connection was synchronized

A row that is written last shows the connection. Two ways lead to another end: a row
without a VLAN counts as accurate and is left if the port shows no conflict, and a
row that was just written is closed if the entry of another device comes first.
-/

namespace PacketFence.LocationLog

open Foundations Lexing

namespace Request

variable {request : Request} {table : EntryTable} {now : Nat} {mac vlan : Text}
  {entry first : Entry} {previous : Option Entry} {progress : Progress} {scan : Scan Entry}

theorem eq_of_mac (table : EntryTable) {one two : Entry} (member : one ∈ table.rows)
    (other : two ∈ table.rows) (same : one.mac = two.mac) : one = two :=
  List.inj_on_of_nodup_map table.distinct member other same

theorem mem_insertStart_iff :
    entry ∈ (request.locationlogInsertStart now previous table).rows ↔
      entry = request.newEntry now previous ∨
        entry ∈ table.rows ∧ entry.mac ≠ request.mac.getD [] := by
  refine Schema.mem_upsert_iff_of_replaces table.distinct ?_
  intro old same
  change { request.newEntry now previous with mac := old.mac } = request.newEntry now previous
  rw [show old.mac = (request.newEntry now previous).mac from same]

theorem mem_updateEnd_iff :
    entry ∈ (request.locationlogUpdateEndSwitchport now table).rows ↔
      ∃ old ∈ table.rows, request.endEntry now old = entry := List.mem_map

theorem viewOpenMac_spec (found : locationlogViewOpenMac mac table = some entry) :
    entry ∈ table.rows ∧ entry.mac = mac ∧ entry.endTime = none := by
  have matched := List.find?_some found
  simp only [Bool.and_eq_true, decide_eq_true_eq] at matched
  exact ⟨List.mem_of_find?_eq_some found, matched⟩

theorem accurate_spec (wired : request.connectionType.isWired = true)
    (hasVlan : request.vlan = some vlan) (accurate : request.isLocationlogAccurate entry = true) :
    entry.switch = request.switch ∧ entry.port = request.port ∧
      (entry.vlan = none ∨ entry.vlan = request.vlan) ∧ entry.role = request.role ∧
      entry.connectionType = request.connectionType ∧
      entry.userName = request.userName.getD [] := by
  simp only [isLocationlogAccurate, wired, Bool.true_and, Bool.not_eq_true', Bool.or_eq_false_iff,
    decide_eq_false_iff_not, not_not] at accurate
  obtain ⟨⟨⟨⟨⟨⟨⟨sameVlan, sameSwitch⟩, sameType⟩, samePort⟩, sameUser⟩, _⟩, sameRole⟩, _⟩ :=
    accurate
  refine ⟨sameSwitch, samePort, ?_, sameRole, sameType, sameUser⟩
  cases shown : entry.vlan with
  | none => exact .inl rfl
  | some old =>
    rw [vlanChanged, hasVlan, shown] at sameVlan
    rw [hasVlan]
    exact .inr (congrArg some (by simpa using sameVlan))

theorem located_insertStart (hasMac : request.mac = some mac) (hasVlan : request.vlan = some vlan) :
    request.Located (request.locationlogInsertStart now previous table) := by
  refine ⟨request.newEntry now previous, mem_insertStart_iff.mpr (.inl rfl), ?_, rfl, rfl, rfl, ?_,
    rfl, rfl, rfl⟩
  · simp [newEntry, hasMac]
  · simp [newEntry, hasVlan]

theorem located_insertIfNeeded (hasMac : request.mac = some mac)
    (hasVlan : request.vlan = some vlan) (must : progress.mustInsert = true)
    (notYet : progress.inserted = false) :
    request.Located (request.insertIfNeeded now progress) := by
  rw [insertIfNeeded, must, notYet]
  exact located_insertStart hasMac hasVlan

theorem located_iff_of_accurate (hasMac : request.mac = some mac)
    (hasVlan : request.vlan = some vlan) (wired : request.connectionType.isWired = true)
    (found : locationlogViewOpenMac mac table = some entry)
    (accurate : request.isLocationlogAccurate entry = true) :
    request.Located table ↔ entry.vlan ≠ none := by
  obtain ⟨member, sameMac, isOpen⟩ := viewOpenMac_spec found
  obtain ⟨sameSwitch, samePort, shown, sameRole, sameType, sameUser⟩ :=
    accurate_spec wired hasVlan accurate
  constructor
  · rintro ⟨row, present, isRow, _, _, _, rowVlan, _⟩
    rw [hasMac, Option.some.injEq] at isRow
    rw [eq_of_mac table member present (sameMac.trans isRow.symm), rowVlan, hasVlan]
    exact Option.some_ne_none vlan
  · intro hasOne
    refine ⟨entry, member, ?_, isOpen, sameSwitch, samePort, shown.resolve_left hasOne, sameRole,
      sameType, sameUser⟩
    rw [hasMac, sameMac]

@[simp] theorem onPort_newEntry : request.onPort (request.newEntry now previous) = true := by
  simp [onPort, newEntry]

theorem conflicts_newEntry (hasVlan : request.vlan = some vlan) :
    request.conflicts (request.newEntry now previous) = false := by
  cases hasRole : request.role <;> simp [conflicts, newEntry, hasVlan, hasRole]

/-- A row that was just written is closed with its port unless its type is not looked for. -/
theorem located_updateEnd_iff (hasMac : request.mac = some mac)
    (hasVlan : request.vlan = some vlan) :
    request.Located (request.locationlogUpdateEndSwitchport now
      (request.locationlogInsertStart now previous table)) ↔
        request.connectionType.isEthernet = false := by
  have written : request.newEntry now previous ∈
      (request.locationlogInsertStart now previous table).rows := mem_insertStart_iff.mpr (.inl rfl)
  constructor
  · rintro ⟨row, present, isRow, isOpen, _⟩
    obtain ⟨old, member, rfl⟩ := mem_updateEnd_iff.mp present
    rw [endEntry_mac, hasMac, Option.some.injEq] at isRow
    have same : old = request.newEntry now previous :=
      eq_of_mac _ member written (isRow.trans (by simp [newEntry, hasMac]))
    rw [same, endEntry, onPort_newEntry] at isOpen
    by_contra ethernet
    rw [Bool.not_eq_false] at ethernet
    simp [newEntry, ethernet] at isOpen
  · intro other
    have left : request.endEntry now (request.newEntry now previous) =
        request.newEntry now previous := by simp [endEntry, newEntry, other]
    refine ⟨_, mem_updateEnd_iff.mpr ⟨_, written, left⟩, ?_, rfl, rfl, rfl, ?_, rfl, rfl, rfl⟩
    · simp [newEntry, hasMac]
    · simp [newEntry, hasVlan]

/-- The entries that can come first on the port. -/
def Latest (request : Request) (rows : List Entry) (entry : Entry) : Prop :=
  entry ∈ rows ∧ request.onPort entry = true ∧
    ∀ other ∈ rows, request.onPort other = true → other.startTime ≤ entry.startTime

theorem latest_of_firstOnPort (found : request.firstOnPort scan table = some first) :
    request.Latest table.rows first :=
  ⟨Scan.mem_of_firstBy found, Scan.wanted_of_firstBy found,
    fun _ present isOther => Scan.key_le_of_firstBy found present isOther⟩

theorem exists_firstOnPort (latest : request.Latest table.rows first) :
    ∃ scan, request.firstOnPort scan table = some first :=
  ⟨.startingWith first, Scan.startingWith_firstBy latest.1 latest.2.1 latest.2.2⟩

def others (request : Request) (table : EntryTable) : List Entry :=
  table.rows.filter fun entry => entry.mac ≠ request.mac.getD []

/-- After the row was written, a conflicting entry that comes first is one of another
device that did not start earlier. -/
theorem latest_insertStart_iff (hasVlan : request.vlan = some vlan)
    (conflict : request.conflicts first = true) :
    request.Latest (request.locationlogInsertStart now previous table).rows first ↔
      request.Latest (request.others table) first ∧ now ≤ first.startTime := by
  have notNew : first ≠ request.newEntry now previous := by
    rintro rfl
    rw [conflicts_newEntry hasVlan] at conflict
    cases conflict
  have mem_others : ∀ entry, entry ∈ request.others table ↔
      entry ∈ table.rows ∧ entry.mac ≠ request.mac.getD [] := by
    simp [others]
  constructor
  · rintro ⟨member, isOn, latest⟩
    have old := (mem_insertStart_iff.mp member).resolve_left notNew
    refine ⟨⟨(mem_others first).mpr old, isOn, ?_⟩, ?_⟩
    · intro other present isOther
      exact latest other (mem_insertStart_iff.mpr (.inr ((mem_others other).mp present))) isOther
    · exact latest _ (mem_insertStart_iff.mpr (.inl rfl)) onPort_newEntry
  · rintro ⟨⟨member, isOn, latest⟩, notEarlier⟩
    refine ⟨mem_insertStart_iff.mpr (.inr ((mem_others first).mp member)), isOn, ?_⟩
    intro other present isOther
    rcases mem_insertStart_iff.mp present with rfl | old
    · exact notEarlier
    · exact latest other ((mem_others other).mpr old) isOther

/-- The two ways in which the row does not end up showing the connection. -/
def Misplaced (request : Request) (now : Nat) (mac : Text) (table : EntryTable) : Prop :=
  ∃ entry, locationlogViewOpenMac mac table = some entry ∧
    ((request.isLocationlogAccurate entry = true ∧ entry.vlan = none ∧
        ∃ first, request.Latest table.rows first ∧ request.conflicts first = false) ∨
      (request.isLocationlogAccurate entry = false ∧
        request.connectionType.isEthernet = true ∧
        ∃ first, request.Latest (request.others table) first ∧ now ≤ first.startTime ∧
          request.conflicts first = true))

theorem synchronizePort_of_none (noFirst : request.firstOnPort scan progress.table = none) :
    request.synchronizePort scan now progress = { progress with mustInsert := true } := by
  rw [synchronizePort, noFirst]

theorem synchronizePort_of_conflict (isFirst : request.firstOnPort scan progress.table = some first)
    (conflict : request.conflicts first = true) :
    request.synchronizePort scan now progress =
      { progress with
        table := request.locationlogUpdateEndSwitchport now progress.table
        mustInsert := true } := by
  rw [synchronizePort, isFirst]
  exact if_pos conflict

theorem synchronizePort_of_fit (isFirst : request.firstOnPort scan progress.table = some first)
    (fits : request.conflicts first = false) :
    request.synchronizePort scan now progress = progress := by
  rw [synchronizePort, isFirst]
  exact if_neg (Bool.eq_false_iff.mp fits)

section Cases

variable (hasMac : request.mac = some mac) (hasVlan : request.vlan = some vlan)

include hasMac in
theorem synchronizeDevice_of_accurate (found : locationlogViewOpenMac mac table = some entry)
    (accurate : request.isLocationlogAccurate entry = true) :
    request.synchronizeDevice now table = ⟨table, false, false⟩ := by
  simp [synchronizeDevice, hasMac, found, if_pos accurate]

include hasMac in
theorem synchronizeDevice_of_inaccurate (found : locationlogViewOpenMac mac table = some entry)
    (inaccurate : request.isLocationlogAccurate entry = false) :
    request.synchronizeDevice now table =
      ⟨request.locationlogInsertStart now (some entry) table, false, true⟩ := by
  simp [synchronizeDevice, hasMac, found, if_neg (Bool.eq_false_iff.mp inaccurate)]

theorem synchronize_of_wired (wired : request.connectionType.isWired = true) (scan : Scan Entry) :
    request.locationlogSynchronize scan now false table = request.insertIfNeeded now
        (request.synchronizePort scan now (request.synchronizeDevice now table)) := by
  simp [locationlogSynchronize, wired]

variable (wired : request.connectionType.isWired = true)

include hasMac hasVlan wired

theorem located_of_not_found (absent : locationlogViewOpenMac mac table = none)
    (scan : Scan Entry) :
    request.Located (request.locationlogSynchronize scan now false table) := by
  have device : request.synchronizeDevice now table = ⟨table, true, false⟩ := by
    simp [synchronizeDevice, hasMac, absent]
  rw [synchronize_of_wired wired, device]
  cases isFirst : request.firstOnPort scan table with
  | none =>
    rw [synchronizePort_of_none isFirst]
    exact located_insertIfNeeded hasMac hasVlan rfl rfl
  | some first =>
    cases fits : request.conflicts first with
    | true =>
      rw [synchronizePort_of_conflict isFirst fits]
      exact located_insertIfNeeded hasMac hasVlan rfl rfl
    | false =>
      rw [synchronizePort_of_fit isFirst fits]
      exact located_insertIfNeeded hasMac hasVlan rfl rfl

theorem located_iff_of_found_accurate (found : locationlogViewOpenMac mac table = some entry)
    (accurate : request.isLocationlogAccurate entry = true) (scan : Scan Entry) :
    request.Located (request.locationlogSynchronize scan now false table) ↔
      (entry.vlan = none → ∀ first, request.firstOnPort scan table = some first →
        request.conflicts first = true) := by
  rw [synchronize_of_wired wired, synchronizeDevice_of_accurate hasMac found accurate]
  cases isFirst : request.firstOnPort scan table with
  | none =>
    rw [synchronizePort_of_none isFirst]
    exact iff_of_true (located_insertIfNeeded hasMac hasVlan rfl rfl) (by simp)
  | some first =>
    simp only [Option.some.injEq, forall_eq']
    cases fits : request.conflicts first with
    | true =>
      rw [synchronizePort_of_conflict isFirst fits]
      exact iff_of_true (located_insertIfNeeded hasMac hasVlan rfl rfl) fun _ => rfl
    | false =>
      rw [synchronizePort_of_fit isFirst fits]
      change request.Located table ↔ _
      rw [located_iff_of_accurate hasMac hasVlan wired found accurate]
      simp

theorem located_iff_of_found_inaccurate (found : locationlogViewOpenMac mac table = some entry)
    (inaccurate : request.isLocationlogAccurate entry = false) (scan : Scan Entry) :
    request.Located (request.locationlogSynchronize scan now false table) ↔
      (request.connectionType.isEthernet = true → ∀ first,
        request.firstOnPort scan (request.locationlogInsertStart now (some entry) table) =
          some first → request.conflicts first = false) := by
  rw [synchronize_of_wired wired, synchronizeDevice_of_inaccurate hasMac found inaccurate]
  cases isFirst : request.firstOnPort scan
      (request.locationlogInsertStart now (some entry) table) with
  | none =>
    -- the row that was just written is on the port
    have unseen := Scan.firstBy_eq_none_iff.mp isFirst _ (mem_insertStart_iff.mpr (.inl rfl))
    rw [onPort_newEntry] at unseen
    cases unseen
  | some first =>
    simp only [Option.some.injEq, forall_eq']
    cases fits : request.conflicts first with
    | true =>
      rw [synchronizePort_of_conflict isFirst fits]
      change request.Located (request.locationlogUpdateEndSwitchport now
        (request.locationlogInsertStart now (some entry) table)) ↔ _
      rw [located_updateEnd_iff hasMac hasVlan]
      simp
    | false =>
      rw [synchronizePort_of_fit isFirst fits]
      exact iff_of_true (located_insertStart hasMac hasVlan) fun _ => rfl

end Cases

end Request

open Request

/-- On a wired port without a floating device the row of the device shows the connection in
every order of the entries, except in the two ways of `Misplaced`. -/
theorem synchronized_location_iff (request : Request) (now : Nat) (table : EntryTable)
    {mac vlan : Text} (hasMac : request.mac = some mac) (hasVlan : request.vlan = some vlan)
    (wired : request.connectionType.isWired = true) :
    (∀ scan, request.Located (request.locationlogSynchronize scan now false table)) ↔
      ¬ request.Misplaced now mac table := by
  cases found : locationlogViewOpenMac mac table with
  | none =>
    refine iff_of_true (fun scan => located_of_not_found hasMac hasVlan wired found scan) ?_
    rintro ⟨entry, isOpen, _⟩
    rw [found] at isOpen
    cases isOpen
  | some entry =>
    simp only [Misplaced, found, Option.some.injEq, exists_eq_left']
    cases accurate : request.isLocationlogAccurate entry with
    | true =>
      simp only [located_iff_of_found_accurate hasMac hasVlan wired found accurate]
      constructor
      · rintro all (⟨_, isNone, first, latest, fits⟩ | ⟨⟨⟩, _⟩)
        obtain ⟨scan, isFirst⟩ := exists_firstOnPort latest
        rw [all scan isNone first isFirst] at fits
        cases fits
      · intro placed scan isNone first isFirst
        by_contra fits
        exact placed (.inl ⟨trivial, isNone, first, latest_of_firstOnPort isFirst,
          by simpa using fits⟩)
    | false =>
      simp only [located_iff_of_found_inaccurate hasMac hasVlan wired found accurate]
      constructor
      · rintro all (⟨⟨⟩, _⟩ | ⟨_, ethernet, first, latest, notEarlier, conflict⟩)
        obtain ⟨scan, isFirst⟩ := exists_firstOnPort
          ((latest_insertStart_iff hasVlan conflict).mpr ⟨latest, notEarlier⟩)
        rw [all scan ethernet first isFirst] at conflict
        cases conflict
      · intro placed scan ethernet first isFirst
        by_contra fits
        have conflict : request.conflicts first = true := by simpa using fits
        obtain ⟨latest, notEarlier⟩ :=
          (latest_insertStart_iff hasVlan conflict).mp (latest_of_firstOnPort isFirst)
        exact placed (.inr ⟨trivial, ethernet, first, latest, notEarlier, conflict⟩)

namespace Scenario

def plugged : Request where
  switch := ['s']
  switchMac := none
  port := ['1']
  vlan := some ['2']
  mac := some ['a']
  voip := false
  connectionType := .wiredMacAuth
  userName := none
  ssid := none
  role := some ['r']

def elsewhere : Entry := { plugged.newEntry 1 none with switch := ['t'] }

def neighbor : Entry := { plugged.newEntry 5 none with mac := ['b'], vlan := some ['3'] }

def moving : EntryTable := ⟨[neighbor, elsewhere], by decide⟩

/-- The row of the device has no VLAN, and another device on the port has the right one. -/
def withoutVlan : EntryTable :=
  ⟨[{ plugged.newEntry 5 none with mac := ['b'] }, { plugged.newEntry 1 none with vlan := none }],
    by decide⟩

end Scenario

open Scenario

/-- The other device has connected earlier. -/
theorem synchronized_location_moved :
    plugged.connectionType.isWired = true ∧
      ∀ scan, plugged.Located (plugged.locationlogSynchronize scan 9 false moving) := by
  have wired : plugged.connectionType.isWired = true := by decide
  refine ⟨wired, (synchronized_location_iff plugged 9 moving rfl rfl wired).mpr ?_⟩
  have found : locationlogViewOpenMac ['a'] moving = some elsewhere := by decide
  have inaccurate : plugged.isLocationlogAccurate elsewhere = false := by decide
  rintro ⟨entry, isOpen, ways⟩
  obtain rfl := Option.some.inj (found.symm.trans isOpen)
  rcases ways with ⟨accurate, _⟩ | ⟨_, _, first, latest, notEarlier, _⟩
  · rw [inaccurate] at accurate
    cases accurate
  · have alone : plugged.others moving = [neighbor] := by decide
    have member := latest.1
    rw [alone, List.mem_singleton] at member
    rw [member] at notEarlier
    exact absurd notEarlier (by decide)

/-- The other device has connected in the same second and comes first; and a row without a
VLAN. -/
theorem synchronized_location_lost :
    ¬ plugged.Located (plugged.locationlogSynchronize .inOrder 5 false moving) ∧
      ¬ plugged.Located (plugged.locationlogSynchronize .inOrder 9 false withoutVlan) := by decide

end PacketFence.LocationLog
