import PacketFence.SecurityEvent.Changes

/-!
# Host scans and other events

An open host scan is the only open event of its device: it is kept out by any open
event, and makes way for any other one. But it makes way before the grace period of
the other event is looked at and before that event is inserted, so a call that adds
nothing can close a scan.
-/

namespace PacketFence.SecurityEvent

open Foundations List Option EventTable Event

def ExclusiveScans (table : EventTable) : Prop :=
  ∀ scan ∈ table.events, scan.status = .opened → isScan scan.securityEventId = true →
    ∀ other ∈ table.events, other.isOpen scan.device = true → other = scan

variable {table cleared next : EventTable} {now kind : Nat} {device : Device} {classes : Classes}

section Exclusion

theorem isOpen_self {event : Event} (opened : event.status = .opened) :
    event.isOpen event.device = true := isOpen_iff.mpr ⟨rfl, opened⟩

variable (exclusive : ExclusiveScans table)

include exclusive

theorem ExclusiveScans.forceClose (now : Nat) (device : Device) (kind : Nat) :
    ExclusiveScans (table.securityEventForceClose now device kind) := by
  intro scan member opened isScan other present isOpen
  exact exclusive scan (mem_of_mem_forceClose member opened) opened isScan other
    (mem_of_mem_forceClose present (isOpen_iff.mp isOpen).2) isOpen

/-- Where an event is admitted, no open event of the device excludes it or is excluded
by it. -/
theorem compatible_of_admission {scan : Scan Event}
    (admitted : table.admission scan now device kind = .cleared cleared) :
    ∀ old ∈ cleared.events, old.isOpen device = true →
      isScan kind = false ∧ isScan old.securityEventId = false := by
  rcases (admission_cases admitted).2 with
    ⟨rfl, noneOpen⟩ | ⟨latest, member, latestOpen, notScan, cases⟩
  · intro old present isOpen
    rw [noneOpen old present] at isOpen
    cases isOpen
  · obtain ⟨rfl, latestOpened⟩ := isOpen_iff.mp latestOpen
    rcases cases with ⟨scanned, rfl⟩ | ⟨plain, rfl⟩
    · -- the scan was the only open event and is closed now
      intro old present isOpen
      have opened := (isOpen_iff.mp isOpen).2
      have before := mem_of_mem_forceClose present opened
      have same := exclusive latest member latestOpened scanned old before isOpen
      have untouched := not_isOf_of_mem_forceClose present opened
      simp [same, isOf] at untouched
    · intro old present isOpen
      refine ⟨notScan, ?_⟩
      by_contra isScan
      obtain ⟨sameDevice, opened⟩ := isOpen_iff.mp isOpen
      have same := exclusive old present opened (by simpa using isScan) latest member
        (by rw [sameDevice]; exact latestOpen)
      rw [same] at plain
      exact isScan plain

theorem ExclusiveScans.insert {startDate : Nat} {releaseDate : Option Nat} {status : EventStatus}
    (compatible : ∀ old ∈ table.events, old.isOpen device = true →
      isScan kind = false ∧ isScan old.securityEventId = false) :
    ExclusiveScans (table.insert device kind startDate releaseDate status) := by
  intro scan member opened scanned other present isOpen
  rcases mem_append.mp member with old | new
  · rcases mem_append.mp present with older | newer
    · exact exclusive scan old opened scanned other older isOpen
    · obtain rfl := mem_singleton.mp newer
      have sameDevice : device = scan.device := (isOpen_iff.mp isOpen).1
      have plain := (compatible scan old (by rw [sameDevice]; exact isOpen_self opened)).2
      rw [plain] at scanned
      cases scanned
  · obtain rfl := mem_singleton.mp new
    rcases mem_append.mp present with older | newer
    · have plain : isScan kind = false := (compatible other older isOpen).1
      rw [plain] at scanned
      cases scanned
    · exact mem_singleton.mp newer

theorem ExclusiveScans.changes (changes : Changes table next) : ExclusiveScans next := by
  refine keeps_of_changes ?_ ?_ changes exclusive
  · intro table now device kind exclusive
    exact exclusive.forceClose now device kind
  · intro table cleared scan now device kind before exclusive admitted startDate releaseDate status
    exact exclusive.insert (compatible_of_admission before admitted)

end Exclusion

def EventTable.InGrace (table : EventTable) (classes : Classes) (now : Nat) (device : Device)
    (kind : Nat) : Prop :=
  ∃ settings ∈ classes kind, ∃ event ∈ table.events, event.isOf device kind = true ∧
    event.status = .closed ∧ now < event.startDate + settings.gracePeriod

theorem grace_pos_iff (scan : Scan Event) :
    0 < table.securityEventGrace classes scan now device kind ↔
      table.InGrace classes now device kind := by
  unfold securityEventGrace EventTable.InGrace
  cases known : classes kind with
  | none => simp
  | some settings =>
    simp only [mem_some_iff, exists_eq_left']
    split
    next noneClosed =>
      rw [Scan.firstBy_eq_none_iff] at noneClosed
      constructor
      · intro positive
        exact absurd positive (lt_irrefl 0)
      · rintro ⟨event, member, concerned, closed, _⟩
        have unwanted := noneClosed event member
        simp [concerned, closed] at unwanted
    next latest found =>
      have wanted := Scan.wanted_of_firstBy found
      rw [Bool.and_eq_true, decide_eq_true_eq] at wanted
      constructor
      · intro positive
        exact ⟨latest, Scan.mem_of_firstBy found, wanted.1, wanted.2, by omega⟩
      · rintro ⟨event, member, concerned, closed, within⟩
        have later : event.startDate ≤ latest.startDate :=
          Scan.key_le_of_firstBy found member (by simp [concerned, closed])
        omega

theorem inGrace_forceClose_iff {other : Nat} (different : other ≠ kind) (closing : Nat) :
    (table.securityEventForceClose closing device other).InGrace classes now device kind ↔
      table.InGrace classes now device kind := by
  have untouched : ∀ event : Event, event.isOf device kind = true →
      closeRow closing device other event = event := by
    intro event concerned
    have elsewhere : event.isOf device other = false := by
      simp only [isOf, Bool.and_eq_true, beq_iff_eq] at concerned
      simp [isOf, concerned.2, different.symm]
    simp [closeRow, elsewhere]
  refine exists_congr fun settings => and_congr_right fun _ => ?_
  constructor
  · rintro ⟨event, member, concerned, rest⟩
    obtain ⟨old, present, rfl⟩ := mem_forceClose_iff.mp member
    rw [isOf_closeRow] at concerned
    rw [untouched old concerned] at rest
    exact ⟨old, present, concerned, rest⟩
  · rintro ⟨event, member, concerned, rest⟩
    exact ⟨event, mem_forceClose_iff.mpr ⟨event, member, untouched event concerned⟩,
      concerned, rest⟩

variable {depth : Nat} {world : World} {request : Request} {result : EventTable × Added}

theorem length_le_of_changes (changes : Changes table next) :
    table.events.length ≤ next.events.length := by
  refine @keeps_of_changes _ _ (fun later => table.events.length ≤ later.events.length) ?_ ?_
    changes (Nat.le_refl _)
  · intro between now device kind shorter
    exact shorter.trans (length_map _).ge
  · intro _ cleared _ _ device kind _ shorter _ startDate releaseDate status
    exact shorter.trans (by simp [EventTable.insert])

theorem securityEventAdd_cases
    (ran : securityEventAdd classes now device (depth + 1) world request table = some result) :
    (request.kind = 0 ∧ result.1 = table) ∨ request.kind ≠ 0 ∧
      ((∃ id, table.admission (world []).scan now device request.kind = .ignored id ∧
          result.1 = table) ∨
        ∃ cleared, table.admission (world []).scan now device request.kind = .cleared cleared ∧
          ((refusedByGrace classes now (world []) device request cleared ∨
              (world []).inserts = false) ∧ result.1 = cleared ∨
            (¬ refusedByGrace classes now (world []) device request cleared ∧
              (world []).inserts = true) ∧
              table.events.length < result.1.events.length)) := by
  unfold securityEventAdd at ran
  split at ran
  next none =>
    cases ran
    exact .inl ⟨none, rfl⟩
  next given =>
    refine .inr ⟨given, ?_⟩
    split at ran
    next id ignored =>
      cases ran
      exact .inl ⟨id, ignored, rfl⟩
    next cleared admitted =>
      refine .inr ⟨cleared, admitted, ?_⟩
      split at ran
      next refused =>
        cases ran
        exact .inl ⟨.inl refused, rfl⟩
      next accepted =>
        split at ran
        next inserts =>
          refine .inr ⟨⟨accepted, inserts⟩, ?_⟩
          have longer : table.events.length < (cleared.insert device request.kind
              request.startDate request.releaseDate request.status).events.length := by
            have kept := length_le_of_changes (changes_of_admission admitted)
            simp only [EventTable.insert, length_append, length_singleton]
            exact Nat.lt_succ_of_le kept
          split at ran
          · obtain ⟨after, executed, rfl⟩ := map_eq_some_iff.mp ran
            have adds := addsByChanges_securityEventAdd classes now device depth
            exact longer.trans_le (length_le_of_changes (changes_actionExecute adds executed))
          · cases ran
            exact longer
        next fails =>
          cases ran
          exact .inl ⟨.inr (Bool.eq_false_iff.mpr fails), rfl⟩

/-- An open host scan makes way for an event that is then not added. -/
def DisplacesInVain (classes : Classes) (now : Nat) (answers : Answers) (device : Device)
    (request : Request) (table : EventTable) : Prop :=
  request.kind ≠ 0 ∧ isScan request.kind = false ∧
    (∀ event ∈ table.events, event.opens device request.kind = false) ∧
    (∃ scan ∈ table.events, scan.isOpen device = true ∧ isScan scan.securityEventId = true) ∧
    (answers.inserts = false ∨
      answers.nodeExists = true ∧ request.force = false ∧
        table.InGrace classes now device request.kind)

variable {answers : Answers}

theorem refusedByGrace_iff
    (admitted : table.admission answers.scan now device request.kind = .cleared cleared) :
    refusedByGrace classes now answers device request cleared ↔
      answers.nodeExists = true ∧ request.force = false ∧
        table.InGrace classes now device request.kind := by
  have same : cleared.InGrace classes now device request.kind ↔
      table.InGrace classes now device request.kind := by
    rcases (admission_cases admitted).2 with
      ⟨rfl, _⟩ | ⟨latest, _, _, notScan, ⟨scanned, rfl⟩ | ⟨_, rfl⟩⟩
    · exact Iff.rfl
    · refine inGrace_forceClose_iff ?_ now
      intro equal
      rw [equal, notScan] at scanned
      cases scanned
    · exact Iff.rfl
  rw [refusedByGrace, grace_pos_iff, same, Bool.not_eq_true, and_comm (b := request.force = false)]

theorem events_forceClose_ne {latest : Event} (member : latest ∈ table.events)
    (isOpen : latest.isOpen device = true) :
    (table.securityEventForceClose now device latest.securityEventId).events ≠ table.events := by
  intro same
  obtain ⟨rfl, opened⟩ := isOpen_iff.mp isOpen
  have present := member
  rw [← same] at present
  have untouched := not_isOf_of_mem_forceClose present opened
  simp [isOf] at untouched

theorem not_displacesInVain_of_ignored {id : Nat}
    (ignored : table.admission answers.scan now device request.kind = .ignored id) :
    ¬ DisplacesInVain classes now answers device request table := by
  rintro ⟨_, notScan, absent, _⟩
  simp only [admission, existOpen_eq_none_iff.mpr absent, notScan] at ignored
  split at ignored
  · cases ignored
  · rw [if_neg Bool.false_ne_true] at ignored
    split at ignored <;> cases ignored

/-- An event that is admitted and then refused has displaced a scan if there was one. -/
theorem cleared_unchanged_iff (exclusive : ExclusiveScans table) (given : request.kind ≠ 0)
    (admitted : table.admission answers.scan now device request.kind = .cleared cleared)
    (refused : refusedByGrace classes now answers device request cleared ∨
      answers.inserts = false) :
    (cleared.events.length = table.events.length → cleared.events = table.events) ↔
      ¬ DisplacesInVain classes now answers device request table := by
  rw [refusedByGrace_iff admitted] at refused
  -- without an open scan nothing was cleared
  have noScan : cleared = table →
      (∀ scan ∈ table.events, scan.isOpen device = true → isScan scan.securityEventId = false) →
        ((cleared.events.length = table.events.length → cleared.events = table.events) ↔
          ¬ DisplacesInVain classes now answers device request table) := by
    rintro rfl plain
    refine iff_of_true (fun _ => rfl) ?_
    rintro ⟨_, _, _, ⟨scan, present, isOpen, scanned⟩, _⟩
    rw [plain scan present isOpen] at scanned
    cases scanned
  have compatible := compatible_of_admission exclusive admitted
  obtain ⟨absent, cases⟩ := admission_cases admitted
  rcases cases with ⟨rfl, _⟩ | ⟨latest, member, isOpen, notScan, ⟨scanned, rfl⟩ | ⟨_, rfl⟩⟩
  · exact noScan rfl fun scan present scanOpen => (compatible scan present scanOpen).2
  · refine iff_of_false (fun unchanged => ?_) (not_not.mpr ?_)
    · exact events_forceClose_ne member isOpen (unchanged (length_map _))
    · exact ⟨given, notScan, absent, ⟨latest, member, isOpen, scanned⟩, refused.symm⟩
  · exact noScan rfl fun scan present scanOpen => (compatible scan present scanOpen).2

theorem unchanged_iff (exclusive : ExclusiveScans table)
    (ran : securityEventAdd classes now device depth world request table = some result) :
    (result.1.events.length = table.events.length → result.1.events = table.events) ↔
      ¬ DisplacesInVain classes now (world []) device request table := by
  cases depth with
  | zero => cases ran
  | succ depth =>
    rcases securityEventAdd_cases ran with
      ⟨none, same⟩ | ⟨given, ⟨id, ignored, same⟩ | ⟨cleared, admitted, outcome⟩⟩
    · rw [same]
      exact iff_of_true (fun _ => rfl) fun vain => vain.1 none
    · rw [same]
      exact iff_of_true (fun _ => rfl) (not_displacesInVain_of_ignored ignored)
    · rcases outcome with ⟨refused, same⟩ | ⟨⟨accepted, inserts⟩, longer⟩
      · rw [same]
        exact cleared_unchanged_iff exclusive given admitted refused
      · rw [refusedByGrace_iff admitted] at accepted
        refine iff_of_true (fun kept => absurd kept longer.ne') fun vain => ?_
        rcases vain.2.2.2.2 with fails | refused
        · rw [inserts] at fails
          cases fails
        · exact accepted refused

/-- Host scans are exclusive in every run without delayed events being run, and a call that
adds no row leaves every row exactly if it does not displace a scan in vain. -/
theorem host_scans_exclusive_iff (classes : Classes) {first table : EventTable}
    (initially : ∀ event ∈ first.events, event.status ≠ .opened)
    (reached : (calls classes).Reaches (fun _ event => event.1.isRunDelayed = false) first table) :
    ExclusiveScans table ∧ ∀ device request surroundings next,
      (Call.add device request).run classes surroundings table = some next →
        ((next.events.length = table.events.length → next.events = table.events) ↔
          ¬ DisplacesInVain classes surroundings.now (surroundings.world []) device request
            table) := by
  have exclusive : ExclusiveScans table :=
    reached.invariant
      (fun event member opened => absurd opened (initially event member))
      fun _ _ _ exclusive other ran => exclusive.changes (changes_run other ran)
  refine ⟨exclusive, fun device request surroundings next ran => ?_⟩
  obtain ⟨result, added, rfl⟩ := map_eq_some_iff.mp ran
  exact unchanged_iff exclusive added

namespace Scenario

def lenient : Classes := fun _ => some
  { autoEnable := true, maxEnables := 0, gracePeriod := 100, window := .unlimited,
    vclose := none, delayBy := 0, actions := [.reevaluateAccess] }

def phone : Device := ⟨1, ['b']⟩

def scannedLater : List (Call × Surroundings) :=
  [(.add phone (.default 0 3), .quiet 0), (.close phone 3, .quiet 1),
    (.add phone (.default 2 scanSecurityEventId), .quiet 2)]

end Scenario

open Scenario

theorem host_scan_displaced :
    ∃ table, (calls lenient).replay? (fun _ event => !event.1.isRunDelayed) empty
        (scannedLater ++ [(.add phone (.default 3 4), .quiet 3)]) = some table ∧
      ExclusiveScans table ∧ table.events.map status = [.closed, .closed, .opened] := by
  obtain ⟨table, replayed, statuses⟩ := map_eq_some_iff.mp
    (show ((calls lenient).replay? (fun _ event => !event.1.isRunDelayed) empty
      (scannedLater ++ [(.add phone (.default 3 4), .quiet 3)])).map
        (fun table => table.events.map status) = some [.closed, .closed, .opened] by decide)
  have reached : (calls lenient).Reaches (fun _ event => event.1.isRunDelayed = false)
      empty table :=
    Machine.reaches_of_checked (fun _ _ checked => by simpa using checked) replayed
  have initially : ∀ event ∈ empty.events, event.status ≠ .opened := by
    simp [empty]
  exact ⟨table, replayed, (host_scans_exclusive_iff lenient initially reached).1, statuses⟩

/-- The grace of the closed event refuses the next one, after the scan has made way. -/
theorem host_scan_displaced_in_vain :
    ∃ table next, (calls lenient).Reaches (fun _ event => event.1.isRunDelayed = false)
        empty table ∧
      securityEventAdd lenient 3 phone 1 (fun _ => .idle) (.default 3 3) table =
        some (next, .grace) ∧
      table.events.map status = [.closed, .opened] ∧
      next.events.map status = [.closed, .closed] := by
  obtain ⟨table, replayed, rest⟩ := bind_eq_some_iff.mp
    (show ((calls lenient).replay? (fun _ event => !event.1.isRunDelayed) empty
      scannedLater).bind (fun table =>
        (securityEventAdd lenient 3 phone 1 (fun _ => .idle) (.default 3 3) table).map fun result =>
          (result.2, table.events.map status, result.1.events.map status)) =
            some (.grace, [.closed, .opened], [.closed, .closed]) by decide)
  obtain ⟨⟨next, added⟩, ran, result⟩ := map_eq_some_iff.mp rest
  obtain ⟨rfl, statuses⟩ := Prod.mk.inj result
  obtain ⟨before, after⟩ := Prod.mk.inj statuses
  refine ⟨table, next, ?_, ran, before, after⟩
  exact Machine.reaches_of_checked (fun _ _ checked => by simpa using checked) replayed

end PacketFence.SecurityEvent
