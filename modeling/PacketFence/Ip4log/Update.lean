import PacketFence.Foundations.Census
import PacketFence.Foundations.Machine
import PacketFence.Foundations.OrderBy
import PacketFence.Ip4log.Log

/-!
# A device and its live address

A device that comes with a new address has its previous one closed. The previous one
is the most recent among the open entries and those that ended less than thirty
seconds ago. Entries that were opened in the same second come in any order, so an
entry that is closed already can be found in place of the live one, which then stays.
-/

namespace PacketFence.Ip4log

open Foundations Lexing Entry Scan

namespace Entry

def isLive (now : Nat) (entry : Entry) : Bool :=
  match entry.endTime with
  | none => true
  | some ended => ended > now

def isRecent (now : Nat) (entry : Entry) : Bool :=
  match entry.endTime with
  | none => true
  | some ended => ended + 30 > now

def isRecentOf (now : Nat) (mac : Text) (entry : Entry) : Bool :=
  entry.mac = mac && entry.isRecent now

end Entry

def viewByMac (scan : Scan Entry) (now : Nat) (mac : Text) (log : Log) : Option Entry :=
  scan.firstBy (fun entry => OrderDual.toDual entry.startTime) (isRecentOf now mac)
    log.table.rows

/-- `mac2ip`, where the answer 0 is none. -/
def mac2ip (scan : Scan Entry) (now : Nat) (mac : Text) (log : Log) : Option Text :=
  if validMac mac then (viewByMac scan now mac log).map ip else none

/-- The previous address is closed if it is another one. -/
def closeOld (now : Nat) (ip : Text) (old : Option Text) (log : Log) : Log :=
  match old with
  | none => log
  | some oldIp => if oldIp ≠ ip then closeEntry now oldIp log else log

def updateIp4log (scan : Scan Entry) (now : Nat) (ip mac : Text) (leaseLength : Int)
    (log : Log) : Log :=
  openEntry now ip mac leaseLength (closeOld now ip (mac2ip scan now mac log) log)

/-! ### Runs -/

/-- A call, with its time and the order in which entries of one second come. The MAC is
in the form that `clean_mac` returns. -/
structure Update where
  now : Nat
  ip : Text
  mac : Text
  leaseLength : Int
  scan : Scan Entry

structure State where
  log : Log
  clock : Nat

def State.initial : State := ⟨.empty entrySchema Past, 0⟩

def Update.run (update : Update) (log : Log) : Log :=
  updateIp4log update.scan update.now update.ip update.mac update.leaseLength log

/-- Times do not decrease. -/
def updates : Machine State Update where
  step? := fun state update =>
    if state.clock ≤ update.now then some ⟨update.run state.log, update.now⟩ else none

/-- Every device has at most one live address at the time. -/
def SingleLive (now : Nat) (log : Log) : Prop :=
  ∀ mac, (log.table.rows.countP fun entry => entry.mac = mac && entry.isLive now) ≤ 1

/-- The live entry of the device is for another address, and an entry that was opened in
the same second is still found. -/
def Ambiguous (now : Nat) (ip mac : Text) (log : Log) : Prop :=
  ∃ live ∈ log.table.rows, ∃ other ∈ log.table.rows,
    live.mac = mac ∧ live.isLive now = true ∧ live.ip ≠ ip ∧
      other.mac = mac ∧ other ≠ live ∧ other.isRecent now = true ∧
        other.startTime = live.startTime

instance (now : Nat) (ip mac : Text) (log : Log) : Decidable (Ambiguous now ip mac log) :=
  inferInstanceAs (Decidable (∃ live ∈ log.table.rows, _))

variable {log : Log} {now clock : Nat} {ip mac oldIp : Text} {leaseLength : Int}
  {entry live other row : Entry} {scan : Scan Entry}

theorem Entry.isRecent_of_isLive (alive : entry.isLive now = true) : entry.isRecent now = true := by
  unfold isLive at alive
  unfold isRecent
  cases ends : entry.endTime with
  | none => rfl
  | some ended =>
    simp only [ends, gt_iff_lt, decide_eq_true_eq] at alive ⊢
    omega

theorem Entry.isLive_of_le (later : clock ≤ now) (alive : entry.isLive now = true) :
    entry.isLive clock = true := by
  unfold isLive at *
  cases ends : entry.endTime with
  | none => rfl
  | some ended =>
    simp only [ends, gt_iff_lt, decide_eq_true_eq] at alive ⊢
    omega

@[simp] theorem Entry.isLive_endedAt : (entry.endedAt now).isLive now = false := by
  simp [isLive, endedAt]

theorem isLive_newEntry : (newEntry now ip mac leaseLength).isLive now = true := by
  unfold isLive newEntry
  cases ends : leaseEnd now leaseLength with
  | none => rfl
  | some ended => simpa using lt_of_leaseEnd ends

theorem eq_of_ip (member : entry ∈ log.table.rows) (also : other ∈ log.table.rows)
    (same : entry.ip = other.ip) : entry = other :=
  List.inj_on_of_nodup_map log.table.distinct member also same

theorem mem_openEntry_iff (valid : (validIp ip && validMac mac) = true) :
    entry ∈ (openEntry now ip mac leaseLength log).table.rows ↔
      entry = newEntry now ip mac leaseLength ∨ entry ∈ log.table.rows ∧ entry.ip ≠ ip := by
  rw [openEntry, if_pos valid]
  refine Schema.mem_upsert_iff_of_replaces log.table.distinct ?_
  intro old same
  change { newEntry now ip mac leaseLength with ip := old.ip } = newEntry now ip mac leaseLength
  rw [show old.ip = (newEntry now ip mac leaseLength).ip from same]

theorem mem_closeEntry_iff (valid : validIp oldIp = true) :
    entry ∈ (closeEntry now oldIp log).table.rows ↔
      ∃ old ∈ log.table.rows, entry = if old.ip = oldIp then old.endedAt now else old := by
  rw [closeEntry, if_pos valid]
  unfold Journal.updateKey Table.update
  rw [List.mem_map]
  simp only [and_true, eq_comm (b := entry)]
  rfl

structure Tidy (clock : Nat) (log : Log) : Prop where
  valid : ∀ entry ∈ log.table.rows, validIp entry.ip = true ∧ validMac entry.mac = true
  started : ∀ entry ∈ log.table.rows, entry.startTime ≤ clock
  latest : ∀ live ∈ log.table.rows, live.isLive clock = true → ∀ other ∈ log.table.rows,
    other.mac = live.mac → other ≠ live →
      other.isLive clock = false ∧ other.startTime ≤ live.startTime

theorem Tidy.singleLive (tidy : Tidy clock log) : SingleLive clock log := by
  intro mac
  refine (countP_le_one_iff (log.table.distinct.of_map _)).mpr ?_
  intro first here second there isFirst isSecond
  simp only [Bool.and_eq_true, decide_eq_true_eq] at isFirst isSecond
  by_contra different
  have ended := (tidy.latest first here isFirst.2 second there (isSecond.1.trans isFirst.1.symm)
    (Ne.symm different)).1
  rw [isSecond.2] at ended
  cases ended

theorem Tidy.later (tidy : Tidy clock log) (later : clock ≤ now) : Tidy now log where
  valid := tidy.valid
  started := fun entry member => (tidy.started entry member).trans later
  latest := by
    intro live here alive other there same different
    obtain ⟨ended, before⟩ :=
      tidy.latest live here (isLive_of_le later alive) other there same different
    refine ⟨?_, before⟩
    by_contra still
    rw [isLive_of_le later (by simpa using still)] at ended
    cases ended

/-- A live entry is not older than any other of its device, and it is the one that is
found if there is no other of the same second. -/
theorem Tidy.mac2ip_live (tidy : Tidy now log) (clear : ¬ Ambiguous now ip mac log)
    (member : live ∈ log.table.rows) (isMac : live.mac = mac) (alive : live.isLive now = true)
    (elsewhere : live.ip ≠ ip) (scan : Scan Entry) : mac2ip scan now mac log = some live.ip := by
  have recent : live.isRecentOf now mac = true := by
    simp [isRecentOf, isMac, isRecent_of_isLive alive]
  obtain ⟨first, found⟩ := exists_firstBy scan
    (fun entry : Entry => OrderDual.toDual entry.startTime) member recent
  have firstMember := mem_of_firstBy found
  have firstRecent := wanted_of_firstBy found
  have notOlder : live.startTime ≤ first.startTime :=
    OrderDual.toDual_le_toDual.mp (key_le_of_firstBy found member recent)
  rw [isRecentOf, Bool.and_eq_true, decide_eq_true_eq] at firstRecent
  have same : first = live := by
    by_contra different
    have before := (tidy.latest live member alive first firstMember
      (firstRecent.1.trans isMac.symm) different).2
    exact clear ⟨live, member, first, firstMember, isMac, alive, elsewhere, firstRecent.1,
      different, firstRecent.2, Nat.le_antisymm before notOlder⟩
  rw [mac2ip, if_pos (isMac ▸ (tidy.valid live member).2), viewByMac, found, same]
  rfl

theorem mem_updateIp4log_iff (validAddress : validIp ip = true) (validDevice : validMac mac = true)
    (valid : ∀ entry ∈ log.table.rows, validIp entry.ip = true ∧ validMac entry.mac = true) :
    row ∈ (updateIp4log scan now ip mac leaseLength log).table.rows ↔
      row = newEntry now ip mac leaseLength ∨ ∃ old ∈ log.table.rows, old.ip ≠ ip ∧
        row = if mac2ip scan now mac log = some old.ip then old.endedAt now else old := by
  rw [updateIp4log, mem_openEntry_iff (by rw [validAddress, validDevice]; rfl)]
  refine or_congr_right ?_
  cases found : mac2ip scan now mac log with
  | none => simp [closeOld, and_comm]
  | some oldIp =>
    rw [closeOld]
    by_cases same : oldIp = ip
    · rw [if_neg (not_not.mpr same)]
      constructor
      · rintro ⟨member, other⟩
        exact ⟨row, member, other, by simp [same, Ne.symm other]⟩
      · rintro ⟨old, member, other, isRow⟩
        rw [isRow, if_neg (by simp [same, Ne.symm other])]
        exact ⟨member, other⟩
    · have validOld : validIp oldIp = true := by
        rw [mac2ip, if_pos validDevice] at found
        obtain ⟨first, isFirst, rfl⟩ := Option.map_eq_some_iff.mp found
        exact (valid first (mem_of_firstBy isFirst)).1
      rw [if_pos same, mem_closeEntry_iff validOld]
      constructor
      · rintro ⟨⟨old, member, isRow⟩, other⟩
        refine ⟨old, member, ?_, ?_⟩
        · rw [isRow] at other
          split at other <;> exact other
        · simp [isRow, eq_comm]
      · rintro ⟨old, member, other, isRow⟩
        refine ⟨⟨old, member, ?_⟩, ?_⟩
        · simp [isRow, eq_comm]
        · rw [isRow]
          split <;> exact other

theorem updateIp4log_of_invalid (invalid : validMac mac = false) :
    updateIp4log scan now ip mac leaseLength log = log := by
  simp [updateIp4log, mac2ip, closeOld, openEntry, invalid]

structure Remains (now : Nat) (ip : Text) (found : Option Text) (row old : Entry) : Prop where
  elsewhere : old.ip ≠ ip
  ip : row.ip = old.ip
  mac : row.mac = old.mac
  startTime : row.startTime = old.startTime
  live : row.isLive now = true → row = old ∧ found ≠ some old.ip
  unfound : found ≠ some old.ip → row = old

theorem new_or_remains (validAddress : validIp ip = true) (validDevice : validMac mac = true)
    (valid : ∀ entry ∈ log.table.rows, validIp entry.ip = true ∧ validMac entry.mac = true)
    (member : row ∈ (updateIp4log scan now ip mac leaseLength log).table.rows) :
    row = newEntry now ip mac leaseLength ∨
      ∃ old ∈ log.table.rows, Remains now ip (mac2ip scan now mac log) row old := by
  rcases (mem_updateIp4log_iff validAddress validDevice valid).mp member with
    isNew | ⟨old, present, elsewhere, isRow⟩
  · exact .inl isNew
  · refine .inr ⟨old, present, ?_⟩
    split at isRow
    next found =>
      subst isRow
      refine ⟨elsewhere, rfl, rfl, rfl, fun alive => ?_, fun other => absurd found other⟩
      rw [isLive_endedAt] at alive
      cases alive
    next unfound =>
      subst isRow
      exact ⟨elsewhere, rfl, rfl, rfl, fun _ => ⟨rfl, unfound⟩, fun _ => rfl⟩

theorem Tidy.not_isLive (tidy : Tidy now log) (clear : ¬ Ambiguous now ip mac log)
    {old : Entry} (present : old ∈ log.table.rows)
    (remains : Remains now ip (mac2ip scan now mac log) row old) (isMac : row.mac = mac) :
    row.isLive now = false := by
  by_contra still
  obtain ⟨rfl, unfound⟩ := remains.live (by simpa using still)
  exact unfound (tidy.mac2ip_live clear present isMac (by simpa using still) remains.elsewhere scan)

/-- After the call, too, the other entries of a device have ended and are not younger than its
live one. -/
theorem Tidy.latest_update (tidy : Tidy now log) (validAddress : validIp ip = true)
    (validDevice : validMac mac = true) (clear : ¬ Ambiguous now ip mac log)
    (here : live ∈ (updateIp4log scan now ip mac leaseLength log).table.rows)
    (alive : live.isLive now = true)
    (there : other ∈ (updateIp4log scan now ip mac leaseLength log).table.rows)
    (same : other.mac = live.mac) (different : other ≠ live) :
    other.isLive now = false ∧ other.startTime ≤ live.startTime := by
  rcases new_or_remains validAddress validDevice tidy.valid there with
    rfl | ⟨old, present, remains⟩
  · -- a live entry of another time is not of this device
    rcases new_or_remains validAddress validDevice tidy.valid here with
      rfl | ⟨before, wasThere, stays⟩
    · exact absurd rfl different
    · rw [tidy.not_isLive clear wasThere stays same.symm] at alive
      cases alive
  · rcases new_or_remains validAddress validDevice tidy.valid here with
      rfl | ⟨before, wasThere, stays⟩
    · refine ⟨tidy.not_isLive clear present remains same, ?_⟩
      rw [remains.startTime]
      exact tidy.started old present
    · obtain ⟨rfl, unfound⟩ := stays.live alive
      have distinct : old ≠ live := by
        rintro rfl
        exact different (remains.unfound unfound)
      obtain ⟨ended, earlier⟩ := tidy.latest live wasThere alive old present
        (remains.mac.symm.trans same) distinct
      refine ⟨?_, remains.startTime.trans_le earlier⟩
      by_contra still
      rw [← (remains.live (by simpa using still)).1] at ended
      exact still ended

theorem Tidy.update (tidy : Tidy now log) (validAddress : validIp ip = true)
    (clear : ¬ Ambiguous now ip mac log) :
    Tidy now (updateIp4log scan now ip mac leaseLength log) := by
  cases validDevice : validMac mac with
  | false => rwa [updateIp4log_of_invalid validDevice]
  | true =>
    refine ⟨?_, ?_, fun live here alive other there same different =>
      tidy.latest_update validAddress validDevice clear here alive there same different⟩
    · intro row member
      rcases new_or_remains validAddress validDevice tidy.valid member with
        rfl | ⟨old, present, remains⟩
      · exact ⟨validAddress, validDevice⟩
      · rw [remains.ip, remains.mac]
        exact tidy.valid old present
    · intro row member
      rcases new_or_remains validAddress validDevice tidy.valid member with
        rfl | ⟨old, present, remains⟩
      · exact le_rfl
      · rw [remains.startTime]
        exact tidy.started old present

theorem exists_scan_of_ambiguous (leaseLength : Int) (tidy : Tidy now log)
    (validAddress : validIp ip = true) (ambiguous : Ambiguous now ip mac log) :
    ∃ scan, ¬ SingleLive now (updateIp4log scan now ip mac leaseLength log) := by
  obtain ⟨live, here, other, there, isMac, alive, elsewhere, otherMac, different, recent,
    sameStart⟩ := ambiguous
  have validDevice : validMac mac = true := isMac ▸ (tidy.valid live here).2
  have first : viewByMac (startingWith other) now mac log = some other := by
    refine startingWith_firstBy there (by simp [isRecentOf, otherMac, recent]) ?_
    intro entry member found
    rw [isRecentOf, Bool.and_eq_true, decide_eq_true_eq] at found
    rw [OrderDual.toDual_le_toDual, sameStart]
    by_cases same : entry = live
    · rw [same]
    · exact (tidy.latest live here alive entry member (found.1.trans isMac.symm) same).2
  have found : mac2ip (startingWith other) now mac log = some other.ip := by
    rw [mac2ip, if_pos validDevice, first]
    rfl
  have otherIp : other.ip ≠ live.ip := fun same => different (eq_of_ip there here same)
  refine ⟨startingWith other, fun single => ?_⟩
  have stays : live ∈
      (updateIp4log (startingWith other) now ip mac leaseLength log).table.rows := by
    refine (mem_updateIp4log_iff validAddress validDevice tidy.valid).mpr
      (.inr ⟨live, here, elsewhere, ?_⟩)
    rw [found, if_neg (by simpa using otherIp)]
  have opened : newEntry now ip mac leaseLength ∈
      (updateIp4log (startingWith other) now ip mac leaseLength log).table.rows :=
    (mem_updateIp4log_iff validAddress validDevice tidy.valid).mpr (.inl rfl)
  have same := eq_of_countP_le_one (single mac) stays (by simp [isMac, alive]) opened
    (by simp [isLive_newEntry]; rfl)
  exact elsewhere (congrArg Entry.ip same)

/-- The calls that find the live entry of their device. -/
def Clear (state : State) (update : Update) : Prop :=
  validIp update.ip = true ∧ ¬ Ambiguous update.now update.ip update.mac state.log

instance (state : State) (update : Update) : Decidable (Clear state update) :=
  inferInstanceAs (Decidable (_ ∧ _))

theorem tidy_of_reaches {state : State} (reached : updates.Reaches Clear .initial state) :
    Tidy state.clock state.log := by
  induction reached with
  | refl => exact ⟨fun _ => nofun, fun _ => nofun, fun _ => nofun⟩
  | step _ clear stepped tidy =>
    simp only [updates] at stepped
    split at stepped
    next later =>
      cases stepped
      exact (tidy.later later).update clear.1 clear.2
    · cases stepped

/-- As long as every call finds the live entry of its device, no device has two live
addresses; and the next call keeps it so in every order of the entries exactly if no other
entry of the device that is still found was opened in the same second as the live one. -/
theorem single_live_address_iff {state : State} (reached : updates.Reaches Clear .initial state) :
    SingleLive state.clock state.log ∧
      ∀ now ip mac leaseLength, state.clock ≤ now → validIp ip = true →
        ((∀ scan, SingleLive now (updateIp4log scan now ip mac leaseLength state.log)) ↔
          ¬ Ambiguous now ip mac state.log) := by
  have tidy := tidy_of_reaches reached
  refine ⟨tidy.singleLive, fun now ip mac leaseLength later validAddress => ?_⟩
  constructor
  · intro single ambiguous
    obtain ⟨scan, double⟩ := exists_scan_of_ambiguous leaseLength (tidy.later later)
      validAddress ambiguous
    exact double (single scan)
  · intro clear scan
    exact ((tidy.later later).update validAddress clear).singleLive

namespace Moving

def laptop : Text := "00:11:22:33:44:55".toList

def address (last : Char) : Text := "10.0.0.".toList ++ [last]

def slowly : List Update :=
  [⟨10, address '1', laptop, 0, .inOrder⟩, ⟨20, address '2', laptop, 300, .inOrder⟩]

/-- The laptop moves twice in one second, and its first entry is found in the end. -/
def quickly : List Update :=
  [⟨10, address '1', laptop, 0, .inOrder⟩, ⟨10, address '2', laptop, 0, .inOrder⟩,
    ⟨10, address '3', laptop, 0, .startingWith ⟨laptop, address '1', 10, some 10⟩⟩]

end Moving

theorem slow_move_single_live :
    ∃ state, updates.Reaches Clear .initial state ∧ SingleLive state.clock state.log ∧
      state.log.table.rows = [⟨Moving.laptop, Moving.address '1', 10, some 20⟩,
          ⟨Moving.laptop, Moving.address '2', 20, some 320⟩] := by
  obtain ⟨state, replayed, rows⟩ := Option.map_eq_some_iff.mp
    (show (updates.replay? (fun state update => decide (Clear state update)) .initial
        Moving.slowly).map (fun state => state.log.table.rows) =
      some [⟨Moving.laptop, Moving.address '1', 10, some 20⟩,
        ⟨Moving.laptop, Moving.address '2', 20, some 320⟩] by decide)
  have reached : updates.Reaches Clear .initial state :=
    Machine.reaches_of_checked (fun _ _ => of_decide_eq_true) replayed
  exact ⟨state, reached, (single_live_address_iff reached).1, rows⟩

theorem quick_moves_two_live :
    ∃ state, updates.Reaches (fun _ update => validIp update.ip = true) .initial state ∧
      (state.log.table.rows.countP fun entry =>
        entry.mac = Moving.laptop && entry.isLive state.clock) = 2 := by
  obtain ⟨state, replayed, rows⟩ := Option.map_eq_some_iff.mp
    (show (updates.replay? (fun _ update => validIp update.ip) .initial
        Moving.quickly).map (fun state => state.log.table.rows.countP fun entry =>
          entry.mac = Moving.laptop && entry.isLive state.clock) = some 2 by decide)
  exact ⟨state, Machine.reaches_of_checked (fun _ _ checked => checked) replayed, rows⟩

end PacketFence.Ip4log
