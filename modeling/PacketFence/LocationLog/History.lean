import PacketFence.Foundations.Journal
import PacketFence.LocationLog.Synchronize

/-!
# The stays of a device

A trigger copies the row of a device to `locationlog_history` after each update that
leaves its session alone. One that moves the device makes the copy that is wanted.
One that ends the stay copies it too, although the row keeps it, and so does one that
sets the session the row has already, although the stay goes on. Sessions are compared by
the collation of their column, which by default ignores case.
-/

namespace PacketFence.LocationLog

open Foundations Lexing List Option Folder

structure Logged extends Entry where
  sessionId : Option Text

/-- The session is not among the fields that are saved. -/
def loggedSchema : Schema Logged Text where
  key := fun logged => logged.mac
  merge := fun old new => { new with mac := old.mac, sessionId := old.sessionId }
  key_merge := fun _ _ => rfl

abbrev StayLog := Journal loggedSchema Logged

namespace Logged

/-- The row as it is copied: it ends now unless it has ended already. -/
def past (now : Nat) (old : Logged) : Logged :=
  { old with
    endTime := some (match old.endTime with
      | none => now
      | some ended => if ended > now then now else ended) }

def endedAt (now : Nat) (logged : Logged) : Logged :=
  { logged with endTime := some now }

def inSession (sessionId : Option Text) (logged : Logged) : Logged :=
  { logged with sessionId := sessionId }

@[simp] theorem key_endedAt (now : Nat) (logged : Logged) :
    loggedSchema.key (logged.endedAt now) = loggedSchema.key logged := rfl

@[simp] theorem key_inSession (sessionId : Option Text) (logged : Logged) :
    loggedSchema.key (logged.inSession sessionId) = loggedSchema.key logged := rfl

def isOpen (logged : Logged) : Bool :=
  logged.endTime.isNone

end Logged

variable (collate : Text → Text) (now : Nat)

/-- `locationlog_insert_in_history_after_insert`, where two sessions are the same if their
collation keys are, or if both are `NULL` -/
def insertInHistory : Trigger Logged Logged := fun old new =>
  if old.sessionId.map collate = new.sessionId.map collate then some (old.past now) else none

/-- A MAC address is saved in lower case, and compared without regard to it. -/
def lowerMac (mac : Text) : Text :=
  mac.map Char.toLower

def Request.newLogged (request : Request) (now : Nat) (previous : Option Entry) : Logged where
  toEntry := { request.newEntry now previous with mac := lowerMac (request.mac.getD []) }
  sessionId := none

def locationlogInsertStart (request : Request) (previous : Option Entry) : StayLog → StayLog :=
  Journal.save (insertInHistory collate now) (request.newLogged now previous)

def locationlogUpdateEndMac (mac : Text) : StayLog → StayLog :=
  Journal.updateKey (insertInHistory collate now) (lowerMac mac) Logged.isOpen (Logged.endedAt now)
    (Logged.key_endedAt now)

def locationlogSetSession (mac : Text) (sessionId : Option Text) : StayLog → StayLog :=
  Journal.updateKey (insertInHistory collate now) (lowerMac mac) Logged.isOpen
    (Logged.inSession sessionId) (Logged.key_inSession sessionId)

theorem files_insertInHistory :
    Journal.Files loggedSchema (fun logged => logged.mac) (insertInHistory collate now) := by
  intro old new copy made
  unfold insertInHistory at made
  split at made
  · cases made; rfl
  · cases made

/-! ### Runs -/

inductive StayCall where
  | insertStart (time : Nat) (request : Request) (previous : Option Entry)
  | updateEndMac (time : Nat) (mac : Text)
  | setSession (time : Nat) (mac : Text) (sessionId : Option Text)

namespace StayCall

def device : StayCall → Text
  | insertStart _ request _ => lowerMac (request.mac.getD [])
  | updateEndMac _ mac => lowerMac mac
  | setSession _ mac _ => lowerMac mac

def run (log : StayLog) : StayCall → StayLog
  | insertStart now request previous => locationlogInsertStart collate now request previous log
  | updateEndMac now mac => locationlogUpdateEndMac collate now mac log
  | setSession now mac sessionId => locationlogSetSession collate now mac sessionId log

def apply (folder : Folder Logged Logged) : StayCall → Folder Logged Logged
  | insertStart now request previous =>
    folder.save loggedSchema.merge (insertInHistory collate now) (request.newLogged now previous)
  | updateEndMac now _ =>
    folder.update (insertInHistory collate now) Logged.isOpen (Logged.endedAt now)
  | setSession now _ sessionId =>
    folder.update (insertInHistory collate now) Logged.isOpen (Logged.inSession sessionId)

theorem folder_run (call : StayCall) (log : StayLog) (mac : Text) :
    (call.run collate log).folder (fun logged => logged.mac) mac =
      if call.device = mac then call.apply collate (log.folder (fun logged => logged.mac) mac)
      else log.folder (fun logged => logged.mac) mac := by
  cases call with
  | insertStart now request previous =>
    exact Journal.folder_save (files_insertInHistory collate now)
  | updateEndMac now given =>
    exact Journal.folder_updateKey (files_insertInHistory collate now) (Logged.key_endedAt now)
  | setSession now given sessionId =>
    exact Journal.folder_updateKey (files_insertInHistory collate now)
      (Logged.key_inSession sessionId)

end StayCall

def logged (calls : List StayCall) (mac : Text) : Folder Logged Logged :=
  (calls.foldl (StayCall.run collate) (.empty loggedSchema Logged)).folder
    (fun logged => logged.mac) mac

/-! ### Stays -/

/-- A stay of a device; one without an end goes on. -/
structure Stay where
  switch : Text
  port : Text
  vlan : Option Text
  startTime : Nat
  endTime : Option Nat
  deriving DecidableEq

def Stay.endAt (now : Nat) (stay : Stay) : Stay :=
  { stay with endTime := some (stay.endTime.getD now) }

def Logged.stay (logged : Logged) : Stay where
  switch := logged.switch
  port := logged.port
  vlan := logged.vlan
  startTime := logged.startTime
  endTime := logged.endTime

def StayCall.extend (stays : List Stay) : StayCall → List Stay
  | insertStart now request previous =>
    stays.map (Stay.endAt now) ++ [(request.newLogged now previous).stay]
  | updateEndMac now _ => stays.map (Stay.endAt now)
  | setSession _ _ _ => stays

variable (calls : List StayCall)

def stays (mac : Text) : List Stay :=
  calls.foldl (fun known call => if call.device = mac then call.extend known else known) []

def records (folder : Folder Logged Logged) : List Stay :=
  folder.copies.map Logged.stay ++ (folder.row?.map Logged.stay).toList

structure RecordedOnce (mac : Text) : Prop where
  stays : (records (logged collate calls mac)).Perm (stays calls mac)
  sessions : ∀ before time given sessionId,
    before ++ [StayCall.setSession time given sessionId] <+: calls →
      (logged collate (before ++ [.setSession time given sessionId]) mac).copies =
        (logged collate before mac).copies

def StayCall.Doubles (folder : Folder Logged Logged) : StayCall → Prop
  | insertStart _ _ _ => False
  | updateEndMac _ _ => ∃ row ∈ folder.row?, row.endTime = none
  | setSession _ _ sessionId => ∃ row ∈ folder.row?,
      row.endTime = none ∧ row.sessionId.map collate = sessionId.map collate

def NeverDoubled (mac : Text) : Prop :=
  ∀ before call, before ++ [call] <+: calls → call.device = mac →
    ¬ call.Doubles collate (logged collate before mac)

variable {collate : Text → Text} {calls before : List StayCall} {call : StayCall} {mac : Text}
  {now : Nat}  {row : Logged} {folder : Folder Logged Logged}

@[simp] theorem logged_concat :
    logged collate (calls ++ [call]) mac =
      if call.device = mac then call.apply collate (logged collate calls mac)
      else logged collate calls mac := by
  unfold logged
  rw [foldl_append]
  exact call.folder_run collate _ mac

@[simp] theorem stays_concat :
    stays (calls ++ [call]) mac =
      if call.device = mac then call.extend (stays calls mac) else stays calls mac := by
  rw [stays, foldl_append]
  rfl

theorem neverDoubled_concat :
    NeverDoubled collate (calls ++ [call]) mac ↔ NeverDoubled collate calls mac ∧
      (call.device = mac → ¬ call.Doubles collate (logged collate calls mac)) := by
  unfold NeverDoubled
  simp only [prefix_concat_iff]
  constructor
  · intro never
    exact ⟨fun before other isBefore => never before other (.inr isBefore),
      never calls call (.inl rfl)⟩
  · rintro ⟨never, last⟩ before other (same | isBefore)
    · obtain ⟨rfl, isLast⟩ := append_inj' same rfl
      cases isLast
      exact last
    · exact never before other isBefore

variable {given : Text} {sessionId : Option Text} {request : Request} {previous : Option Entry}

@[simp] theorem copies_insertStart :
    ((StayCall.insertStart now request previous).apply collate folder).copies =
      folder.copies ++ (folder.row?.map (Logged.past now)).toList := by
  cases present : folder.row? <;>
    simp [StayCall.apply, save, present, insertInHistory, loggedSchema]

@[simp] theorem row_insertStart :
    ((StayCall.insertStart now request previous).apply collate folder).row?.map Logged.stay =
      some (request.newLogged now previous).stay := by
  cases present : folder.row? <;>
    simp [StayCall.apply, save, present, loggedSchema, Logged.stay]

theorem records_insertStart :
    records ((StayCall.insertStart now request previous).apply collate folder) =
      folder.copies.map Logged.stay ++ (folder.row?.map fun row => (row.past now).stay).toList ++
        [(request.newLogged now previous).stay] := by
  rw [records, copies_insertStart, row_insertStart, map_append]
  cases folder.row? <;> rfl

theorem copies_updateEndMac : ((StayCall.updateEndMac now given).apply collate folder).copies =
      folder.copies ++ ((folder.row?.filter Logged.isOpen).map (Logged.past now)).toList := by
  simp only [StayCall.apply, update]
  cases folder.row?.filter Logged.isOpen with
  | none => rfl
  | some row => simp [insertInHistory, Logged.endedAt]

theorem copies_setSession :
    ((StayCall.setSession now given sessionId).apply collate folder).copies =
      folder.copies ++ ((folder.row?.filter fun row => row.isOpen &&
        row.sessionId.map collate == sessionId.map collate).map (Logged.past now)).toList := by
  simp only [StayCall.apply, update]
  cases folder.row? with
  | none => rfl
  | some row =>
    cases isOpen : row.isOpen <;>
      by_cases same : row.sessionId.map collate = sessionId.map collate <;>
      simp [Option.filter, insertInHistory, Logged.inSession, isOpen, same]

@[simp] theorem length_records :
    (records folder).length = folder.copies.length + folder.row?.toList.length := by
  cases present : folder.row? <;> simp [records, present]

theorem length_of_doubles (known : List Stay) (doubles : call.Doubles collate folder) :
    (records (call.apply collate folder)).length = (records folder).length + 1 ∧
      (call.extend known).length = known.length := by
  cases call with
  | insertStart now request previous => exact absurd doubles id
  | updateEndMac now given =>
    obtain ⟨row, present, isOpen⟩ := doubles
    rw [mem_def] at present
    rw [length_records, length_records, copies_updateEndMac, StayCall.extend]
    simp [StayCall.apply, update, present, Option.filter, Logged.isOpen, isOpen]
  | setSession now given sessionId =>
    obtain ⟨row, present, isOpen, same⟩ := doubles
    rw [mem_def] at present
    rw [length_records, length_records, copies_setSession, StayCall.extend]
    simp [StayCall.apply, update, present, Option.filter, Logged.isOpen, isOpen, same]

theorem length_of_not_doubles (known : List Stay) (single : ¬ call.Doubles collate folder) :
    (records (call.apply collate folder)).length + known.length =
      (records folder).length + (call.extend known).length := by
  rw [length_records, length_records]
  cases call with
  | insertStart now request previous =>
    rw [copies_insertStart]
    cases present : folder.row? <;>
      simp [StayCall.apply, save, StayCall.extend] <;> omega
  | updateEndMac now given =>
    have nothing : folder.row?.filter Logged.isOpen = none := by
      refine filter_eq_none_iff.mpr fun row present => ?_
      have ended : row.endTime ≠ none := fun isOpen => single ⟨row, present, isOpen⟩
      simpa [Logged.isOpen] using ended
    rw [copies_updateEndMac, nothing]
    simp [StayCall.apply, update, StayCall.extend, toList_map]
  | setSession now given sessionId =>
    have nothing : (folder.row?.filter fun row =>
        row.isOpen && row.sessionId.map collate == sessionId.map collate) = none := by
      refine filter_eq_none_iff.mpr fun row present => ?_
      intro both
      rw [Bool.and_eq_true, beq_iff_eq] at both
      exact single ⟨row, present, isNone_iff_eq_none.mp both.1, both.2⟩
    rw [copies_setSession, nothing]
    simp [StayCall.apply, update, StayCall.extend, toList_map]

theorem neverDoubled_of_length :
    (stays calls mac).length ≤ (records (logged collate calls mac)).length ∧
      ((records (logged collate calls mac)).length = (stays calls mac).length →
        NeverDoubled collate calls mac) := by
  induction calls using List.reverseRecOn with
  | nil =>
    refine ⟨Nat.zero_le _, fun _ before call isBefore => ?_⟩
    simp at isBefore
  | append_singleton calls call ih =>
    obtain ⟨atLeast, never⟩ := ih
    rw [logged_concat, stays_concat, neverDoubled_concat]
    by_cases isDevice : call.device = mac
    · rw [if_pos isDevice, if_pos isDevice]
      by_cases doubles : call.Doubles collate (logged collate calls mac)
      · have counted := length_of_doubles (stays calls mac) doubles
        exact ⟨by omega, fun equal => by omega⟩
      · have counted := length_of_not_doubles (stays calls mac) doubles
        exact ⟨by omega, fun equal => ⟨never (by omega), fun _ => doubles⟩⟩
    · rw [if_neg isDevice, if_neg isDevice]
      exact ⟨atLeast, fun equal => ⟨never equal, fun same => absurd same isDevice⟩⟩

/-- The records are the stays in order, all past ones ended and the current one open. -/
structure Exact (folder : Folder Logged Logged) (known : List Stay) : Prop where
  records : records folder = known
  copies : ∀ copy ∈ folder.copies, copy.endTime ≠ none
  row : ∀ row ∈ folder.row?, row.endTime = none

theorem endAt_of_ended {stay : Stay} (ended : stay.endTime ≠ none) : stay.endAt now = stay := by
  obtain ⟨switch, port, vlan, startTime, endTime⟩ := stay
  cases endTime with
  | none => exact absurd rfl ended
  | some stop => rfl

theorem endAt_of_open (isOpen : row.endTime = none) : row.stay.endAt now = (row.past now).stay := by
  simp [Stay.endAt, Logged.stay, Logged.past, isOpen]

theorem map_endAt_copies {copies : List Logged} (ended : ∀ copy ∈ copies, copy.endTime ≠ none) :
    (copies.map Logged.stay).map (Stay.endAt now) = copies.map Logged.stay := by
  rw [List.map_map]
  exact map_congr_left fun copy member => endAt_of_ended (ended copy member)

variable {known : List Stay}

theorem Exact.insertStart (before : Exact folder known) :
    Exact ((StayCall.insertStart now request previous).apply collate folder)
      ((StayCall.insertStart now request previous).extend known) := by
  obtain ⟨rfl, ended, isOpen⟩ := before
  refine ⟨?_, ?_, ?_⟩
  · rw [records_insertStart, StayCall.extend, LocationLog.records, map_append,
      map_endAt_copies ended]
    cases present : folder.row? with
    | none => rfl
    | some row => simp [endAt_of_open (isOpen row present)]
  · rw [copies_insertStart]
    intro copy member
    rcases mem_append.mp member with old | new
    · exact ended copy old
    · obtain ⟨row, _, rfl⟩ := map_eq_some_iff.mp (mem_toList.mp new)
      exact some_ne_none _
  · intro row present
    cases old : folder.row? <;>
      simp only [StayCall.apply, save, old, Option.elim, mem_def,
        Option.some.injEq] at present <;> subst present <;> rfl

theorem Exact.updateEndMac (before : Exact folder known)
    (single : ¬ (StayCall.updateEndMac now given).Doubles collate folder) :
    Exact ((StayCall.updateEndMac now given).apply collate folder)
      ((StayCall.updateEndMac now given).extend known) := by
  obtain ⟨rfl, ended, isOpen⟩ := before
  have absent : folder.row? = none := by
    refine eq_none_iff_forall_not_mem.mpr fun row present => ?_
    exact single ⟨row, present, isOpen row present⟩
  refine ⟨?_, ?_, ?_⟩
  · rw [LocationLog.records, copies_updateEndMac, StayCall.extend, LocationLog.records, absent]
    simpa [StayCall.apply, update, absent] using (map_endAt_copies ended).symm
  · simpa [copies_updateEndMac, absent] using ended
  · simp [StayCall.apply, update, absent]

theorem Exact.setSession (before : Exact folder known)
    (single : ¬ (StayCall.setSession now given sessionId).Doubles collate folder) :
    Exact ((StayCall.setSession now given sessionId).apply collate folder)
      ((StayCall.setSession now given sessionId).extend known) := by
  obtain ⟨rfl, ended, isOpen⟩ := before
  have other : ∀ row ∈ folder.row?,
      (row.sessionId.map collate == sessionId.map collate) = false := by
    intro row present
    by_contra same
    exact single ⟨row, present, isOpen row present, by simpa using same⟩
  have uncopied :
      ((StayCall.setSession now given sessionId).apply collate folder).copies = folder.copies := by
    rw [copies_setSession]
    cases present : folder.row? with
    | none => simp
    | some row => simp [Option.filter, other row present]
  refine ⟨?_, ?_, ?_⟩
  · rw [LocationLog.records, uncopied, StayCall.extend, LocationLog.records]
    cases present : folder.row? with
    | none => simp [StayCall.apply, update, present]
    | some row =>
      have stands : row.isOpen = true := by simp [Logged.isOpen, isOpen row present]
      simp [StayCall.apply, update, present, stands, Logged.inSession, Logged.stay]
  · rw [uncopied]
    exact ended
  · intro row present
    obtain ⟨old, member, rfl⟩ := map_eq_some_iff.mp present
    split <;> exact isOpen old member

theorem Exact.apply (before : Exact folder known) (single : ¬ call.Doubles collate folder) :
    Exact (call.apply collate folder) (call.extend known) := by
  cases call with
  | insertStart now request previous => exact before.insertStart
  | updateEndMac now given => exact before.updateEndMac single
  | setSession now given sessionId => exact before.setSession single

theorem exact_of_neverDoubled (never : NeverDoubled collate calls mac) :
    Exact (logged collate calls mac) (stays calls mac) := by
  induction calls using List.reverseRecOn with
  | nil => exact ⟨rfl, fun _ => nofun, fun _ => nofun⟩
  | append_singleton calls call ih =>
    obtain ⟨before, last⟩ := neverDoubled_concat.mp never
    rw [logged_concat, stays_concat]
    by_cases isDevice : call.device = mac
    · rw [if_pos isDevice, if_pos isDevice]
      exact (ih before).apply (last isDevice)
    · rw [if_neg isDevice, if_neg isDevice]
      exact ih before

/-- Every stay is recorded once exactly if no call ended a stay that was open or set the
session that it had. -/
theorem stays_recorded_once_iff (collate : Text → Text) (calls : List StayCall) (mac : Text) :
    RecordedOnce collate calls mac ↔ NeverDoubled collate calls mac := by
  constructor
  · exact fun recorded => neverDoubled_of_length.2 recorded.stays.length_eq
  · intro never
    refine ⟨by rw [(exact_of_neverDoubled never).records], ?_⟩
    intro before time given sessionId isBefore
    rw [logged_concat]
    split
    next isDevice =>
      have single := never before _ isBefore isDevice
      rw [copies_setSession, filter_eq_none_iff.mpr, map_none, toList_none, append_nil]
      intro row present both
      rw [Bool.and_eq_true, beq_iff_eq] at both
      exact single ⟨row, present, isNone_iff_eq_none.mp both.1, both.2⟩
    · rfl

namespace Scenario

def device : Text := "00:11:22:33:44:55".toList

def connection (port : String) : Request where
  switch := "10.0.0.1".toList
  switchMac := none
  port := port.toList
  vlan := some "5".toList
  mac := some device
  voip := false
  connectionType := .wired8021x
  userName := none
  ssid := none
  role := none

def leaving : List StayCall :=
  [.insertStart 10 (connection "1") none, .updateEndMac 70 device]

def reauthenticating : List StayCall :=
  [.insertStart 10 (connection "1") none, .setSession 11 device (some "a".toList),
    .setSession 20 device (some "A".toList)]

def ignoringCase : Text → Text := List.map Char.toLower

end Scenario

/-- The stay that ended is in the history and in the table, and a session that is set
twice adds a row, also in another case. -/
theorem left_stay_recorded_twice :
    records (logged Scenario.ignoringCase Scenario.leaving Scenario.device) =
      [⟨"10.0.0.1".toList, ['1'], some ['5'], 10, some 70⟩,
        ⟨"10.0.0.1".toList, ['1'], some ['5'], 10, some 70⟩] ∧
    stays Scenario.leaving Scenario.device = [⟨"10.0.0.1".toList, ['1'], some ['5'], 10, some 70⟩] ∧
    (logged Scenario.ignoringCase Scenario.reauthenticating Scenario.device).copies.length = 1 ∧
    ¬ RecordedOnce Scenario.ignoringCase Scenario.leaving Scenario.device ∧
    ¬ RecordedOnce Scenario.ignoringCase Scenario.reauthenticating Scenario.device := by
  refine ⟨by decide, by decide, by decide, ?_, ?_⟩ <;>
    exact fun recorded => absurd recorded.stays.length_eq (by decide)

theorem logged_eq_foldl (collate : Text → Text) (calls : List StayCall) (mac : Text) :
    logged collate calls mac =
      (calls.filter (·.device = mac)).foldl (StayCall.apply collate) ⟨none, []⟩ := by
  induction calls using reverseRecOn with
  | nil => rfl
  | append_singleton calls call ih =>
    rw [logged_concat, filter_append, foldl_append, ← ih, filter_singleton]
    by_cases own : call.device = mac <;> simp [own]

end PacketFence.LocationLog
