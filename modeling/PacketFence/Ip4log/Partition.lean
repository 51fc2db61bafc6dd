import PacketFence.Ip4log.Log

/-!
# The history of an address as a partition of time

The rows of an address, past and present, are intervals of time. As long as entries
only replace each other, the intervals are disjoint and say who had the address when.
Closing an entry copies it to the history and leaves it in the table as well, so its
interval is there twice from then on.
-/

namespace PacketFence.Ip4log

open Foundations Lexing List Option Entry Folder

inductive Call where
  | opened (time : Nat) (ip mac : Text) (leaseLength : Int)
  | closed (time : Nat) (ip : Text)

variable {call : Call} {address : Text}

namespace Call

def time : Call → Nat
  | opened time _ _ _ => time
  | closed time _ => time

def ip : Call → Text
  | opened _ ip _ _ => ip
  | closed _ ip => ip

def run (log : Log) : Call → Log
  | opened now ip mac leaseLength => openEntry now ip mac leaseLength log
  | closed now ip => closeEntry now ip log

/-- Calls with an invalid address or device are refused. -/
def isAccepted : Call → Bool
  | opened _ ip mac _ => validIp ip && validMac mac
  | closed _ ip => validIp ip

def opens (address : Text) : Call → Bool
  | opened now ip mac leaseLength => ip == address && (opened now ip mac leaseLength).isAccepted
  | closed _ _ => false

def closes (address : Text) : Call → Bool
  | opened _ _ _ _ => false
  | closed now ip => ip == address && (closed now ip).isAccepted

def touches (address : Text) (call : Call) : Bool :=
  call.opens address || call.closes address

def apply (folder : Folder Entry Past) : Call → Folder Entry Past
  | opened now ip mac leaseLength =>
    folder.save entrySchema.merge (insertInIp4logHistory now) (newEntry now ip mac leaseLength)
  | closed now _ =>
    folder.update (insertInIp4logHistory now) (fun _ => true) (endedAt now)

theorem folder_run (log : Log) :
    (call.run log).folder Past.ip address =
      if call.touches address then call.apply (log.folder Past.ip address)
      else log.folder Past.ip address := by
  cases call with
  | opened now ip mac leaseLength =>
    rw [run, openEntry, touches, opens, isAccepted, closes, Bool.or_false]
    cases valid : validIp ip && validMac mac with
    | true =>
      rw [if_pos rfl, Journal.folder_save (files_insertInIp4logHistory now), Bool.and_true]
      by_cases same : ip = address <;> simp [newEntry, entrySchema, apply, same]
    | false => rw [Bool.and_false]; rfl
  | closed now ip =>
    rw [run, closeEntry, touches, closes, isAccepted, opens, Bool.false_or]
    cases valid : validIp ip with
    | true =>
      rw [if_pos rfl,
        Journal.folder_updateKey (files_insertInIp4logHistory now) (key_endedAt now),
        Bool.and_true]
      by_cases same : ip = address <;> simp [apply, same]
    | false => rw [Bool.and_false]; rfl

theorem ip_of_touches (touched : call.touches address = true) : call.ip = address := by
  cases call <;> simp_all [touches, opens, closes, ip]

end Call

def runAll (calls : List Call) : Log :=
  calls.foldl Call.run (.empty entrySchema Past)

def held (calls : List Call) (address : Text) : Folder Entry Past :=
  (runAll calls).folder Past.ip address

def Increasing (calls : List Call) (address : Text) : Prop :=
  (calls.filter fun call => call.ip = address).Pairwise fun first second =>
    first.time < second.time

instance (calls : List Call) (address : Text) : Decidable (Increasing calls address) :=
  inferInstanceAs (Decidable (List.Pairwise _ _))

/-! ### Intervals -/

/-- The time a device has an address: from its start on, until its end if there is one. -/
structure Interval where
  mac : Text
  start : Nat
  stop : Option Nat
  deriving DecidableEq

namespace Interval

def Contains (interval : Interval) (moment : Nat) : Prop :=
  interval.start ≤ moment ∧ ∀ stop ∈ interval.stop, moment < stop

/-- Disjoint except at the ends. -/
def Apart (first second : Interval) : Prop :=
  (∃ stop ∈ first.stop, stop ≤ second.start) ∨ ∃ stop ∈ second.stop, stop ≤ first.start

instance (first second : Interval) : Decidable (first.Apart second) :=
  inferInstanceAs (Decidable ((∃ stop ∈ first.stop, stop ≤ second.start) ∨
    ∃ stop ∈ second.stop, stop ≤ first.start))

end Interval

def Past.interval (past : Past) : Interval := ⟨past.mac, past.startTime, some past.endTime⟩

def Entry.interval (entry : Entry) : Interval := ⟨entry.mac, entry.startTime, entry.endTime⟩

def intervals (folder : Folder Entry Past) : List Interval :=
  folder.copies.map Past.interval ++ (folder.row?.map interval).toList

variable (calls : List Call)

def lastCall? (address : Text) (moment : Nat) : Option Call :=
  (calls.filter fun call => call.touches address && decide (call.time ≤ moment)).getLast?

/-- The device made the last open, and neither a close nor the end of its lease came
between; a lease lasts two minutes at least. -/
def HoldsAt (address mac : Text) (moment : Nat) : Prop :=
  ∃ start leaseLength,
    lastCall? calls address moment = some (.opened start address mac leaseLength) ∧
    ∀ ended ∈ leaseEnd start leaseLength, moment < ended

/-- The device has the address according to the log. -/
def Covered (folder : Folder Entry Past) (mac : Text) (moment : Nat) : Prop :=
  ∃ interval ∈ intervals folder, interval.mac = mac ∧ interval.Contains moment

structure Partitions (address : Text) : Prop where
  disjoint : (intervals (held calls address)).Pairwise Interval.Apart
  covers : ∀ mac moment,
    Covered (held calls address) mac moment ↔ HoldsAt calls address mac moment

def NeverClosed (address : Text) : Prop :=
  calls.Pairwise fun first second => ¬ (first.opens address = true ∧ second.closes address = true)

instance (calls : List Call) (address : Text) : Decidable (NeverClosed calls address) :=
  inferInstanceAs (Decidable (List.Pairwise _ _))

variable {calls : List Call} {mac : Text} {moment now bound : Nat} {entry : Entry}
  {folder : Folder Entry Past}

@[simp] theorem held_nil : held [] address = ⟨none, []⟩ := rfl

@[simp] theorem held_concat :
    held (calls ++ [call]) address =
      if call.touches address then call.apply (held calls address) else held calls address := by
  unfold held runAll
  rw [foldl_append]
  exact Call.folder_run _

theorem Increasing.of_concat (increasing : Increasing (calls ++ [call]) address) :
    Increasing calls address ∧ (call.touches address = true →
      ∀ other ∈ calls, other.touches address = true → other.time < call.time) := by
  unfold Increasing at increasing
  rw [filter_append, pairwise_append] at increasing
  refine ⟨increasing.1, fun touched other member otherTouched => ?_⟩
  refine increasing.2.2 other ?_ call ?_
  · exact mem_filter.mpr ⟨member, by simpa using Call.ip_of_touches otherTouched⟩
  · exact mem_filter.mpr ⟨mem_singleton_self call, by simpa using Call.ip_of_touches touched⟩

theorem neverClosed_concat :
    NeverClosed (calls ++ [call]) address ↔ NeverClosed calls address ∧
      (call.closes address = true → ∀ other ∈ calls, other.opens address = false) := by
  unfold NeverClosed
  rw [pairwise_append]
  simp only [pairwise_singleton, mem_singleton, forall_eq, true_and, not_and, Bool.not_eq_true]
  constructor
  · rintro ⟨before, apart⟩
    refine ⟨before, fun closed other member => ?_⟩
    by_contra opened
    rw [apart other member (by simpa using opened)] at closed
    cases closed
  · rintro ⟨before, apart⟩
    refine ⟨before, fun other member opened => ?_⟩
    by_contra closed
    rw [apart (by simpa using closed) other member] at opened
    cases opened

variable {leaseLength : Int}

theorem contains_past :
    (entry.past now).interval.Contains moment ↔
      entry.interval.Contains moment ∧ moment < now := by
  unfold Interval.Contains Past.interval past interval
  cases entry.endTime with
  | none => simp
  | some ended =>
    dsimp only
    split <;> simp <;> omega

theorem past_endTime_le : (entry.past now).endTime ≤ now := by
  unfold past
  cases entry.endTime with
  | none => exact le_rfl
  | some ended =>
    dsimp only
    split <;> omega

theorem lt_past_endTime (started : entry.startTime < now)
    (lasts : ∀ ended ∈ entry.endTime, entry.startTime < ended) :
    entry.startTime < (entry.past now).endTime := by
  unfold past
  cases isEnd : entry.endTime with
  | none => exact started
  | some ended =>
    have positive := lasts ended isEnd
    dsimp only
    split <;> omega

theorem intervals_opened : intervals ((Call.opened now address mac leaseLength).apply folder) =
      folder.copies.map Past.interval ++
        (folder.row?.map fun entry => (entry.past now).interval).toList ++
          [⟨mac, now, leaseEnd now leaseLength⟩] := by
  obtain ⟨row?, copies⟩ := folder
  cases row? with
  | none => simp [intervals, Call.apply, save, newEntry, interval]
  | some entry =>
    simp [intervals, Call.apply, save, newEntry, interval, entrySchema,
      insertInIp4logHistory]

theorem intervals_closed :
    intervals ((Call.closed now address).apply folder) = folder.copies.map Past.interval ++
        (folder.row?.map fun entry => (entry.past now).interval).toList ++
          (folder.row?.map fun entry => (entry.endedAt now).interval).toList := by
  obtain ⟨row?, copies⟩ := folder
  cases row? with
  | none => simp [intervals, Call.apply, update]
  | some entry => simp [intervals, Call.apply, update, insertInIp4logHistory, Option.filter]

theorem copies_apply :
    (call.apply folder).copies =
      folder.copies ++ (folder.row?.map (past call.time)).toList := by
  obtain ⟨row?, copies⟩ := folder
  cases call <;> cases row? <;>
    simp [Call.apply, save, update, insertInIp4logHistory, Call.time, Option.filter]

structure Recorded (bound : Nat) (folder : Folder Entry Past) : Prop where
  copies : ∀ past ∈ folder.copies, past.startTime < bound ∧ past.endTime < bound
  row : ∀ entry ∈ folder.row?,
    entry.startTime < bound ∧ ∀ ended ∈ entry.endTime, entry.startTime < ended

theorem Recorded.apply (recorded : Recorded call.time folder) (later : call.time < bound) :
    Recorded bound (call.apply folder) where
  copies := by
    intro past member
    rw [copies_apply, mem_append] at member
    rcases member with old | new
    · have ended := recorded.copies past old
      omega
    · obtain ⟨entry, present, rfl⟩ := map_eq_some_iff.mp (mem_toList.mp new)
      have started := (recorded.row entry present).1
      exact ⟨Nat.lt_trans started later, Nat.lt_of_le_of_lt past_endTime_le later⟩
  row := by
    intro entry present
    cases call with
    | opened now ip mac leaseLength =>
      have isNew : entry.startTime = now ∧ entry.endTime = leaseEnd now leaseLength := by
        cases old : folder.row? <;>
          simp only [Call.apply, save, old, Option.elim, mem_def,
            Option.some.injEq] at present <;> subst present <;> exact ⟨rfl, rfl⟩
      rw [isNew.1, isNew.2]
      exact ⟨later, fun ended ends => lt_of_leaseEnd ends⟩
    | closed now ip =>
      obtain ⟨old, member, rfl⟩ := map_eq_some_iff.mp present
      have started := (recorded.row old member).1
      refine ⟨Nat.lt_trans started later, fun ended ends => ?_⟩
      cases ends
      exact started

theorem recorded_held (increasing : Increasing calls address)
    (before : ∀ call ∈ calls, call.touches address = true → call.time < bound) :
    Recorded bound (held calls address) := by
  induction calls using List.reverseRecOn generalizing bound with
  | nil => exact ⟨fun _ => nofun, fun _ => nofun⟩
  | append_singleton calls call ih =>
    obtain ⟨earlier, later⟩ := increasing.of_concat
    have allBefore := forall_mem_append.mp before
    rw [held_concat]
    split
    next touched =>
      exact (ih earlier (later touched)).apply (allBefore.2 call (mem_singleton_self call) touched)
    · exact ih earlier allBefore.1

theorem row?_eq_none_iff :
    (held calls address).row? = none ↔ ∀ call ∈ calls, call.opens address = false := by
  induction calls using List.reverseRecOn with
  | nil => simp
  | append_singleton calls call ih =>
    rw [held_concat, forall_mem_append, ← ih, forall_mem_singleton]
    cases call with
    | opened now ip mac leaseLength =>
      cases opens : (Call.opened now ip mac leaseLength).opens address <;>
        simp [Call.touches, opens, Call.closes, Call.apply, save]
    | closed now ip =>
      have never : (Call.closed now ip).opens address = false := rfl
      split <;> simp [Call.apply, update, never]

theorem copies_eq_nil (absent : (held calls address).row? = none) :
    (held calls address).copies = [] := by
  induction calls using List.reverseRecOn with
  | nil => rfl
  | append_singleton calls call ih =>
    have before : (held calls address).row? = none := by
      rw [row?_eq_none_iff] at absent ⊢
      exact (forall_mem_append.mp absent).1
    rw [held_concat]
    split
    · simp [copies_apply, before, ih before]
    · exact ih before

/-- Each interval ends before the next ones start. -/
def Sequential (folder : Folder Entry Past) : Prop :=
  (intervals folder).Pairwise fun first second => ∃ stop ∈ first.stop, stop ≤ second.start

theorem Sequential.disjoint (sequential : Sequential folder) :
    (intervals folder).Pairwise Interval.Apart := sequential.imp Or.inl

theorem Sequential.opened (recorded : Recorded now folder) (sequential : Sequential folder) :
    Sequential ((Call.opened now address mac leaseLength).apply folder) := by
  unfold Sequential at *
  rw [intervals_opened]
  obtain ⟨pastOnly, _, beforeRow⟩ := pairwise_append.mp sequential
  refine pairwise_append.mpr ⟨pairwise_append.mpr ⟨pastOnly, ?_, ?_⟩, pairwise_singleton _ _, ?_⟩
  · cases folder.row? <;> simp
  · -- the copy starts where the row started
    intro first member second copied
    obtain ⟨entry, present, rfl⟩ := map_eq_some_iff.mp (mem_toList.mp copied)
    exact beforeRow first member entry.interval (by simp [mem_def.mp present])
  · intro first member second isNew
    rw [mem_singleton.mp isNew]
    rcases mem_append.mp member with old | copied
    · obtain ⟨past, present, rfl⟩ := List.mem_map.mp old
      exact ⟨_, rfl, (recorded.copies past present).2.le⟩
    · obtain ⟨entry, _, rfl⟩ := map_eq_some_iff.mp (mem_toList.mp copied)
      exact ⟨_, rfl, past_endTime_le⟩

theorem apart_of_past {past : Past} (started : past.startTime < now)
    (apart : past.interval.Apart (entry.past now).interval) :
    past.interval.Apart entry.interval := by
  rcases apart with before | ⟨stop, isStop, after⟩
  · exact .inl before
  · refine .inr ?_
    cases isStop
    unfold Entry.past Past.interval at after
    cases ended : entry.endTime with
    | none =>
      simp only [ended] at after
      omega
    | some stop =>
      simp only [ended] at after
      refine ⟨stop, ended, ?_⟩
      change stop ≤ past.startTime
      split at after <;> omega

theorem disjoint_of_opened (recorded : Recorded now folder)
    (disjoint : (intervals ((Call.opened now address mac leaseLength).apply folder)).Pairwise
      Interval.Apart) : (intervals folder).Pairwise Interval.Apart := by
  rw [intervals_opened] at disjoint
  obtain ⟨pastOnly, _, apart⟩ := pairwise_append.mp (pairwise_append.mp disjoint).1
  refine pairwise_append.mpr ⟨pastOnly, by cases folder.row? <;> simp, ?_⟩
  intro first member second isRow
  obtain ⟨past, present, rfl⟩ := List.mem_map.mp member
  obtain ⟨entry, found, rfl⟩ := map_eq_some_iff.mp (mem_toList.mp isRow)
  refine apart_of_past (recorded.copies past present).1 (apart _ member _ ?_)
  simp [found]

theorem not_disjoint_closed (recorded : Recorded now folder) (present : folder.row? = some entry) :
    ¬ (intervals ((Call.closed now address).apply folder)).Pairwise Interval.Apart := by
  rw [intervals_closed, present]
  intro disjoint
  obtain ⟨started, lasts⟩ := recorded.row entry present
  have overlap := lt_past_endTime started lasts
  have apart := (pairwise_append.mp disjoint).2.2 (entry.past now).interval (by simp)
    (entry.endedAt now).interval (by simp)
  rcases apart with ⟨stop, isStop, before⟩ | ⟨stop, isStop, after⟩
  · cases isStop
    exact absurd overlap (Nat.not_lt.mpr before)
  · cases isStop
    exact absurd started (Nat.not_lt.mpr after)

theorem covered_opened {device : Text} (recorded : Recorded now folder) :
    Covered ((Call.opened now address device leaseLength).apply folder) mac moment ↔
      if moment < now then Covered folder mac moment
      else device = mac ∧ ∀ ended ∈ leaseEnd now leaseLength, moment < ended := by
  unfold Covered
  rw [intervals_opened, intervals]
  simp only [mem_append, List.mem_map, mem_toList, map_eq_some_iff, mem_singleton, mem_def]
  split
  next early =>
    constructor
    · rintro ⟨interval, (⟨past, member, rfl⟩ | ⟨entry, found, rfl⟩) | rfl, isMac, inside⟩
      · exact ⟨_, .inl ⟨past, member, rfl⟩, isMac, inside⟩
      · exact ⟨_, .inr ⟨entry, found, rfl⟩, isMac, (contains_past.mp inside).1⟩
      · exact absurd inside.1 (Nat.not_le.mpr early)
    · rintro ⟨interval, ⟨past, member, rfl⟩ | ⟨entry, found, rfl⟩, isMac, inside⟩
      · exact ⟨_, .inl (.inl ⟨past, member, rfl⟩), isMac, inside⟩
      · exact ⟨_, .inl (.inr ⟨entry, found, rfl⟩), isMac, contains_past.mpr ⟨inside, early⟩⟩
  next late =>
    constructor
    · rintro ⟨interval, (⟨past, member, rfl⟩ | ⟨entry, found, rfl⟩) | rfl, isMac, inside⟩
      · have ended := (recorded.copies past member).2
        exact absurd (Nat.lt_trans (inside.2 _ rfl) ended) late
      · exact absurd (contains_past.mp inside).2 late
      · exact ⟨isMac, inside.2⟩
    · rintro ⟨rfl, lasts⟩
      exact ⟨_, .inr rfl, rfl, Nat.not_lt.mp late, lasts⟩

theorem holdsAt_concat :
    HoldsAt (calls ++ [call]) address mac moment ↔
      if call.touches address = true ∧ call.time ≤ moment then
        ∃ start leaseLength, call = .opened start address mac leaseLength ∧
          ∀ ended ∈ leaseEnd start leaseLength, moment < ended
      else HoldsAt calls address mac moment := by
  unfold HoldsAt lastCall?
  rw [filter_append]
  split
  next touched => simp [touched.1, touched.2]
  next untouched =>
    have ignored : (call.touches address && decide (call.time ≤ moment)) = false := by
      simpa using untouched
    rw [filter_cons_of_neg (by simp [ignored]), filter_nil, append_nil]

theorem not_holdsAt_of_absent (absent : ∀ call ∈ calls, call.opens address = false) :
    ¬ HoldsAt calls address mac moment := by
  rintro ⟨start, leaseLength, last, _⟩
  obtain ⟨member, wanted⟩ := mem_filter.mp (mem_of_getLast? last)
  rw [Call.touches, absent _ member] at wanted
  simp [Call.closes] at wanted

theorem intervals_held_eq_nil (absent : (held calls address).row? = none) :
    intervals (held calls address) = [] := by
  rw [intervals, absent, copies_eq_nil absent]
  rfl

theorem intervals_closed_eq_nil {ip : Text} (absent : (held calls address).row? = none) :
    intervals ((Call.closed now ip).apply (held calls address)) = [] := by
  rw [intervals_closed, absent, copies_eq_nil absent]
  rfl

theorem sequential_held (increasing : Increasing calls address)
    (unclosed : NeverClosed calls address) : Sequential (held calls address) := by
  induction calls using List.reverseRecOn with
  | nil => exact List.Pairwise.nil
  | append_singleton calls call ih =>
    obtain ⟨earlier, later⟩ := increasing.of_concat
    obtain ⟨before, notClosed⟩ := neverClosed_concat.mp unclosed
    have sequential := ih earlier before
    rw [held_concat]
    split
    next touched =>
      cases call with
      | opened now ip mac leaseLength =>
        exact sequential.opened (recorded_held earlier (later touched))
      | closed now ip =>
        unfold Sequential
        rw [intervals_closed_eq_nil (row?_eq_none_iff.mpr (notClosed touched))]
        exact List.Pairwise.nil
    · exact sequential

theorem covers_held (increasing : Increasing calls address) (unclosed : NeverClosed calls address) :
    Covered (held calls address) mac moment ↔ HoldsAt calls address mac moment := by
  induction calls using List.reverseRecOn with
  | nil =>
    refine iff_of_false ?_ (not_holdsAt_of_absent fun _ => nofun)
    rintro ⟨interval, ⟨⟩, _⟩
  | append_singleton calls call ih =>
    obtain ⟨earlier, later⟩ := increasing.of_concat
    obtain ⟨before, notClosed⟩ := neverClosed_concat.mp unclosed
    have covers := ih earlier before
    rw [held_concat, holdsAt_concat]
    by_cases touched : call.touches address = true
    · rw [if_pos touched]
      cases call with
      | opened now ip device leaseLength =>
        have isAddress : ip = address := Call.ip_of_touches touched
        have recorded : Recorded now (held calls address) := recorded_held earlier (later touched)
        rw [covered_opened recorded, covers]
        by_cases early : moment < now
        · rw [if_pos early, if_neg fun late => absurd late.2 (Nat.not_le.mpr early)]
        · rw [if_neg early, if_pos ⟨touched, Nat.not_lt.mp early⟩]
          constructor
          · rintro ⟨rfl, lasts⟩
            exact ⟨now, leaseLength, by rw [isAddress], lasts⟩
          · rintro ⟨start, length, same, lasts⟩
            cases same
            exact ⟨rfl, lasts⟩
      | closed now ip =>
        refine iff_of_false ?_ ?_
        · rintro ⟨interval, member, _⟩
          rw [intervals_closed_eq_nil (row?_eq_none_iff.mpr (notClosed touched))] at member
          cases member
        · split
          · rintro ⟨_, _, ⟨⟩, _⟩
          · exact not_holdsAt_of_absent (notClosed touched)
    · rw [if_neg touched, if_neg fun both => touched both.1]
      exact covers

theorem neverClosed_of_disjoint (increasing : Increasing calls address)
    (disjoint : (intervals (held calls address)).Pairwise Interval.Apart) :
    NeverClosed calls address := by
  induction calls using List.reverseRecOn with
  | nil => exact List.Pairwise.nil
  | append_singleton calls call ih =>
    obtain ⟨earlier, later⟩ := increasing.of_concat
    rw [held_concat] at disjoint
    rw [neverClosed_concat]
    by_cases touched : call.touches address = true
    · rw [if_pos touched] at disjoint
      have recorded := recorded_held earlier (later touched)
      cases call with
      | opened now ip mac leaseLength =>
        exact ⟨ih earlier (disjoint_of_opened recorded disjoint), nofun⟩
      | closed now ip =>
        cases present : (held calls address).row? with
        | some entry => exact absurd disjoint (not_disjoint_closed recorded present)
        | none =>
          refine ⟨ih earlier ?_, fun _ => row?_eq_none_iff.mp present⟩
          rw [intervals_held_eq_nil present]
          exact List.Pairwise.nil
    · rw [if_neg touched] at disjoint
      refine ⟨ih earlier disjoint, fun closed => absurd ?_ touched⟩
      rw [Call.touches, closed, Bool.or_true]

/-- The rows of an address partition its time exactly if it is not closed once it was
opened. -/
theorem address_history_partitions_iff (calls : List Call) (address : Text)
    (increasing : Increasing calls address) :
    Partitions calls address ↔ NeverClosed calls address := by
  constructor
  · exact fun partitions => neverClosed_of_disjoint increasing partitions.disjoint
  · intro unclosed
    exact ⟨(sequential_held increasing unclosed).disjoint,
      fun _ _ => covers_held increasing unclosed⟩

/-- A device with a lease is followed by one without. -/
theorem taken_over_address_partitions :
    Partitions [.opened 10 "10.0.0.1".toList "00:11:22:33:44:55".toList 300,
      .opened 60 "10.0.0.1".toList "00:11:22:33:44:66".toList 0] "10.0.0.1".toList :=
  (address_history_partitions_iff _ _ (by decide)).mpr (by decide)

/-- A device that leaves after a minute is on record twice. -/
theorem closed_address_overlaps :
    Increasing [.opened 10 "10.0.0.1".toList "00:11:22:33:44:55".toList 0,
      .closed 70 "10.0.0.1".toList] "10.0.0.1".toList ∧
    intervals (held [.opened 10 "10.0.0.1".toList "00:11:22:33:44:55".toList 0,
      .closed 70 "10.0.0.1".toList] "10.0.0.1".toList) =
        [⟨"00:11:22:33:44:55".toList, 10, some 70⟩, ⟨"00:11:22:33:44:55".toList, 10, some 70⟩] ∧
    ¬ Partitions [.opened 10 "10.0.0.1".toList "00:11:22:33:44:55".toList 0,
      .closed 70 "10.0.0.1".toList] "10.0.0.1".toList := by
  refine ⟨by decide, by decide, fun partitions => ?_⟩
  exact absurd partitions.disjoint (by decide)

/-- What is held of an address is driven by the calls for it alone, whatever comes between. -/
theorem held_eq_foldl (calls : List Call) (address : Text) :
    held calls address = (calls.filter (·.touches address)).foldl Call.apply ⟨none, []⟩ := by
  induction calls using reverseRecOn with
  | nil => rfl
  | append_singleton calls call ih =>
    rw [held_concat, filter_append, foldl_append, ← ih, filter_singleton]
    cases call.touches address <;> rfl

end PacketFence.Ip4log
