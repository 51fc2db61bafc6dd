import PacketFence.Activation.Codes

/-!
# A code works once

Marking a code takes the first row with that code, whatever its status. If the
record that was accepted is the only one, the code is spent and stays so until
it is issued again; an older record with the same code can take the mark in its
place.
-/

namespace PacketFence.Activation

open Foundations Lexing List Option Function Portal

variable {collates : Text → Text → Bool} {table : Table} {portal next : Portal} {call : Call}
  {id : Nat}

def Refused (collates : Text → Text → Bool) (portal : Portal) (call : Call) : Prop :=
  ∀ first result, portal.table.validateCode collates portal.now call first = some result →
    result = none

def MarksOnly (id : Nat) (before after : Table) : Prop :=
  ∃ front record back, before.records = front ++ record :: back ∧ record.codeId = id ∧
    after.records = front ++ { record with status := .verified } :: back

def Unambiguous (collates : Text → Text → Bool) (portal : Portal) : Event → Prop
  | .setStatusVerified call _ => ∀ id, portal.accepted call = some id →
      ∀ record ∈ portal.table.records, record.answers collates call = true → record.codeId = id
  | _ => True

variable {now : Int} {status : Status} {event : Event} {first : Option Nat} {record : Record}
  {changed : Table} {rows : List Record}

theorem mem_of_search (found : search rows first = some (some record)) : record ∈ rows := by
  unfold search at found
  split at found
  · split at found <;> cases found
  · obtain ⟨row, matched, same⟩ := map_eq_some_iff.mp found
    cases same
    exact mem_of_find?_eq_some matched

theorem eq_nil_of_search (found : search rows first = some none) : rows = [] := by
  unfold search at found
  split at found
  · split at found
    next empty => exact List.isEmpty_iff.mp empty
    · cases found
  · obtain ⟨row, _, same⟩ := map_eq_some_iff.mp found
    cases same

@[simp] theorem mem_findUnverifiedCode_iff : record ∈ table.findUnverifiedCode collates now call ↔
      record ∈ table.records ∧ record.answers collates call = true ∧
        record.status = .unverified ∧ now ≤ record.expiration := by
  simp [Table.findUnverifiedCode, Record.isPending]

@[simp] theorem mem_viewByCode_iff :
    record ∈ table.viewByCode collates call ↔
      record ∈ table.records ∧ record.answers collates call = true := by simp [Table.viewByCode]

theorem of_validateCode
    (accepted : table.validateCode collates now call first = some (some record)) :
    record ∈ table.findUnverifiedCode collates now call ∧ record.activationCode = call.code := by
  obtain ⟨row, found, kept⟩ := map_eq_some_iff.mp accepted
  obtain ⟨rfl, same⟩ := filter_eq_some_iff.mp kept
  exact ⟨mem_of_search found, (of_decide_eq_true same).symm⟩

def Holds (collates : Text → Text → Bool) (table : Table) (id : Nat) (call : Call) : Prop :=
  ∃ record ∈ table.records, record.codeId = id ∧ record.answers collates call = true

def Settled (collates : Text → Text → Bool) (table : Table) (call : Call) : Prop :=
  ∀ record ∈ table.records, record.answers collates call = true →
    record.activationCode = call.code → record.status ≠ .unverified

theorem verified_ne_unverified : Status.verified ≠ .unverified := nofun

theorem invalidated_ne_unverified : Status.invalidated ≠ .unverified := nofun

theorem mem_setStatus_iff {selected : Record → Bool} :
    record ∈ (table.setStatus status selected).records ↔
      ∃ old ∈ table.records,
        { old with status := if selected old then status else old.status } = record := mem_map

@[simp] theorem mem_insert_iff {new : Record} : record ∈ (table.insert new).records ↔
      record ∈ table.records ∨ record = { new with codeId := table.nextId } := by
  simp [Table.insert]

theorem Holds.setStatus (holds : Holds collates table id call) (status : Status)
    (selected : Record → Bool) : Holds collates (table.setStatus status selected) id call := by
  obtain ⟨old, present, same, answers⟩ := holds
  exact ⟨_, mem_setStatus_iff.mpr ⟨old, present, rfl⟩, same, answers⟩

theorem Holds.insert (holds : Holds collates table id call) (new : Record) :
    Holds collates (table.insert new) id call := by
  obtain ⟨old, present, rest⟩ := holds
  exact ⟨old, mem_insert_iff.mpr (.inl present), rest⟩

theorem Settled.setStatus (settled : Settled collates table call)
    (done : status ≠ .unverified) (selected : Record → Bool) :
    Settled collates (table.setStatus status selected) call := by
  intro record member answers same
  obtain ⟨old, present, rfl⟩ := mem_setStatus_iff.mp member
  split
  · exact done
  · exact settled old present answers same

theorem Settled.insert (settled : Settled collates table call) {new : Record}
    (other : new.answers collates call = true → new.activationCode ≠ call.code) :
    Settled collates (table.insert new) call := by
  intro record member answers same
  rcases mem_insert_iff.mp member with present | rfl
  · exact settled record present answers same
  · exact absurd same (other answers)

theorem refused_of_settled (settled : Settled collates portal.table call) :
    Refused collates portal call := by
  intro first result validated
  cases result with
  | none => rfl
  | some record =>
    obtain ⟨found, same⟩ := of_validateCode validated
    obtain ⟨present, answers, unverified, _⟩ := mem_findUnverifiedCode_iff.mp found
    exact absurd unverified (settled record present answers same)

theorem records_modifyStatus {front back : List Record}
    (split : table.records = front ++ record :: back) :
    (table.modifyStatus record.codeId status).records =
      front ++ { record with status := status } :: back := by
  have distinct := table.distinct
  rw [split, map_append, map_cons, nodup_middle, nodup_cons, ← map_append] at distinct
  have kept : ∀ rows : List Record, rows ⊆ front ++ back → rows.map (fun other =>
      { other with
        status := if decide (other.codeId = record.codeId) then status else other.status }) =
      rows := by
    intro rows inside
    nth_rewrite 2 [← map_id rows]
    apply map_congr_left
    intro other member
    have different : other.codeId ≠ record.codeId := by
      intro same
      apply distinct.1
      rw [← same]
      exact mem_map_of_mem (inside member)
    rw [if_neg (fun same => different (of_decide_eq_true same))]
    rfl
  unfold Table.modifyStatus Table.setStatus
  dsimp only
  rw [split, map_append, map_cons, kept front (subset_append_left _ _),
    kept back (subset_append_right _ _), if_pos (decide_eq_true rfl)]

theorem setStatusVerified_eq (holds : Holds collates table id call)
    (only : ∀ record ∈ table.records, record.answers collates call = true → record.codeId = id)
    (marked : table.setStatusVerified collates call first = some changed) :
    changed = table.modifyStatus id .verified := by
  obtain ⟨row, found, same⟩ := map_eq_some_iff.mp marked
  cases row with
  | none =>
    obtain ⟨record, present, _, answers⟩ := holds
    have listed : record ∈ table.viewByCode collates call :=
      mem_viewByCode_iff.mpr ⟨present, answers⟩
    rw [eq_nil_of_search found] at listed
    cases listed
  | some record =>
    obtain ⟨present, answers⟩ := mem_viewByCode_iff.mp (mem_of_search found)
    dsimp only at same
    rw [← same, only record present answers]

theorem marksOnly_of_holds (holds : Holds collates table id call) :
    MarksOnly id table (table.modifyStatus id .verified) := by
  obtain ⟨record, present, rfl, _⟩ := holds
  obtain ⟨front, back, split⟩ := append_of_mem present
  exact ⟨front, record, back, split, rfl, records_modifyStatus split⟩

theorem settled_of_modifyStatus
    (only : ∀ record ∈ table.records, record.answers collates call = true → record.codeId = id) :
    Settled collates (table.modifyStatus id .verified) call := by
  intro record member answers _
  obtain ⟨old, present, rfl⟩ := mem_setStatus_iff.mp member
  rw [if_pos (decide_eq_true (only old present answers))]
  exact verified_ne_unverified

theorem setStatusVerified_cases
    (marked : table.setStatusVerified collates call first = some changed) :
    changed = table ∨ ∃ id, changed = table.modifyStatus id .verified := by
  obtain ⟨row, _, same⟩ := map_eq_some_iff.mp marked
  cases row with
  | none => exact .inl same.symm
  | some record => exact .inr ⟨record.codeId, same.symm⟩

section Runs

structure Consistent (collates : Text → Text → Bool) (portal : Portal) : Prop where
  accepted : ∀ call id, portal.accepted call = some id → Holds collates portal.table id call
  spent : ∀ call, portal.spent call = true → Settled collates portal.table call

theorem consistent_start (now : Int) : Consistent collates (.start now) where
  accepted _ _ := nofun
  spent _ := nofun

theorem Consistent.setStatus (consistent : Consistent collates portal)
    (done : status ≠ .unverified) (selected : Record → Bool) :
    Consistent collates { portal with table := portal.table.setStatus status selected } where
  accepted call id taken := (consistent.accepted call id taken).setStatus status selected
  spent call marked := (consistent.spent call marked).setStatus done selected

variable {args : CreateArgs} {code : Text} {generated : List Text}

theorem of_create (created : table.create collates now args generated = some (changed, code)) :
    ∃ record : Record, record.type = args.type ∧ record.mac = args.mac ∧
      record.activationCode = code ∧
      changed = (table.invalidateCodes collates args.mac args.pid args.contactInfo).insert
        record := by
  obtain ⟨found, _, finished⟩ := bind_eq_some_iff.mp created
  cases finished
  exact ⟨_, rfl, rfl, rfl, rfl⟩

theorem issued_iff (sameType : record.type = args.type) (sameMac : record.mac = args.mac)
    (sameCode : record.activationCode = code) :
    record.answers collates call = true ∧ record.activationCode = call.code →
      issued collates args code call = true := by
  rintro ⟨answers, same⟩
  unfold Record.answers at answers
  rw [sameType, sameMac, Bool.and_eq_true, Bool.and_eq_true] at answers
  unfold issued
  rw [Bool.and_eq_true, Bool.and_eq_true, ← sameCode]
  exact ⟨⟨answers.1.1, decide_eq_true same⟩, answers.2⟩

section

variable (consistent : Consistent collates portal)

include consistent

theorem Consistent.create
    (created : portal.table.create collates portal.now args generated = some (changed, code)) :
    Consistent collates { portal with
      table := changed
      spent := fun call => portal.spent call && !issued collates args code call } := by
  obtain ⟨record, sameType, sameMac, sameCode, rfl⟩ := of_create created
  constructor
  · intro call id taken
    exact ((consistent.accepted call id taken).setStatus _ _).insert record
  · intro call marked
    obtain ⟨before, other⟩ := Bool.and_eq_true_iff.mp marked
    have invalidated : Settled collates
        (portal.table.invalidateCodes collates args.mac args.pid args.contactInfo) call :=
      (consistent.spent call before).setStatus invalidated_ne_unverified _
    apply invalidated.insert
    intro answers same
    rw [issued_iff sameType sameMac sameCode ⟨answers, same⟩] at other
    cases other

theorem Consistent.validateCode
    (validated : portal.table.validateCode collates portal.now call first = some (some record)) :
    Consistent collates { portal with
      accepted := Function.update portal.accepted call (some record.codeId) } := by
  obtain ⟨present, answers, _⟩ := mem_findUnverifiedCode_iff.mp (of_validateCode validated).1
  refine ⟨fun other id taken => ?_, consistent.spent⟩
  dsimp only at taken
  by_cases same : other = call
  · subst same
    rw [update_self, Option.some.injEq] at taken
    exact ⟨record, present, taken, answers⟩
  · rw [update_of_ne same] at taken
    exact consistent.accepted other id taken

theorem Consistent.setStatusVerified
    (only : ∀ record ∈ portal.table.records, record.answers collates call = true →
      record.codeId = id) (taken : portal.accepted call = some id)
    (marked : portal.table.setStatusVerified collates call first = some changed) :
    Consistent collates { portal with
      table := changed
      accepted := Function.update portal.accepted call none
      spent := Function.update portal.spent call true } := by
  rw [setStatusVerified_eq (consistent.accepted call id taken) only marked]
  constructor
  · intro other otherId otherTaken
    dsimp only at otherTaken
    by_cases same : other = call
    · subst same
      rw [update_self] at otherTaken
      cases otherTaken
    · rw [update_of_ne same] at otherTaken
      exact (consistent.accepted other otherId otherTaken).setStatus _ _
  · intro other spent
    dsimp only at spent
    by_cases same : other = call
    · subst same
      exact settled_of_modifyStatus only
    · rw [update_of_ne same] at spent
      exact (consistent.spent other spent).setStatus verified_ne_unverified _

theorem Consistent.step (allowed : Unambiguous collates portal event)
    (stepped : portal.step? collates event = some next) : Consistent collates next := by
  cases event with
  | create args generated =>
    obtain ⟨⟨changed, code⟩, created, finished⟩ := bind_eq_some_iff.mp stepped
    cases finished
    exact consistent.create created
  | validateCode call first =>
    obtain ⟨result, validated, finished⟩ := bind_eq_some_iff.mp stepped
    cases result with
    | none =>
      cases finished
      exact consistent
    | some record =>
      cases finished
      exact consistent.validateCode validated
  | setStatusVerified call first =>
    obtain ⟨changed, marked, finished⟩ := bind_eq_some_iff.mp stepped
    cases taken : portal.accepted call with
    | none =>
      rw [taken] at finished
      cases finished
      rcases setStatusVerified_cases marked with rfl | ⟨id, rfl⟩
      · exact consistent
      · exact consistent.setStatus verified_ne_unverified _
    | some id =>
      rw [taken] at finished
      cases finished
      exact consistent.setStatusVerified (allowed id taken) taken marked
  | invalidateCodes mac pid contactInfo
  | invalidateCodesForMac mac type =>
    cases stepped
    exact consistent.setStatus invalidated_ne_unverified _
  | tick elapsed =>
    cases stepped
    exact ⟨consistent.accepted, consistent.spent⟩

end

theorem Consistent.of_reaches
    (reached : (machine collates).Reaches (Unambiguous collates) (.start now) portal) :
    Consistent collates portal := by
  apply reached.invariant (consistent_start now)
  intro portal event next consistent allowed stepped
  exact consistent.step allowed stepped

theorem table_of_setStatusVerified
    (stepped : portal.step? collates (.setStatusVerified call first) = some next) :
    portal.table.setStatusVerified collates call first = some next.table := by
  obtain ⟨changed, marked, finished⟩ := bind_eq_some_iff.mp stepped
  rw [marked]
  split at finished <;> (cases finished; rfl)

end Runs

/-- In every run in which no marking is ambiguous, what was accepted and marked is
refused until it is issued again, and a marking changes the accepted record only. -/
theorem code_works_once {now : Int}
    (reached : (machine collates).Reaches (Unambiguous collates) (.start now) portal) :
    (∀ call, portal.spent call = true → Refused collates portal call) ∧
      ∀ call first id next, portal.accepted call = some id →
        Unambiguous collates portal (.setStatusVerified call first) →
        (machine collates).step? portal (.setStatusVerified call first) = some next →
        MarksOnly id portal.table next.table := by
  have consistent := Consistent.of_reaches reached
  constructor
  · intro call spent
    exact refused_of_settled (consistent.spent call spent)
  · intro call first id next taken allowed stepped
    have holds := consistent.accepted call id taken
    have marked := table_of_setStatusVerified stepped
    rw [setStatusVerified_eq holds (allowed id taken) marked]
    exact marksOnly_of_holds holds

def smsArgs (contact : Text) (timeout : Int) : CreateArgs where
  mac := some "02:00:00:00:00:01".toList
  pid := some "guest".toList
  contactInfo := some contact
  type := "sms".toList
  timeout := some timeout
  codeLength := 6
  noUnique := false

def smsCall : Call :=
  ⟨"sms".toList, "123456".toList, some (some "02:00:00:00:00:01".toList)⟩

/-- The check of `Unambiguous` on a run. -/
def checkUnambiguous (collates : Text → Text → Bool) (portal : Portal) : Event → Bool
  | .setStatusVerified call _ =>
    match portal.accepted call with
    | none => true
    | some id => portal.table.records.all fun record =>
      !record.answers collates call || record.codeId = id
  | _ => true

theorem unambiguous_of_check (checked : checkUnambiguous collates portal event = true) :
    Unambiguous collates portal event := by
  cases event with
  | setStatusVerified call first =>
    intro id taken record present answers
    rw [checkUnambiguous, taken, List.all_eq_true] at checked
    have same := checked record present
    rw [answers, Bool.not_true, Bool.false_or] at same
    exact of_decide_eq_true same
  | _ => trivial

def view (portal : Portal) : List Status × Bool × Option (Option Nat) :=
  (portal.table.records.map (·.status), portal.spent smsCall,
    (portal.table.validateCode (· == ·) portal.now smsCall (some 2)).map (·.map (·.codeId)))

theorem sms_code_works_once :
    ∃ portal, (machine (· == ·)).Reaches (Unambiguous (· == ·)) (.start 0) portal ∧
      portal.spent smsCall = true ∧ Refused (· == ·) portal smsCall := by
  have replayed : ((machine (· == ·)).replay? (checkUnambiguous (· == ·)) (.start 0)
      [.create (smsArgs "5145550100".toList 60) ["1234567890".toList],
        .validateCode smsCall (some 1),
        .setStatusVerified smsCall (some 1)]).map (·.spent smsCall) = some true := by decide +kernel
  obtain ⟨portal, run, spent⟩ := map_eq_some_iff.mp replayed
  have reached : (machine (· == ·)).Reaches (Unambiguous (· == ·)) (.start 0) portal :=
    Machine.reaches_of_checked (fun _ _ => unambiguous_of_check) run
  exact ⟨portal, reached, spent, (code_works_once reached).1 smsCall spent⟩

/-- The first code has expired when the device asks for another one, which happens to
be the same. The old record is marked, and the new one is accepted again. -/
theorem expired_record_takes_the_mark :
    ∃ portal, (machine (· == ·)).Reaches Machine.anyEvent (.start 0) portal ∧
      portal.table.records.map (·.status) = [.verified, .unverified] ∧
      portal.spent smsCall = true ∧ ¬ Refused (· == ·) portal smsCall := by
  have replayed : ((machine (· == ·)).replay? (fun _ _ => true) (.start 0)
      [.create (smsArgs "5145550100".toList 60) ["1234567890".toList], .tick 100,
        .create (smsArgs "5145550199".toList 60) ["1234567890".toList],
        .validateCode smsCall (some 2), .setStatusVerified smsCall (some 1)]).map view =
      some ([.verified, .unverified], true, some (some 2)) := by decide +kernel
  obtain ⟨portal, run, viewed⟩ := map_eq_some_iff.mp replayed
  simp only [view, Prod.mk.injEq] at viewed
  obtain ⟨statuses, spent, accepted⟩ := viewed
  refine ⟨portal, Machine.reaches_anyEvent_of_replay? run .refl, statuses, spent, ?_⟩
  intro refused
  obtain ⟨result, validated, second⟩ := map_eq_some_iff.mp accepted
  rw [refused _ _ validated] at second
  cases second

end PacketFence.Activation
