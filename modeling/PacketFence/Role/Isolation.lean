import PacketFence.Role.Fetch

/-!
# Isolated nodes

A node with an open event that asks for a new access is isolated, unless the
post-registration scan comes before all its other open events: the scan must be
done in the production network, and the answer `0` for it is the one for a node
without events.
-/

namespace PacketFence.Role

open Foundations Lexing SecurityEvent Args Option

variable {database : Database} {args : Args}

structure Isolated (database : Database) (args : Args) (answer : Answer) : Prop where
  role : answer.role = some "isolation".toList ∨
    (∃ role, args.filterRole .isolationRole = some role ∧ answer.role = some role) ∨
    ∃ event ∈ database.openEvents args.tenant args.mac, ∃ eventClass ∈ database.classes,
      eventClass.securityEventId = event.securityEventId ∧ ∃ target,
        eventClass.vlan = some target ∧ answer.role = some target
  origin : answer.wasInline = some false

def Reevaluated (database : Database) (args : Args) (event : Event) : Prop :=
  event ∈ database.openEvents args.tenant args.mac ∧
    ⟨event.securityEventId, reevaluateAccess⟩ ∈ database.actions

def TargetsDefined (database : Database) (args : Args) : Prop :=
  ∀ event ∈ database.openEvents args.tenant args.mac, ∀ eventClass ∈ database.classes,
    eventClass.securityEventId = event.securityEventId → eventClass.vlan ≠ some "0".toList

instance : Decidable (TargetsDefined database args) :=
  inferInstanceAs (Decidable (∀ _ ∈ _, ∀ _ ∈ _, _))

def ScanIsNotFirst (database : Database) (args : Args) : Prop :=
  ∃ row, HighestPriority (database.openClasses args.tenant args.mac) row ∧
    row.1.securityEventId ≠ postScanSecurityEventId

theorem wasInline_getRegistrationRole : args.getRegistrationRole.wasInline = none := by
  have answer : args.registrationAnswer.wasInline = none := by
    unfold registrationAnswer
    split <;> rfl
  unfold getRegistrationRole
  split
  · exact answer
  · split
    · exact answer
    · rfl

theorem wasInline_of_checkBypass {answer : Answer} (bypassed : args.checkBypass = some answer) :
    answer.wasInline = none := by
  unfold checkBypass at bypassed
  split at bypassed
  · cases bypassed
  · split at bypassed
    · cases bypassed
    · split at bypassed
      · cases bypassed; rfl
      · split at bypassed
        · cases bypassed; rfl
        · cases bypassed

theorem wasInline_getRegisteredRole : args.getRegisteredRole.wasInline = none := by
  have user : args.userAnswer.wasInline = none := by
    unfold userAnswer
    split
    · split <;> rfl
    · rfl
  unfold getRegisteredRole
  split
  · rfl
  · split
    next answer bypassed => exact wasInline_of_checkBypass bypassed
    · dsimp only
      split
      · exact user
      · exact user

section Answer

variable (inline : args.isInlineTrigger = false) (floating : args.floatingDeviceAnswer = none)

include inline floating

theorem fetchRoleForNode_of_isolated
    (isolated : (args.getIsolationRole database).role ≠ some "0".toList) :
    args.fetchRoleForNode database =
      { args.getIsolationRole database with wasInline := some false } := by
  unfold fetchRoleForNode
  rw [inline, if_neg Bool.false_ne_true, floating]
  exact if_pos isolated

theorem wasInline_of_not_isolated
    (passed : (args.getIsolationRole database).role = some "0".toList) :
    (args.fetchRoleForNode database).wasInline = none := by
  unfold fetchRoleForNode
  rw [inline, if_neg Bool.false_ne_true, floating]
  dsimp only
  rw [passed, if_neg (fun different => different rfl)]
  split
  · exact wasInline_getRegistrationRole
  · exact wasInline_getRegisteredRole

end Answer

variable {role : Text} {event top : Event}

section Choice

theorem count_ne_zero (reevaluated : Reevaluated database args event) :
    database.securityEventCountReevaluateAccess args.tenant args.mac ≠ 0 := by
  rw [Ne, countReevaluateAccess_eq_zero_iff]
  intro none
  exact none event reevaluated.1 reevaluated.2

theorem isTrue_of_filterRole {scope : Scope}
    (filtered : args.filterRole scope = some role) : role ≠ "0".toList := by
  have true : isTrue role = true := (filter_eq_some_iff.mp filtered).2
  exact (of_decide_eq_true true).2

variable (reevaluated : Reevaluated database args event)

include reevaluated

theorem getIsolationRole_of_filter (filtered : args.filterRole .isolationRole = some role) :
    args.getIsolationRole database = { role := some role } := by
  unfold getIsolationRole
  rw [if_neg (count_ne_zero reevaluated), filtered]

theorem getIsolationRole_of_scan (filtered : args.filterRole .isolationRole = none)
    (first : database.securityEventViewTop args.tenant args.mac = some top)
    (scan : top.securityEventId = postScanSecurityEventId) :
    args.getIsolationRole database = { role := some "0".toList } := by
  unfold getIsolationRole
  rw [if_neg (count_ne_zero reevaluated), filtered]
  rw [first]
  exact if_pos scan

theorem getIsolationRole_of_top (filtered : args.filterRole .isolationRole = none)
    (first : database.securityEventViewTop args.tenant args.mac = some top)
    (other : top.securityEventId ≠ postScanSecurityEventId) :
    (args.getIsolationRole database).role = some
      (((database.classView top.securityEventId).bind (·.vlan)).getD "isolation".toList) := by
  unfold getIsolationRole
  rw [if_neg (count_ne_zero reevaluated), filtered]
  rw [first]
  dsimp only
  rw [if_neg other]
  cases (database.classView top.securityEventId).bind (·.vlan) <;> rfl

end Choice

section Isolation

variable (inline : args.isInlineTrigger = false) (floating : args.floatingDeviceAnswer = none)
  (reevaluated : Reevaluated database args event)

include inline floating reevaluated

theorem isolated_of_filter (filtered : args.filterRole .isolationRole = some role) :
    Isolated database args (args.fetchRoleForNode database) := by
  have answer := getIsolationRole_of_filter reevaluated filtered
  have isolated : (args.getIsolationRole database).role ≠ some "0".toList := by
    rw [answer]
    intro same
    exact isTrue_of_filterRole filtered (Option.some.inj same)
  rw [fetchRoleForNode_of_isolated inline floating isolated, answer]
  exact ⟨.inr (.inl ⟨role, filtered, rfl⟩), rfl⟩

theorem isolated_of_top (targets : TargetsDefined database args)
    (filtered : args.filterRole .isolationRole = none)
    (first : database.securityEventViewTop args.tenant args.mac = some top)
    (other : top.securityEventId ≠ postScanSecurityEventId) :
    Isolated database args (args.fetchRoleForNode database) := by
  have role := getIsolationRole_of_top reevaluated filtered first other
  cases target : (database.classView top.securityEventId).bind (·.vlan) with
  | none =>
    rw [target, getD_none] at role
    have isolated : (args.getIsolationRole database).role ≠ some "0".toList := by
      rw [role]
      decide
    rw [fetchRoleForNode_of_isolated inline floating isolated]
    exact ⟨.inl role, rfl⟩
  | some vlan =>
    rw [target, getD_some] at role
    obtain ⟨eventClass, found, vlanOf⟩ := bind_eq_some_iff.mp target
    obtain ⟨known, same⟩ := classView_spec found
    have present := mem_openEvents_of_top first
    have isolated : (args.getIsolationRole database).role ≠ some "0".toList := by
      rw [role, ← vlanOf]
      exact targets top present eventClass known same
    rw [fetchRoleForNode_of_isolated inline floating isolated]
    exact ⟨.inr (.inr ⟨top, present, eventClass, known, same, vlan, vlanOf, role⟩), rfl⟩

theorem not_isolated_of_scan (filtered : args.filterRole .isolationRole = none)
    (first : database.securityEventViewTop args.tenant args.mac = some top)
    (scan : top.securityEventId = postScanSecurityEventId) :
    ¬ Isolated database args (args.fetchRoleForNode database) := by
  intro isolated
  have passed : (args.getIsolationRole database).role = some "0".toList := by
    rw [getIsolationRole_of_scan reevaluated filtered first scan]
  have origin := isolated.origin
  rw [wasInline_of_not_isolated inline floating passed] at origin
  cases origin

end Isolation

/-- A node with an open event that asks for a new access. -/
theorem isolated_iff {event : Event} (inline : args.isInlineTrigger = false)
    (floating : args.floatingDeviceAnswer = none) (targets : TargetsDefined database args)
    (reevaluated : Reevaluated database args event) :
    Isolated database args (args.fetchRoleForNode database) ↔
      (args.filterRole .isolationRole).isSome = true ∨ ScanIsNotFirst database args := by
  obtain ⟨top, first⟩ := exists_securityEventViewTop reevaluated.1
  cases filtered : args.filterRole .isolationRole with
  | some role => simp [isolated_of_filter inline floating reevaluated filtered]
  | none =>
    obtain ⟨row, highest, rfl⟩ := securityEventViewTop_eq_some_iff.mp first
    simp only [isSome_none, Bool.false_eq_true, false_or]
    constructor
    · intro isolated
      refine ⟨row, highest, fun scan => ?_⟩
      exact not_isolated_of_scan inline floating reevaluated filtered first scan isolated
    · rintro ⟨best, highest', different⟩
      rw [highest'.unique highest] at different
      exact isolated_of_top inline floating reevaluated targets filtered first different

def defaultDatabase (events : List Event)
    (known : ∀ event ∈ events, event.securityEventId = 1200004 ∨ event.securityEventId = 3000002) :
    Database where
  events := events
  classes := [⟨1200004, 9, some "isolation".toList⟩, ⟨3000002, 10, some "isolation".toList⟩]
  actions := [⟨1200004, "log".toList⟩, ⟨3000002, reevaluateAccess⟩,
    ⟨3000002, "email_admin".toList⟩, ⟨3000002, "log".toList⟩]
  eventClass := by
    intro event member
    rcases known event member with scan | ban
    · exact ⟨_, List.mem_cons_self, scan.symm⟩
    · exact ⟨_, List.mem_cons_of_mem _ List.mem_cons_self, ban.symm⟩

def openEvent (id securityEventId : Nat) : Event where
  id := id
  tenantId := 1
  mac := "02:00:00:00:00:01".toList
  securityEventId := securityEventId
  startDate := 0
  releaseDate := none
  status := .opened

def registeredArgs : Args where
  tenant := 1
  mac := "02:00:00:00:00:01".toList
  port := "7".toList
  ssid := []
  userName := none
  autoreg := false
  switch := ⟨[], [], false⟩
  connectionType := ⟨false, false⟩
  nodeInfo := some ⟨"reg".toList, some "default".toList, none, none⟩
  profile := ⟨"default".toList, [], true, true⟩
  personSource := none
  personPortal := none
  filterVlan _ := none
  match2 _ := ⟨none, none, none⟩
  configFloatingDevices _ := none
  portHasFloatingDevice := none

def bannedDatabase : Database :=
  defaultDatabase [openEvent 1 3000002] (by decide)

def scannedDatabase : Database :=
  defaultDatabase [openEvent 1 3000002, openEvent 2 1200004] (by decide)

theorem banned_phone_isolated :
    Isolated bannedDatabase registeredArgs (registeredArgs.fetchRoleForNode bannedDatabase) := by
  have reevaluated : Reevaluated bannedDatabase registeredArgs (openEvent 1 3000002) :=
    ⟨by decide +kernel, by decide +kernel⟩
  apply (isolated_iff (by decide) rfl (by decide +kernel) reevaluated).mpr
  refine .inr ⟨(openEvent 1 3000002, ⟨3000002, 10, some "isolation".toList⟩), ?_, by decide⟩
  exact ⟨[], [], by decide +kernel, nofun, nofun⟩

/-- With the scan open as well the banned phone gets the role of the node. -/
theorem scanned_phone_not_isolated :
    Reevaluated scannedDatabase registeredArgs (openEvent 1 3000002) ∧
      (openEvent 1 3000002).securityEventId ≠ postScanSecurityEventId ∧
      TargetsDefined scannedDatabase registeredArgs ∧
      registeredArgs.isInlineTrigger = false ∧ registeredArgs.floatingDeviceAnswer = none ∧
      (registeredArgs.fetchRoleForNode scannedDatabase).role = some "default".toList ∧
      ¬ Isolated scannedDatabase registeredArgs
        (registeredArgs.fetchRoleForNode scannedDatabase) := by
  have reevaluated : Reevaluated scannedDatabase registeredArgs (openEvent 1 3000002) :=
    ⟨by decide +kernel, by decide +kernel⟩
  refine ⟨reevaluated, by decide, by decide +kernel, by decide, rfl, by decide +kernel, ?_⟩
  have first : scannedDatabase.securityEventViewTop registeredArgs.tenant registeredArgs.mac =
      some (openEvent 2 1200004) := by decide +kernel
  exact not_isolated_of_scan (by decide) rfl reevaluated rfl first rfl

end PacketFence.Role
