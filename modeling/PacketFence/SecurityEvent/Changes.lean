import PacketFence.SecurityEvent.Lifecycle

/-!
# What a call can do to the events

Every call other than the run of a delayed event closes events and inserts events
that were admitted, and does nothing else. This is proved once, by induction on
the depth of the calls; what is kept by these two changes is kept by the calls.
-/

namespace PacketFence.SecurityEvent

open Foundations List Option

variable {table next : EventTable} {device : Device} {kind : Nat} {event : Event}
  {scan : Scan Event}

namespace EventTable

variable {now : Nat}

theorem eq_of_id (table : EventTable) {first second : Event} (member : first ∈ table.events)
    (other : second ∈ table.events) (same : first.id = second.id) : first = second :=
  inj_on_of_nodup_map table.distinct member other same

theorem find?_id_iff {id : Nat} :
    table.events.find? (·.id = id) = some event ↔ event ∈ table.events ∧ event.id = id := by
  constructor
  · intro found
    have same := find?_some found
    exact ⟨mem_of_find?_eq_some found, by simpa using same⟩
  · rintro ⟨member, same⟩
    cases found : table.events.find? (·.id = id) with
    | none =>
      have unseen := find?_eq_none.mp found event member
      exact absurd (decide_eq_true same) unseen
    | some other =>
      have isOther := find?_some found
      have equal : other.id = event.id := by rw [same]; simpa using isOther
      rw [table.eq_of_id (mem_of_find?_eq_some found) member equal]

theorem closeRow_cases (now : Nat) (device : Device) (kind : Nat) (event : Event) :
    closeRow now device kind event = event ∨ (closeRow now device kind event).status = .closed := by
  unfold closeRow
  split
  · exact .inr rfl
  · exact .inl rfl

theorem closeRow_eq_of_ne_closed (other : (closeRow now device kind event).status ≠ .closed) :
    closeRow now device kind event = event :=
  (closeRow_cases now device kind event).resolve_right other

@[simp] theorem isOf_closeRow {other : Device} {otherKind : Nat} :
    (closeRow now device kind event).isOf other otherKind = event.isOf other otherKind := by
  unfold closeRow
  split <;> rfl

theorem status_closeRow_of_isOf (concerned : event.isOf device kind = true) :
    (closeRow now device kind event).status = .closed := by
  unfold closeRow
  split
  · rfl
  next left => simpa [concerned] using left

theorem mem_forceClose_iff :
    event ∈ (table.securityEventForceClose now device kind).events ↔
      ∃ old ∈ table.events, closeRow now device kind old = event := mem_map

theorem mem_of_mem_forceClose
    (present : event ∈ (table.securityEventForceClose now device kind).events)
    (opened : event.status = .opened) : event ∈ table.events := by
  obtain ⟨old, member, rfl⟩ := mem_forceClose_iff.mp present
  have left : closeRow now device kind old = old :=
    closeRow_eq_of_ne_closed (by rw [opened]; decide)
  rwa [left]

theorem not_isOf_of_mem_forceClose
    (present : event ∈ (table.securityEventForceClose now device kind).events)
    (opened : event.status = .opened) : event.isOf device kind = false := by
  obtain ⟨old, _, rfl⟩ := mem_forceClose_iff.mp present
  rw [isOf_closeRow]
  by_contra concerned
  rw [Bool.not_eq_false] at concerned
  rw [status_closeRow_of_isOf concerned] at opened
  cases opened

end EventTable

@[simp] theorem isOpen_iff : event.isOpen device = true ↔
    event.device = device ∧ event.status = .opened := by simp [Event.isOpen]

theorem opens_iff : event.opens device kind = true ↔
    event.device = device ∧ event.securityEventId = kind ∧ event.status = .opened := by
  simp [Event.opens, Event.isOf, and_assoc]

@[simp] theorem existOpen_eq_none_iff : table.securityEventExistOpen scan device kind = none ↔
    ∀ event ∈ table.events, event.opens device kind = false := by
  unfold EventTable.securityEventExistOpen
  simp [(scan.perm _).mem_iff]

theorem latestOpen_spec (found : table.latestOpen scan device = some event) :
    event ∈ table.events ∧ event.isOpen device = true :=
  ⟨Scan.mem_of_firstBy found, Scan.wanted_of_firstBy found⟩

variable {cleared : EventTable}

theorem admission_cases {now : Nat}
    (admitted : table.admission scan now device kind = .cleared cleared) :
    (∀ event ∈ table.events, event.opens device kind = false) ∧
      ((cleared = table ∧ ∀ event ∈ table.events, event.isOpen device = false) ∨
        ∃ latest ∈ table.events, latest.isOpen device = true ∧ isScan kind = false ∧
          ((isScan latest.securityEventId = true ∧
              cleared = table.securityEventForceClose now device latest.securityEventId) ∨
            (isScan latest.securityEventId = false ∧ cleared = table))) := by
  unfold EventTable.admission at admitted
  split at admitted
  · cases admitted
  next absent =>
    refine ⟨existOpen_eq_none_iff.mp absent, ?_⟩
    split at admitted
    next noneOpen =>
      cases admitted
      exact .inl ⟨rfl, Scan.firstBy_eq_none_iff.mp noneOpen⟩
    next latest found =>
      obtain ⟨member, opened⟩ := latestOpen_spec found
      split at admitted
      · cases admitted
      next notScan =>
        refine .inr ⟨latest, member, opened, Bool.eq_false_iff.mpr notScan, ?_⟩
        split at admitted
        next scanned =>
          cases admitted
          exact .inl ⟨scanned, rfl⟩
        next plain =>
          cases admitted
          exact .inr ⟨Bool.eq_false_iff.mpr plain, rfl⟩

inductive Change : EventTable → EventTable → Prop where
  | closed (table : EventTable) (now : Nat) (device : Device) (kind : Nat) :
      Change table (table.securityEventForceClose now device kind)
  | inserted {table cleared : EventTable} {scan : Scan Event} {now : Nat} {device : Device}
      {kind : Nat} (admitted : table.admission scan now device kind = .cleared cleared)
      (startDate : Nat) (releaseDate : Option Nat) (status : EventStatus) :
      Change table (cleared.insert device kind startDate releaseDate status)

abbrev Changes : EventTable → EventTable → Prop :=
  Relation.ReflTransGen Change

theorem changes_forceClose (table : EventTable) (now : Nat) (device : Device) (kind : Nat) :
    Changes table (table.securityEventForceClose now device kind) :=
  .single (.closed table now device kind)

theorem changes_of_admission {now : Nat}
    (admitted : table.admission scan now device kind = .cleared cleared) :
    Changes table cleared := by
  rcases (admission_cases admitted).2 with ⟨rfl, _⟩ | ⟨latest, _, _, _, ⟨_, rfl⟩ | ⟨_, rfl⟩⟩
  · exact .refl
  · exact changes_forceClose table now device latest.securityEventId
  · exact .refl

/-- What a close keeps, and what an insert keeps where the event was admitted, is kept by
the changes. What an event made way for was closed before. -/
theorem keeps_of_changes {property : EventTable → Prop}
    (closes : ∀ table now device kind, property table →
      property (table.securityEventForceClose now device kind))
    (inserts : ∀ {table cleared : EventTable} {scan : Scan Event} {now : Nat} {device : Device}
      {kind : Nat}, property table → property cleared →
      table.admission scan now device kind = .cleared cleared →
      ∀ startDate releaseDate status,
        property (cleared.insert device kind startDate releaseDate status))
    (changes : Changes table next) (initially : property table) : property next := by
  induction changes with
  | refl => exact initially
  | @tail between next _ change holds =>
    cases change with
    | closed now device kind => exact closes between now device kind holds
    | @inserted cleared scan now device kind admitted startDate releaseDate status =>
      refine inserts holds ?_ admitted startDate releaseDate status
      rcases (admission_cases admitted).2 with
        ⟨rfl, _⟩ | ⟨latest, _, _, _, ⟨_, rfl⟩ | ⟨_, rfl⟩⟩
      · exact holds
      · exact closes between now device latest.securityEventId holds
      · exact holds

theorem absent_of_admission {now : Nat}
    (admitted : table.admission scan now device kind = .cleared cleared) :
    ∀ event ∈ cleared.events, event.opens device kind = false := by
  obtain ⟨absent, cases⟩ := admission_cases admitted
  rcases cases with ⟨rfl, _⟩ | ⟨latest, _, _, _, ⟨_, rfl⟩ | ⟨_, rfl⟩⟩
  · exact absent
  · intro event member
    by_contra isOpen
    rw [Bool.not_eq_false] at isOpen
    have old := EventTable.mem_of_mem_forceClose member (opens_iff.mp isOpen).2.2
    rw [absent event old] at isOpen
    cases isOpen
  · exact absent

def AddsByChanges (add : World → Request → EventTable → Option (EventTable × Added)) : Prop :=
  ∀ world request table result, add world request table = some result → Changes table result.1

section Calls

variable {classes : Classes} {now : Nat}
  {add : World → Request → EventTable → Option (EventTable × Added)} {world : World}
  (adds : AddsByChanges add)

include adds

theorem changes_of_map_fst {request : Request}
    (ran : (add world request table).map Prod.fst = some next) : Changes table next := by
  obtain ⟨result, added, rfl⟩ := map_eq_some_iff.mp ran
  exact adds _ _ _ _ added

theorem changes_triggerKind {triggered : Triggered}
    (ran : triggerKind classes now device add world triggered table = some next) :
    Changes table next := by
  unfold triggerKind at ran
  split at ran
  · cases ran
    exact .refl
  · split at ran
    · cases ran
      exact .refl
    · split at ran
      · cases ran
        exact .refl
      · split at ran
        · cases ran
          exact .refl
        · exact changes_of_map_fst adds ran

theorem changes_trigger {triggered : List Triggered}
    (ran : securityEventTrigger classes now device add world triggered table = some next) :
    Changes table next := by
  induction triggered generalizing world table with
  | nil =>
    cases ran
    exact .refl
  | cons first rest ih =>
    obtain ⟨between, head, tail⟩ := bind_eq_some_iff.mp ran
    exact (changes_triggerKind adds head).trans (ih tail)

theorem changes_triggerScan
    (ran : triggerScan classes now device add world table = some next) : Changes table next := by
  obtain ⟨result, added, rest⟩ := bind_eq_some_iff.mp ran
  refine (adds _ _ _ _ added).trans ?_
  split at rest
  · exact changes_trigger adds rest
  · cases rest
    exact .refl

theorem changes_nodeRegister
    (ran : nodeRegister classes now device add world table = some next) : Changes table next := by
  obtain ⟨between, scanned, rest⟩ := bind_eq_some_iff.mp ran
  have before : Changes table between := by
    refine (changes_forceClose table now device parkingSecurityEventId).trans ?_
    split at scanned
    · exact changes_triggerScan adds scanned
    · cases scanned
      exact .refl
  refine before.trans ?_
  split at rest
  · exact changes_of_map_fst adds rest
  · cases rest
    exact .refl

theorem changes_actionEnforceProvisioning
    (ran : actionEnforceProvisioning classes now device add world table = some next) :
    Changes table next := by
  obtain ⟨between, raised, rest⟩ := bind_eq_some_iff.mp ran
  have before : Changes table between := by
    split at raised
    · cases raised
      exact .refl
    · exact changes_of_map_fst adds raised
  refine before.trans ?_
  split at rest
  · exact changes_trigger adds rest
  · cases rest
    exact .refl

theorem changes_executeAction {action : Action}
    (ran : executeAction classes now device add world kind table action = some next) :
    Changes table next := by
  unfold executeAction at ran
  split at ran
  · split at ran
    · cases ran
      exact .refl
    · exact (changes_forceClose table now device _).trans (changes_trigger adds ran)
  · split at ran
    · obtain ⟨between, registered, rest⟩ := bind_eq_some_iff.mp ran
      exact (changes_nodeRegister adds registered).trans (changes_trigger adds rest)
    · cases ran
      exact .refl
  · exact changes_trigger adds ran
  · exact changes_actionEnforceProvisioning adds ran
  · cases ran
    exact .refl

theorem changes_executeActions {actions : List Action}
    (ran : actions.foldlM (executeAction classes now device add world kind) table = some next) :
    Changes table next := by
  induction actions generalizing table with
  | nil =>
    cases ran
    exact .refl
  | cons action rest ih =>
    obtain ⟨between, head, tail⟩ := bind_eq_some_iff.mp ran
    exact (changes_executeAction adds head).trans (ih tail)

theorem changes_actionExecute
    (ran : actionExecute classes now device add world kind table = some next) :
    Changes table next := by
  obtain ⟨between, executed, rfl⟩ := map_eq_some_iff.mp ran
  refine (changes_executeActions adds executed).trans ?_
  split
  · exact .refl
  · exact changes_forceClose between now device kind

end Calls

section Functions

variable (classes : Classes) (now : Nat)

theorem addsByChanges_securityEventAdd (device : Device) (depth : Nat) :
    AddsByChanges (securityEventAdd classes now device depth) := by
  induction depth with
  | zero =>
    intro world request table result ran
    cases ran
  | succ depth ih =>
    intro world request table result ran
    unfold securityEventAdd at ran
    split at ran
    · cases ran
      exact .refl
    · split at ran
      · cases ran
        exact .refl
      next cleared admitted =>
        split at ran
        · cases ran
          exact changes_of_admission admitted
        · split at ran
          · have inserted := Change.inserted admitted request.startDate request.releaseDate
              request.status
            refine .head inserted ?_
            split at ran
            · obtain ⟨after, executed, rfl⟩ := map_eq_some_iff.mp ran
              exact changes_actionExecute ih executed
            · cases ran
              exact .refl
          · cases ran
            exact changes_of_admission admitted

theorem changes_securityEventClose (table : EventTable) (device : Device) (kind : Nat) :
    Changes table (table.securityEventClose classes now device kind) := by
  unfold EventTable.securityEventClose
  split
  · exact changes_forceClose table now device kind
  · split
    · exact .refl
    · split
      · exact changes_forceClose table now device kind
      · exact .refl

theorem changes_closeExpired {pass : Pass} {events : List Event}
    (ran : events.foldlM (pass.closeExpired classes) table = some next) : Changes table next := by
  induction events generalizing table with
  | nil =>
    cases ran
    exact .refl
  | cons event rest ih =>
    obtain ⟨between, head, tail⟩ := bind_eq_some_iff.mp ran
    refine Relation.ReflTransGen.trans ?_ (ih tail)
    unfold Pass.closeExpired at head
    split at head
    · cases head
      exact .refl
    · exact (changes_forceClose table pass.now event.device event.securityEventId).trans
        (changes_trigger (addsByChanges_securityEventAdd classes _ event.device _) head)

theorem changes_maintenance {tenant batch : Nat} {passes : List Pass} {processed : List Nat}
    (ran : securityEventMaintenance classes tenant batch passes processed table = some next) :
    Changes table next := by
  induction passes generalizing processed table with
  | nil =>
    cases ran
    exact .refl
  | cons pass rest ih =>
    unfold securityEventMaintenance at ran
    split at ran
    · cases ran
      exact .refl
    · obtain ⟨between, head, tail⟩ := bind_eq_some_iff.mp ran
      exact (changes_closeExpired classes head).trans (ih tail)

end Functions

def Call.isRunDelayed : Call → Bool
  | .runDelayed _ => true
  | _ => false

theorem changes_run {classes : Classes} {surroundings : Surroundings} {call : Call}
    (other : call.isRunDelayed = false)
    (ran : call.run classes surroundings table = some next) : Changes table next := by
  cases call with
  | trigger device triggered =>
    exact changes_trigger (addsByChanges_securityEventAdd classes _ device _) ran
  | add device request =>
    exact changes_of_map_fst (addsByChanges_securityEventAdd classes _ device _) ran
  | runDelayed id => cases other
  | close device kind =>
    cases ran
    exact changes_securityEventClose classes _ table device kind
  | forceClose device kind =>
    cases ran
    exact changes_forceClose table _ device kind
  | maintenance tenant batch => exact changes_maintenance classes ran

end PacketFence.SecurityEvent
