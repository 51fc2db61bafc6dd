import PacketFence.Api.TokenBackend
import PacketFence.Foundations.Machine
import Mathlib.Data.List.Chain
import Mathlib.Tactic.Linarith

/-!
# How long a token is accepted

The machine below lets time pass between calls of the backend and remembers,
next to the backend, when each token was stored and when it was used since.
The invariant ties the cache entry to that history as long as the absolute
limit has not been reached; after it the entry no longer matters.
-/

namespace PacketFence.Api

open Foundations Option Function

structure Gateway where
  backend : MemTokenBackend
  now : Time
  /-- when the token was used, latest first, down to when it was stored; empty
  if it never was -/
  uses : Token → List Time

inductive Event where
  | login (token : Token) (info : TokenInfo)
  | request (token : Token)
  | tokenInfo (token : Token)
  | cleanup
  | tick (elapsed : Nat)

namespace Gateway

def initial (expiration maxExpiration : Time) (expires : 0 < expiration)
    (ends : 0 < maxExpiration) (now : Time) : Gateway where
  backend := .newMemTokenBackend expiration maxExpiration expires ends
  now := now
  uses := fun _ => []

/-- A token that has never been stored has no history to add to. -/
def use (uses : List Time) (now : Time) : List Time :=
  if uses = [] then [] else now :: uses

def step? (gateway : Gateway) : Event → Option Gateway
  | .login token info =>
    some { gateway with
      backend := gateway.backend.storeTokenInfo gateway.now token info
      uses := Function.update gateway.uses token [gateway.now] }
  | .request token =>
    some { gateway with
      backend := (gateway.backend.handleToken gateway.now token).1
      uses := Function.update gateway.uses token
        (use (gateway.uses token) gateway.now) }
  | .tokenInfo token =>
    some { gateway with
      backend := gateway.backend.touchTokenInfo gateway.now token
      uses := Function.update gateway.uses token
        (use (gateway.uses token) gateway.now) }
  | .cleanup =>
    some { gateway with backend := gateway.backend.deleteExpired gateway.now }
  | .tick elapsed => some { gateway with now := gateway.now + elapsed }

def machine : Machine Gateway Event where
  step? := step?

def accepts (gateway : Gateway) (token : Token) : Bool :=
  (gateway.backend.handleToken gateway.now token).2.isSome

/-- No two successive uses, the one made now included, are further apart than
the inactivity limit. -/
def Unbroken (limit : Time) (now : Time) (uses : List Time) : Prop :=
  (now :: uses).IsChain fun later earlier => later - earlier ≤ limit

/-- The token was stored, its absolute limit has not been reached and its
history of uses is unbroken. -/
def Alive (expiration maxExpiration : Time) (gateway : Gateway) (token : Token) : Prop :=
  ∃ created, (gateway.uses token).getLast? = some created ∧
    gateway.now ≤ created + maxExpiration ∧
    Unbroken expiration gateway.now (gateway.uses token)

end Gateway

variable {item : Item} {info : TokenInfo} {now expiration : Time}

namespace MemTokenBackend

variable {backend : MemTokenBackend} {token : Token}

@[simp] theorem getWithExpiration_eq_some : backend.getWithExpiration now token = some item ↔
      backend.store token = some item ∧ now ≤ item.expiration := by
  simp [getWithExpiration]

theorem tokenInfoForToken_eq_some : (backend.tokenInfoForToken now token).1 = some info ↔
      ∃ item, backend.store token = some item ∧ now ≤ item.expiration ∧
        now ≤ item.info.createdAt + backend.maxExpiration ∧ item.info = info := by
  constructor
  · intro found
    unfold tokenInfoForToken at found
    split at found
    next item present =>
      obtain ⟨stored, unexpired⟩ := getWithExpiration_eq_some.mp present
      split at found
      · simp at found
      next within =>
        refine ⟨item, stored, unexpired, by linarith, ?_⟩
        split at found <;> exact some.inj found
    · simp at found
  · rintro ⟨item, stored, unexpired, within, rfl⟩
    have present := getWithExpiration_eq_some.mpr ⟨stored, unexpired⟩
    have fresh : ¬ backend.maxExpiration < now - item.info.createdAt := by linarith
    simp only [tokenInfoForToken, present, if_neg fresh]
    split <;> rfl

theorem tokenInfoForToken_expiration_le
    (found : backend.tokenInfoForToken now token = (some info, expiration)) :
    expiration ≤ info.createdAt + backend.maxExpiration := by
  unfold tokenInfoForToken at found
  split at found
  next item present =>
    split at found
    · simp at found
    · split at found
      · cases found
        exact le_rfl
      next within =>
        cases found
        exact not_lt.mp within
  · simp at found

/-- Touching either restarts the expiration of a token that is accepted or does
nothing. -/
theorem touchTokenInfo_cases (backend : MemTokenBackend) (now : Time) (token : Token) :
    (∃ info, (backend.tokenInfoForToken now token).1 = some info ∧
      backend.touchTokenInfo now token = backend.setDefault now token info) ∨
    ((backend.tokenInfoForToken now token).1 = none ∧
      backend.touchTokenInfo now token = backend) := by
  unfold touchTokenInfo
  cases found : (backend.tokenInfoForToken now token).1 with
  | some info => exact .inl ⟨info, rfl, rfl⟩
  | none => exact .inr ⟨rfl, rfl⟩

theorem tokenInfoForToken_touch :
    ((backend.touchTokenInfo now token).tokenInfoForToken now token).1 =
      (backend.tokenInfoForToken now token).1 := by
  rcases touchTokenInfo_cases backend now token with
    ⟨info, found, touched⟩ | ⟨_, touched⟩
  · obtain ⟨item, _, _, within, rfl⟩ := tokenInfoForToken_eq_some.mp found
    have restarted : now ≤ now + backend.expiration := by linarith [backend.expiration_pos]
    rw [touched, found]
    exact tokenInfoForToken_eq_some.mpr
      ⟨⟨item.info, now + backend.expiration⟩, by simp [setDefault], restarted, within, rfl⟩
  · rw [touched]

theorem handleToken_eq :
    backend.handleToken now token =
      (backend.touchTokenInfo now token, (backend.tokenInfoForToken now token).1) := by
  unfold handleToken
  split
  · simp [tokenInfoForToken_touch]
  next invalid =>
    have absent : backend.getWithExpiration now token = none := by
      simpa [tokenIsValid] using invalid
    have missing : (backend.tokenInfoForToken now token).1 = none := by
      simp [tokenInfoForToken, absent]
    have untouched : backend.touchTokenInfo now token = backend := by simp [touchTokenInfo, missing]
    rw [untouched, missing]

end MemTokenBackend

namespace Gateway

open MemTokenBackend

theorem use_getLast? (uses : List Time) (now : Time) : (use uses now).getLast? = uses.getLast? := by
  unfold use
  split
  next empty => rw [empty]
  next nonempty =>
    obtain ⟨last, rest, rfl⟩ := List.exists_cons_of_ne_nil nonempty
    simp

variable {uses : List Time} {maxExpiration : Time}

theorem unbroken_use {limit later created : Time} (history : uses.getLast? = some created) :
    Unbroken limit later (use uses now) ↔
      later - now ≤ limit ∧ Unbroken limit now uses := by
  have nonempty : uses ≠ [] := by
    rintro rfl
    simp at history
  rw [use, if_neg nonempty, Unbroken, List.isChain_cons_cons]
  rfl

@[simp] theorem unbroken_singleton {limit later : Time} :
    Unbroken limit later [now] ↔ later - now ≤ limit := by simp [Unbroken]

theorem Unbroken.earlier {limit later : Time}
    (unbroken : Unbroken limit later uses) (ordered : now ≤ later) : Unbroken limit now uses := by
  cases uses with
  | nil => exact List.isChain_singleton now
  | cons last rest =>
    obtain ⟨recent, chain⟩ := List.isChain_cons_cons.mp unbroken
    exact List.isChain_cons_cons.mpr ⟨by linarith, chain⟩

/-- The cache entry of a token agrees with its history: it keeps the creation
time, and until the absolute limit is reached it will be found at a later time
exactly if the history is still unbroken then. -/
structure Tracks (expiration maxExpiration now : Time) (entry : Option Item)
    (uses : List Time) : Prop where
  created : ∀ item, entry = some item → uses.getLast? = some item.info.createdAt
  found_iff : ∀ created, uses.getLast? = some created →
    now ≤ created + maxExpiration → ∀ later, now ≤ later →
      ((∃ item, entry = some item ∧ later ≤ item.expiration) ↔
        Unbroken expiration later uses)

namespace Tracks

variable {entry : Option Item}

theorem never : Tracks expiration maxExpiration now none [] where
  created := by simp
  found_iff := by simp

theorem stored (info : TokenInfo) :
    Tracks expiration maxExpiration now
      (some ⟨{ info with createdAt := now }, now + expiration⟩) [now] where
  created := by
    rintro _ ⟨⟩
    rfl
  found_iff := by
    intro _ _ _ later _
    simp only [some.injEq, exists_eq_left', unbroken_singleton]
    constructor <;> intro <;> linarith

theorem touched (tracks : Tracks expiration maxExpiration now (some item) uses)
    (unexpired : now ≤ item.expiration)
    (within : now ≤ item.info.createdAt + maxExpiration) :
    Tracks expiration maxExpiration now (some ⟨item.info, now + expiration⟩)
      (use uses now) where
  created := by
    rintro _ ⟨⟩
    exact (use_getLast? uses now).trans (tracks.created item rfl)
  found_iff := by
    intro created history _ later _
    have stored := tracks.created item rfl
    have unbroken : Unbroken expiration now uses :=
      (tracks.found_iff _ stored within now le_rfl).mp ⟨item, rfl, unexpired⟩
    simp only [some.injEq, exists_eq_left', unbroken_use stored, unbroken, and_true]
    constructor <;> intro <;> linarith

variable (tracks : Tracks expiration maxExpiration now entry uses)

include tracks

theorem untouched (rejected : ∀ item, entry = some item → now ≤ item.expiration →
      ¬ now ≤ item.info.createdAt + maxExpiration) :
    Tracks expiration maxExpiration now entry (use uses now) where
  created := by
    intro item stored
    exact (use_getLast? uses now).trans (tracks.created item stored)
  found_iff := by
    intro created history within later ordered
    rw [use_getLast?] at history
    have lost : ∀ later, now ≤ later → ¬ ∃ item, entry = some item ∧ later ≤ item.expiration := by
      rintro later ordered ⟨item, stored, unexpired⟩
      have same := tracks.created item stored
      rw [history, some.injEq] at same
      exact rejected item stored (ordered.trans unexpired) (same ▸ within)
    have broken : ¬ Unbroken expiration now uses := fun unbroken =>
      lost now le_rfl ((tracks.found_iff created history within now le_rfl).mpr unbroken)
    simp [lost later ordered, unbroken_use history, broken]

theorem filtered : Tracks expiration maxExpiration now
      (entry.filter fun item => now ≤ item.expiration) uses where
  created := by
    intro item kept
    exact tracks.created item (filter_eq_some_iff.mp kept).1
  found_iff := by
    intro created history within later ordered
    rw [← tracks.found_iff created history within later ordered]
    constructor
    · rintro ⟨item, kept, unexpired⟩
      exact ⟨item, (filter_eq_some_iff.mp kept).1, unexpired⟩
    · rintro ⟨item, stored, unexpired⟩
      exact ⟨item, filter_eq_some_iff.mpr
        ⟨stored, decide_eq_true (ordered.trans unexpired)⟩, unexpired⟩

theorem later {next : Time}
    (ordered : now ≤ next) : Tracks expiration maxExpiration next entry uses where
  created := tracks.created
  found_iff := by
    intro created history within later after
    exact tracks.found_iff created history (ordered.trans within) later (ordered.trans after)

end Tracks

structure Consistent (expiration maxExpiration : Time) (gateway : Gateway) : Prop where
  expiration_eq : gateway.backend.expiration = expiration
  maxExpiration_eq : gateway.backend.maxExpiration = maxExpiration
  tracks : ∀ token, Tracks expiration maxExpiration gateway.now
    (gateway.backend.store token) (gateway.uses token)

variable {gateway next : Gateway} {event : Event} {token : Token}

def touch (gateway : Gateway) (token : Token) : Gateway :=
  { gateway with
    backend := gateway.backend.touchTokenInfo gateway.now token
    uses := Function.update gateway.uses token (use (gateway.uses token) gateway.now) }

theorem Consistent.touch (consistent : gateway.Consistent expiration maxExpiration)
    (token : Token) : (gateway.touch token).Consistent expiration maxExpiration := by
  obtain ⟨rfl, rfl, tracks⟩ := consistent
  rcases touchTokenInfo_cases gateway.backend gateway.now token with
    ⟨info, found, touched⟩ | ⟨missing, touched⟩
  · obtain ⟨item, stored, unexpired, within, rfl⟩ := tokenInfoForToken_eq_some.mp found
    refine ⟨by simp [touch, touched, setDefault],
      by simp [touch, touched, setDefault], fun other => ?_⟩
    by_cases same : other = token
    · subst same
      have before := tracks other
      rw [stored] at before
      simpa [touch, touched, setDefault] using before.touched unexpired within
    · simpa [touch, touched, setDefault, update_of_ne same] using tracks other
  · refine ⟨by simp [touch, touched], by simp [touch, touched], fun other => ?_⟩
    by_cases same : other = token
    · subst same
      simp only [touch, touched, update_self]
      refine (tracks other).untouched fun item stored unexpired within => ?_
      have found := tokenInfoForToken_eq_some.mpr ⟨item, stored, unexpired, within, rfl⟩
      simp [missing] at found
    · simpa [touch, touched, update_of_ne same] using tracks other

/-- What one event does: a token is stored, a token is used, expired entries are
dropped, or time passes. -/
theorem step?_cases (stepped : gateway.step? event = some next) :
    (∃ token info, event = .login token info ∧
      next = { gateway with
        backend := gateway.backend.storeTokenInfo gateway.now token info
        uses := Function.update gateway.uses token [gateway.now] }) ∨
    (∃ token, next = gateway.touch token) ∨
    next = { gateway with backend := gateway.backend.deleteExpired gateway.now } ∨
    ∃ elapsed : Nat, next = { gateway with now := gateway.now + elapsed } := by
  cases event with
  | login token info => exact .inl ⟨token, info, rfl, (some.inj stepped).symm⟩
  | request token =>
    simp only [step?, handleToken_eq, some.injEq] at stepped
    exact .inr (.inl ⟨token, stepped.symm⟩)
  | tokenInfo token => exact .inr (.inl ⟨token, (some.inj stepped).symm⟩)
  | cleanup => exact .inr (.inr (.inl (some.inj stepped).symm))
  | tick elapsed => exact .inr (.inr (.inr ⟨elapsed, (some.inj stepped).symm⟩))

theorem Consistent.step (consistent : gateway.Consistent expiration maxExpiration)
    (stepped : gateway.step? event = some next) : next.Consistent expiration maxExpiration := by
  rcases step?_cases stepped with ⟨token, info, _, rfl⟩ | ⟨token, rfl⟩ | rfl | ⟨elapsed, rfl⟩
  · obtain ⟨rfl, rfl, tracks⟩ := consistent
    refine ⟨rfl, rfl, fun other => ?_⟩
    by_cases same : other = token
    · subst same
      simpa [storeTokenInfo, setDefault] using Tracks.stored info
    · simpa [storeTokenInfo, setDefault, update_of_ne same] using tracks other
  · exact consistent.touch token
  · exact ⟨consistent.expiration_eq, consistent.maxExpiration_eq,
      fun token => (consistent.tracks token).filtered⟩
  · exact ⟨consistent.expiration_eq, consistent.maxExpiration_eq,
      fun token => (consistent.tracks token).later (by simp)⟩

theorem Consistent.of_reaches {allowed : Gateway → Event → Prop} {first : Gateway}
    (reached : machine.Reaches allowed first gateway)
    (consistent : first.Consistent expiration maxExpiration) :
    gateway.Consistent expiration maxExpiration :=
  reached.invariant consistent fun _ _ _ before _ stepped => before.step stepped

theorem Consistent.accepts_iff (consistent : gateway.Consistent expiration maxExpiration)
    (token : Token) :
    gateway.accepts token = true ↔ gateway.Alive expiration maxExpiration token := by
  obtain ⟨rfl, rfl, tracks⟩ := consistent
  rw [accepts, handleToken_eq, isSome_iff_exists]
  constructor
  · rintro ⟨info, found⟩
    obtain ⟨item, stored, unexpired, within, _⟩ := tokenInfoForToken_eq_some.mp found
    have created := (tracks token).created item stored
    exact ⟨item.info.createdAt, created, within,
      ((tracks token).found_iff _ created within gateway.now le_rfl).mp ⟨item, stored, unexpired⟩⟩
  · rintro ⟨created, history, within, unbroken⟩
    obtain ⟨item, stored, unexpired⟩ :=
      ((tracks token).found_iff created history within gateway.now le_rfl).mpr unbroken
    have same := (tracks token).created item stored
    rw [history, some.injEq] at same
    exact ⟨item.info, tokenInfoForToken_eq_some.mpr ⟨item, stored, unexpired, same ▸ within, rfl⟩⟩

theorem Consistent.expiration_le (consistent : gateway.Consistent expiration maxExpiration)
    {reported : Time}
    (found : gateway.backend.tokenInfoForToken gateway.now token = (some info, reported)) :
    (gateway.uses token).getLast? = some info.createdAt ∧
      reported ≤ info.createdAt + maxExpiration := by
  obtain ⟨rfl, rfl, tracks⟩ := consistent
  obtain ⟨item, stored, _, _, rfl⟩ := tokenInfoForToken_eq_some.mp (congrArg Prod.fst found)
  exact ⟨(tracks token).created item stored, tokenInfoForToken_expiration_le found⟩

/-- Unless it is stored again, a token that is alive after a step was alive
before it. -/
theorem alive_of_step (notStored : ∀ info, event ≠ .login token info)
    (stepped : gateway.step? event = some next)
    (alive : next.Alive expiration maxExpiration token) :
    gateway.Alive expiration maxExpiration token := by
  rcases step?_cases stepped with
    ⟨other, info, rfl, rfl⟩ | ⟨other, rfl⟩ | rfl | ⟨elapsed, rfl⟩
  · have different : token ≠ other := by
      rintro rfl
      exact notStored info rfl
    simpa [Alive, update_of_ne different] using alive
  · by_cases same : token = other
    · subst same
      obtain ⟨created, history, within, unbroken⟩ := alive
      simp only [touch, update_self] at history within unbroken
      rw [use_getLast?] at history
      exact ⟨created, history, within, ((unbroken_use history).mp unbroken).2⟩
    · simpa [Alive, touch, update_of_ne same] using alive
  · exact alive
  · obtain ⟨created, history, within, unbroken⟩ := alive
    have ordered : gateway.now ≤ gateway.now + elapsed := by simp
    exact ⟨created, history, ordered.trans within, unbroken.earlier ordered⟩

theorem consistent_initial (expires : 0 < expiration) (ends : 0 < maxExpiration)
    (now : Time) :
    (initial expiration maxExpiration expires ends now).Consistent
      expiration maxExpiration where
  expiration_eq := rfl
  maxExpiration_eq := rfl
  tracks := fun _ => .never

/-- In every state of every run a token is accepted exactly while its absolute
limit and, for each of its uses, the inactivity limit are kept; the reported
expiration respects the absolute limit, and a rejected token stays rejected
until it is stored again. -/
theorem token_lifetime (expires : 0 < expiration) (ends : 0 < maxExpiration) (start : Time)
    (reached : machine.Reaches Machine.anyEvent
      (initial expiration maxExpiration expires ends start) gateway) (token : Token) :
    (gateway.accepts token = true ↔ gateway.Alive expiration maxExpiration token) ∧
    (∀ info reported, gateway.backend.tokenInfoForToken gateway.now token = (some info, reported) →
      (gateway.uses token).getLast? = some info.createdAt ∧
        reported ≤ info.createdAt + maxExpiration) ∧
    ∀ later, machine.Reaches (fun _ event => ∀ info, event ≠ .login token info) gateway later →
      gateway.accepts token = false → later.accepts token = false := by
  have consistent := Consistent.of_reaches reached (consistent_initial expires ends start)
  refine ⟨consistent.accepts_iff token, fun info reported => consistent.expiration_le,
    fun later continued rejected => ?_⟩
  have consistentLater := Consistent.of_reaches continued consistent
  rw [Bool.eq_false_iff, Ne, consistent.accepts_iff] at rejected
  rw [Bool.eq_false_iff, Ne, consistentLater.accepts_iff]
  induction continued with
  | refl => exact rejected
  | step earlier notStored stepped ih =>
    intro alive
    exact ih (Consistent.of_reaches earlier consistent) (alive_of_step notStored stepped alive)

def StandsFor (gateway : Gateway) (token : Token) (info : TokenInfo) : Prop :=
  ∀ item ∈ gateway.backend.store token, item.info = info

theorem StandsFor.step (stands : gateway.StandsFor token info)
    (notStored : ∀ info, event ≠ .login token info) (stepped : gateway.step? event = some next) :
    next.StandsFor token info := by
  rcases step?_cases stepped with ⟨other, given, rfl, rfl⟩ | ⟨other, rfl⟩ | rfl | ⟨_, rfl⟩
  · intro item stored
    have different : token ≠ other := fun same => notStored given (same ▸ rfl)
    exact stands item ((update_of_ne different _ _).symm.trans stored)
  · rcases touchTokenInfo_cases gateway.backend gateway.now other with
      ⟨given, found, touched⟩ | ⟨_, touched⟩ <;> rw [StandsFor, touch, touched]
    · obtain ⟨old, before, -, -, rfl⟩ := tokenInfoForToken_eq_some.mp found
      rw [setDefault]
      intro item stored
      dsimp only at stored
      rw [update_apply] at stored
      split at stored
      next same =>
        cases stored
        exact stands old (same ▸ before)
      · exact stands item stored
    · exact stands
  · exact fun item stored => stands item (filter_eq_some_iff.mp stored).1
  · exact stands

/-- A token that is accepted has the roles, the tenant and the age of its login. -/
theorem info_of_login {later : Gateway} {found : TokenInfo}
    (login : gateway.step? (.login token info) = some next)
    (reached : machine.Reaches (fun _ event => ∀ info, event ≠ .login token info) next later)
    (accepted : (later.backend.handleToken later.now token).2 = some found) :
    found = { info with createdAt := gateway.now } := by
  cases login
  have stands := reached.invariant
    (fun item stored => by cases (update_self token _ _).symm.trans stored; rfl)
    fun _ _ _ stands notStored stepped => StandsFor.step stands notStored stepped
  rw [handleToken_eq] at accepted
  obtain ⟨item, stored, -, -, rfl⟩ := tokenInfoForToken_eq_some.mp accepted
  exact stands item stored

end Gateway

namespace TokenScenario

open Gateway

def start : Gateway := .initial 10 25 (by decide) (by decide) 0

def admin : TokenInfo where
  adminRoles := ["ALL"]
  tenantId := 1
  username := "admin"
  createdAt := 0

def token : Token := "0123"

/-- The token is used after eight and after sixteen units; the run ends two
units before the absolute limit. -/
def events : List Event :=
  [.login token admin, .tick 8, .request token, .tick 8, .tokenInfo token, .cleanup,
    .tick 7]

end TokenScenario

open TokenScenario

/-- Kept in use, the token is accepted up to two units before its end; three
units later it is rejected, and a request does not bring it back. -/
theorem token_lifetime_in_use :
    ∃ gateway late later, Gateway.machine.Reaches Machine.anyEvent start gateway ∧
      gateway.uses token = [16, 8, 0] ∧ gateway.now = 23 ∧
      gateway.Alive 10 25 token ∧
      Gateway.machine.Reaches Machine.anyEvent gateway late ∧
      Gateway.machine.step? late (.request token) = some later ∧ later.accepts token = false := by
  have replayed : (Gateway.machine.replay? (fun _ _ => true) start events).bind
        (fun gateway =>
          (Gateway.machine.replay? (fun _ _ => true) gateway [.tick 3]).map fun late =>
            (gateway.uses token, gateway.now, gateway.accepts token, late.accepts token)) =
      some ([16, 8, 0], 23, true, false) := by decide
  rcases bind_eq_some_iff.mp replayed with ⟨gateway, run, rest⟩
  rcases map_eq_some_iff.mp rest with ⟨late, wait, view⟩
  simp only [Prod.mk.injEq] at view
  obtain ⟨uses, now, accepted, rejected⟩ := view
  have reached := Machine.reaches_anyEvent_of_replay? run .refl
  have reachedLate := Machine.reaches_anyEvent_of_replay? wait reached
  have next : Gateway.machine.step? late (.request token) = some _ := rfl
  have continued : Gateway.machine.Reaches (fun _ event => ∀ info, event ≠ .login token info)
      late _ := .step .refl (by simp) next
  exact ⟨gateway, late, _, reached, uses, now,
    (Gateway.token_lifetime _ _ 0 reached token).1.mp accepted,
    Machine.reaches_anyEvent_of_replay? wait .refl, next,
    (Gateway.token_lifetime _ _ 0 reachedLate token).2.2 _ continued rejected⟩

theorem admin_after_request :
    ∃ gateway later found, start.step? (.login token admin) = some gateway ∧
      Gateway.machine.step? gateway (.request token) = some later ∧
      (later.backend.handleToken later.now token).2 = some found ∧ found = admin := by
  obtain ⟨gateway, login⟩ : ∃ next, start.step? (.login token admin) = some next := ⟨_, rfl⟩
  obtain ⟨later, request⟩ : ∃ next, Gateway.machine.step? gateway (.request token) = some next :=
    ⟨_, rfl⟩
  have accepted : later.accepts token = true := by
    cases login
    cases request
    decide
  obtain ⟨found, accepted⟩ := isSome_iff_exists.mp accepted
  exact ⟨gateway, later, found, login, request, accepted,
    Gateway.info_of_login login (.step .refl (by simp) request) accepted⟩

end PacketFence.Api
