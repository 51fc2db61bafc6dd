import PacketFence.Dhcp.Reservation

/-!
# Addresses that are temporarily unusable

An index is quarantined from the moment `ReserveIPIndex` is called for it with
`FakeMac` until the goroutine started next frees it again. The source does not
look at the result of the reservation, and the eviction callback of the cache
entry deleted just before frees the index without asking who holds it. The
quarantine holds for its whole time if no callback, cache entry or other call
for the index is left when it is declared unusable. That it is free then, and
that nobody frees it early, follows.
-/

namespace PacketFence.Dhcp

open Foundations Function List

/-- The index that a call may come to declare unusable. -/
def Point.leaves : Point → Option Nat
  | .probe _ index | .unlock _ index | .quarantine _ index | .checkHolder index | .forget index
  | .giveBack index | .setAside index => some index
  | _ => none

/-- The index that a call works on. -/
def Point.uses (point : Point) : Option Nat :=
  point.candidate <|> point.granted <|> point.leaves

theorem Point.uses_eq_some {point : Point} {index : Nat} : point.uses = some index ↔
    point.candidate = some index ∨ point.granted = some index ∨ point.leaves = some index := by
  cases point <;> simp [uses, candidate, granted, leaves]

def Effect.reserves : Effect → Option Nat
  | .reserve index | .take index | .setAside index => some index
  | _ => none

namespace Server

/-- Every index declared unusable is bound to `FakeMac`, so this is what its
goroutine will free, and no DISCOVER is about to offer it. -/
structure Quarantined (server : Server) : Prop where
  bound : ∀ index ∈ server.timers, server.pool.mac index = some FakeMac
  withheld : ∀ id call index, server.calls id = some call →
    call.point = .reply index → index ∉ server.timers

/-- The index is in the cache, or its eviction callback is to come. -/
def Recorded (server : Server) (index : Nat) : Prop :=
  index ∈ server.evictions ∨ ∃ mac, server.hwcache mac = some index

/-- The condition on what a call does: it does not set the entry of its client to
another index, it reserves an index on which no other call works, and it declares
unusable an index of the pool that is not recorded. -/
structure Tidy (server : Server) (id : Nat) (mac : Mac) (effect : Effect) : Prop where
  keepsEntry : ∀ index old, effect = .cacheSet index → server.hwcache mac = some old → old = index
  reservesUnused : ∀ index, effect.reserves = some index → ∀ other call,
    server.calls other = some call → call.point.uses = some index → other = id
  declaresUnrecorded : ∀ index, effect = .setAside index →
    index < server.pool.capacity ∧ ¬ server.Recorded index

structure Orderly (handler : DHCPHandler) (server : Server) (event : Event) : Prop where
  notFree : NotFrom FreeMac event
  notFake : NotFrom FakeMac event
  staticBound : StaticBound handler server event
  picksFree : server.PicksFree event
  retriesReserved : server.RetriesReserved event
  tidy : ∀ id environment call effect continuation, event = .advance id environment →
    server.calls id = some call →
    advance? handler environment server call.mac call.point = some (effect, continuation) →
    server.Tidy id call.mac effect

/-- What nobody may come across while its goroutine is pending. -/
structure Withheld (server : Server) (index : Nat) : Prop where
  bound : server.pool.mac index = some FakeMac
  unrecorded : ¬ server.Recorded index
  unused : ∀ id call, server.calls id = some call → call.point.uses ≠ some index

/-- If an index that a call may declare unusable is bound, it is recorded. -/
structure Secluded (server : Server) : Prop where
  real : server.Avoids FreeMac
  notFake : server.Avoids FakeMac
  leaving : ∀ id call index, server.calls id = some call → call.point.leaves = some index →
    server.pool.mac index = none ∨ server.Recorded index
  withheld : ∀ index ∈ server.timers, server.Withheld index
  nodup : server.timers.Nodup

variable {handler : DHCPHandler} {environment : Environment} {mac : Mac}
  {point reached : Point} {effect : Effect} {continuation : Next} {server next : Server}
  {event : Event} {id index : Nat} {call : Call}

theorem Secluded.initial (pool : DHCPPool) (clock : Int) : (initial pool clock).Secluded :=
  ⟨by simp [Avoids, Server.initial], by simp [Avoids, Server.initial], by simp [Server.initial],
    by simp [Server.initial], nodup_nil⟩

theorem Secluded.quarantined (secluded : server.Secluded) : server.Quarantined where
  bound := fun index declared => (secluded.withheld index declared).bound
  withheld := by
    intro id call index present replies declared
    refine (secluded.withheld index declared).unused id call present ?_
    rw [replies]
    rfl

/-! ### What a step records and binds -/

@[simp]
theorem recorded_proceed :
    (server.proceed id mac continuation).Recorded index ↔ server.Recorded index := by
  cases continuation <;> exact Iff.rfl

@[simp]
theorem recorded_cacheDelete :
    (server.cacheDelete mac).Recorded index ↔ server.Recorded index := by
  unfold cacheDelete
  split
  · rfl
  next old entry =>
    simp only [Recorded, mem_cons, update_apply]
    grind

theorem recorded_apply
    (keeps : ∀ set old, effect = .cacheSet set → server.hwcache mac = some old → old = set) :
    (effect.apply server mac).Recorded index ↔
      server.Recorded index ∨ effect = .cacheSet index := by
  cases effect with
  | cacheDelete => simp [Effect.apply]
  | cacheSet set =>
    constructor
    · rintro (pending | ⟨other, entry⟩)
      · exact .inl (.inl pending)
      · obtain older | ⟨_, sets⟩ := Effect.apply_hwcache server mac entry
        exacts [.inl (.inr ⟨other, older⟩), .inr sets]
    · rintro ((pending | ⟨other, entry⟩) | sets)
      · exact .inl pending
      · refine .inr ⟨other, ?_⟩
        by_cases same : other = mac
        · subst other
          rw [keeps set index rfl entry]
          exact update_self ..
        · simp [Effect.apply, cacheSet, update_of_ne same, entry]
      · cases sets
        exact .inr ⟨mac, update_self ..⟩
  | take taken =>
    simp only [Effect.apply, reduceCtorEq, or_false]
    split <;> rfl
  | _ => simp [Effect.apply, Recorded, freeIPIndex]

theorem apply_unbound (unbound : server.pool.mac index = none) :
    (effect.apply server mac).pool.mac index = none ∨ effect.reserves = some index := by
  cases effect with
  | reserve reserved | setAside reserved =>
    by_cases same : reserved = index
    · exact .inr (congrArg some same)
    · simp only [Effect.apply, DHCPPool.reserveIPIndex_mac]
      split <;> simp [update_of_ne (Ne.symm same), unbound]
  | take taken =>
    by_cases same : taken = index
    · exact .inr (congrArg some same)
    · simp only [Effect.apply, DHCPPool.getFreeIPIndex]
      split
      · split <;> simp [update_of_ne (Ne.symm same), unbound]
      · exact .inl unbound
  | _ => exact .inl (by simp [Effect.apply, cacheSet, update_apply, unbound])

/-- Where a call comes from that may declare an index unusable. -/
theorem advance?_leaves
    (advanced : advance? handler environment server mac point = some (effect, .goto reached))
    (leaves : reached.leaves = some index) :
    point.leaves = some index ∧ effect.reserves = none ∨ effect = .cacheSet index ∨
      server.hwcache mac = some index := by
  cases point <;> simp only [advance?] at advanced <;> (repeat' split at advanced) <;>
    obtain ⟨rfl, rfl⟩ := advanced <;>
    simp_all [Point.leaves, Effect.reserves]

theorem begin_leaves {message : Message} (begun : begin handler mac message = .goto point) :
    point.leaves = none := by
  cases message <;> simp only [begin] at begun <;> (repeat' split at begun) <;> cases begun <;> rfl

/-- A call that declares an index unusable has come to it and works on none afterwards. -/
theorem advance?_setAside (advanced : advance? handler environment server mac point =
      some (.setAside index, continuation)) :
    point.leaves = some index ∧ ∀ reached, continuation = .goto reached → reached.uses = none := by
  cases point <;> simp only [advance?] at advanced <;> (repeat' split at advanced) <;>
    obtain ⟨⟨⟩, rfl⟩ := advanced <;> exact ⟨rfl, by rintro _ ⟨⟩ <;> rfl⟩

theorem recorded_advance (orderly : Orderly handler server (.advance id environment))
    (stepped : step? handler server (.advance id environment) = some next)
    (found : server.calls id = some call)
    (advanced : advance? handler environment server call.mac call.point =
      some (effect, continuation)) :
    next.Recorded index ↔ server.Recorded index ∨ effect = .cacheSet index := by
  simp only [step?, found, advanced, Option.map_some] at stepped
  cases stepped
  rw [recorded_proceed]
  exact recorded_apply (orderly.tidy id environment call effect continuation rfl found
    advanced).keepsEntry

theorem recorded_step (orderly : Orderly handler server event)
    (stepped : step? handler server event = some next) (recorded : next.Recorded index) :
    server.Recorded index ∨ ∃ id environment call continuation, event = .advance id environment ∧
      server.calls id = some call ∧ advance? handler environment server call.mac call.point =
        some (.cacheSet index, continuation) := by
  cases Step.of_step? stepped with
  | receive => exact .inl (recorded_proceed.mp recorded)
  | @advance id environment call effect continuation found advanced =>
    obtain older | rfl := (recorded_advance orderly stepped found advanced).mp recorded
    · exact .inl older
    · exact .inr ⟨id, environment, call, continuation, rfl, found, advanced⟩
  | expire => exact .inl (recorded_cacheDelete.mp recorded)
  | evicted => exact .inl (recorded.imp_left mem_of_mem_eraseIdx)
  | timer | tick => exact .inl recorded

/-- An index on which a call works is bound by no other call, and is recorded until
its callback has freed it. -/
theorem traced_step (orderly : Orderly handler server event)
    (stepped : step? handler server event = some next)
    (unreserved : ∀ id environment call effect continuation, event = .advance id environment →
      server.calls id = some call → advance? handler environment server call.mac call.point =
        some (effect, continuation) → effect.reserves ≠ some index)
    (traced : server.pool.mac index = none ∨ server.Recorded index) :
    next.pool.mac index = none ∨ next.Recorded index := by
  cases Step.of_step? stepped with
  | receive => simpa using traced
  | @advance id environment call effect continuation found advanced =>
    rw [recorded_advance orderly stepped found advanced, proceed_pool]
    obtain unbound | recorded := traced
    · exact .inl ((apply_unbound unbound).resolve_right
        (unreserved id environment call effect continuation rfl found advanced))
    · exact .inr (.inl recorded)
  | expire => simpa using traced
  | @evicted position freed pending =>
    by_cases same : index = freed
    · exact .inl (by simp [same])
    · refine traced.imp (fun unbound => by simp [same, unbound]) (Or.imp_left fun there => ?_)
      obtain ⟨place, found⟩ := mem_iff_getElem?.mp there
      refine mem_eraseIdx_iff_getElem?.mpr ⟨place, ?_, found⟩
      rintro rfl
      exact same (Option.some.inj (found.symm.trans pending))
  | timer => exact traced.imp_left fun unbound => by simp [update_apply, unbound]
  | tick => exact traced

/-! ### Steps -/

/-- A call comes to work on an index that it finds in the cache or bound to its client. -/
theorem advance?_uses (real : mac ≠ FreeMac)
    (advanced : advance? handler environment server mac point = some (effect, .goto reached))
    (uses : reached.uses = some index) :
    point.uses = some index ∨ server.Recorded index ∨
      (effect.apply server mac).pool.mac index = some mac ∨
      0 < server.pool.freeIPsRemaining ∧
        ∃ requested firstTry, point = .retry requested firstTry (some index) := by
  rw [Point.uses_eq_some] at uses ⊢
  obtain candidate | granted | leaves := uses
  · obtain before | now | ⟨_, remaining, retries⟩ := advance?_candidate advanced real candidate
    · exact .inl (.inl before)
    · exact .inr (.inr (.inl now))
    · exact .inr (.inr (.inr ⟨remaining, retries⟩))
  · obtain before | entry := advance?_granted advanced granted
    · exact .inl (.inr (.inl before))
    · exact .inr (.inl (.inr ⟨mac, entry⟩))
  · obtain ⟨before, _⟩ | rfl | entry := advance?_leaves advanced leaves
    · exact .inl (.inr (.inr before))
    · exact .inl (or_assoc.mp (.inl (advance?_origin advanced)))
    · exact .inr (.inl (.inr ⟨mac, entry⟩))

theorem Withheld.step (withheld : server.Withheld index) (orderly : Orderly handler server event)
    (real : server.Avoids FreeMac) (notFake : server.Avoids FakeMac)
    (stepped : step? handler server event = some next)
    (other : ∀ position, event = .timer position → server.timers[position]? ≠ some index) :
    next.Withheld index := by
  have kept : server.frees? event ≠ some index := by
    intro frees
    cases event with
    | advance id environment =>
      simp only [frees?] at frees
      split at frees
      next found =>
        cases frees
        exact withheld.unused id _ found rfl
      · cases frees
    | evicted position => exact withheld.unrecorded (.inl (mem_of_getElem? frees))
    | timer position => exact other position rfl frees
    | receive | expire | tick => cases frees
  have bound := step?_pool_mac stepped orderly.picksFree kept withheld.bound
  have apart {owner : Mac} {state : Server} (fake : owner ≠ FakeMac)
      (held : state.pool.mac index = some FakeMac) : state.pool.mac index ≠ some owner := by
    rw [held]
    exact fun same => fake (Option.some.inj same).symm
  refine ⟨bound, fun recorded => ?_, fun id call present uses => ?_⟩
  · obtain older | ⟨id, environment, call, _, _, found, advanced⟩ :=
      recorded_step orderly stepped recorded
    · exact withheld.unrecorded older
    · exact withheld.unused id call found
        (Point.uses_eq_some.mpr (or_assoc.mp (.inl (advance?_origin advanced))))
  · obtain ⟨older, _⟩ | ⟨message, rfl, begun, _⟩ |
      ⟨environment, point, effect, rfl, older, advanced, pool⟩ := step?_calls_cases stepped present
    · exact withheld.unused id call older uses
    · obtain relies | leaves := (or_assoc.mpr (Point.uses_eq_some.mp uses))
      · exact apart orderly.notFake withheld.bound
          (orderly.staticBound index (begin_relies begun relies))
      · rw [begin_leaves begun] at leaves
        cases leaves
    · have fake := notFake id ⟨call.mac, point⟩ older
      obtain before | recorded | now | ⟨remaining, requested, firstTry, rfl⟩ :=
        advance?_uses (real id ⟨call.mac, point⟩ older) advanced uses
      · exact withheld.unused id _ older before
      · exact withheld.unrecorded recorded
      · exact apart fake bound (pool ▸ now)
      · exact apart fake withheld.bound (orderly.retriesReserved ⟨call.mac, _⟩ requested firstTry
          index older rfl remaining)

theorem step?_timers_cases (stepped : step? handler server event = some next) :
    (next.timers = server.timers ∧ ∀ position, event ≠ .timer position) ∨
      (∃ id environment call index continuation, event = .advance id environment ∧
        server.calls id = some call ∧ advance? handler environment server call.mac call.point =
          some (.setAside index, continuation) ∧ next.timers = index :: server.timers ∧
        next.pool = (server.pool.reserveIPIndex index FakeMac).1) ∨
      ∃ position index, event = .timer position ∧
        server.timers[position]? = some index ∧
        next.timers = server.timers.eraseIdx position := by
  cases Step.of_step? stepped with
  | @advance id environment call effect continuation found advanced =>
    rw [proceed_timers, proceed_pool]
    rcases Effect.apply_timers server call.mac effect with
      same | ⟨index, rfl, declared⟩
    · exact .inl ⟨same, by simp⟩
    · exact .inr (.inl ⟨id, environment, call, index, continuation, rfl, found, advanced, declared,
        rfl⟩)
  | @timer position index found => exact .inr (.inr ⟨position, index, rfl, found, rfl⟩)
  | receive | expire => exact .inl ⟨by simp, by simp⟩
  | evicted | tick => exact .inl ⟨rfl, by simp⟩

section Step

variable (orderly : Orderly handler server event)
  (stepped : step? handler server event = some next) (secluded : server.Secluded)

include orderly stepped secluded

theorem leaving_step (present : next.calls id = some call)
    (leaves : call.point.leaves = some index) :
    next.pool.mac index = none ∨ next.Recorded index := by
  obtain ⟨older, idle⟩ | ⟨message, rfl, begun, _⟩ |
    ⟨environment, point, effect, rfl, older, advanced, pool⟩ := step?_calls_cases stepped present
  · refine traced_step orderly stepped ?_ (secluded.leaving id call index older leaves)
    rintro other environment _ effect continuation rfl found advanced reserves
    have same := (orderly.tidy other environment _ effect continuation rfl found
      advanced).reservesUnused index reserves id call older
      (Point.uses_eq_some.mpr (.inr (.inr leaves)))
    exact idle environment (by rw [same])
  · rw [begin_leaves begun] at leaves
    cases leaves
  · obtain ⟨before, keeps⟩ | added := advance?_leaves advanced leaves
    · refine traced_step orderly stepped ?_ (secluded.leaving id ⟨_, point⟩ index older before)
      rintro _ _ _ _ _ ⟨⟩ found again
      cases older.symm.trans found
      cases advanced.symm.trans again
      simp [keeps]
    · refine .inr ((recorded_advance orderly stepped older advanced).mpr ?_)
      exact added.symm.imp_left fun entry => .inr ⟨_, entry⟩

theorem withheld_step (declared : index ∈ next.timers) : next.Withheld index := by
  have older (there : index ∈ server.timers) := (secluded.withheld index there).step orderly
    secluded.real secluded.notFake stepped
  obtain ⟨same, other⟩ | ⟨id, environment, call, _, continuation, rfl, found, advanced, timers,
    pool⟩ | ⟨position, freed, rfl, found, timers⟩ := step?_timers_cases stepped
  · rw [same] at declared
    exact older declared fun position isTimer => absurd isTimer (other position)
  · rw [timers] at declared
    obtain rfl | there := mem_cons.mp declared
    · have tidy := orderly.tidy id environment call _ continuation rfl found advanced
      obtain ⟨inside, unrecorded⟩ := tidy.declaresUnrecorded index rfl
      obtain ⟨leaves, ended⟩ := advance?_setAside advanced
      refine ⟨?_, fun recorded => ?_, fun other new present uses => ?_⟩
      · have unbound := (secluded.leaving id call index found leaves).resolve_right unrecorded
        have free : index ∈ server.pool.free := by
          by_contra taken
          have bound := (server.pool.mac_isSome_iff index).mpr ⟨inside, taken⟩
          simp [unbound] at bound
        simp [pool, free]
      · obtain older | ⟨_, _, _, _, same, there, again⟩ := recorded_step orderly stepped recorded
        · exact unrecorded older
        · cases same
          cases found.symm.trans there
          cases advanced.symm.trans again
      · obtain ⟨before, idle⟩ | ⟨_, received, _⟩ | ⟨_, _, _, own, there, again, _⟩ :=
          step?_calls_cases stepped present
        · exact idle environment (by rw [tidy.reservesUnused index rfl other new before uses])
        · cases received
        · cases own
          cases found.symm.trans there
          cases advanced.symm.trans again
          rw [ended _ rfl] at uses
          cases uses
    · exact older there nofun
  · rw [timers] at declared
    refine older (mem_of_mem_eraseIdx declared) ?_
    rintro _ ⟨⟩ own
    obtain ⟨other, apart, again⟩ := mem_eraseIdx_iff_getElem?.mp declared
    have bounded := (List.getElem?_eq_some_iff.mp own).1
    exact apart ((getElem?_inj bounded secluded.nodup).mp (own.trans again.symm)).symm

theorem nodup_step : next.timers.Nodup := by
  obtain ⟨same, _⟩ | ⟨id, environment, call, index, continuation, rfl, found, advanced, timers, _⟩ |
    ⟨position, freed, rfl, _, timers⟩ := step?_timers_cases stepped
  · rw [same]
    exact secluded.nodup
  · rw [timers]
    refine nodup_cons.mpr ⟨fun there => ?_, secluded.nodup⟩
    exact (secluded.withheld index there).unused id call found
      (Point.uses_eq_some.mpr (.inr (.inr (advance?_setAside advanced).1)))
  · rw [timers]
    exact secluded.nodup.eraseIdx position

theorem Secluded.step : next.Secluded where
  real := avoids_step stepped orderly.notFree secluded.real
  notFake := avoids_step stepped orderly.notFake secluded.notFake
  leaving := fun _ _ _ => leaving_step orderly stepped secluded
  withheld := fun _ => withheld_step orderly stepped secluded
  nodup := nodup_step orderly stepped secluded

end Step

end Server

open Server

/-- In every run of orderly steps an index declared unusable stays bound to
`FakeMac`, and is not offered, until its own goroutine has freed it. -/
theorem quarantined_of_orderly_run (handler : DHCPHandler) (pool : DHCPPool)
    (clock : Int) {server : Server} (reached : (machine handler).Reaches (Orderly handler)
      (initial pool clock) server) : server.Quarantined := by
  have secluded : server.Secluded :=
    reached.invariant (Secluded.initial pool clock)
      fun _ _ _ secluded orderly stepped => secluded.step orderly stepped
  exact secluded.quarantined

namespace Scenario

/-- The client gives back `index`. The eviction callback of the deleted cache
entry runs at once or after everything else. -/
def release (mac : Mac) (index : Nat) (atOnce : Bool) : List Event :=
  let first := [.receive 0 mac (.release (handler.start + UInt32.ofNat index)),
    .advance 0 {}, .advance 0 {}, .advance 0 {}]
  let last := [.advance 0 {}, .advance 0 {}]
  if atOnce then first ++ .evicted 0 :: last else first ++ last ++ [.evicted 0]

/-- A decidable condition that is enough for an orderly step of call 0 for Alice. -/
def quiet (server : Server) : Event → Bool
  | .receive id mac _ => id == 0 && mac == alice
  | .advance _ environment => (server.calls 0).all fun call =>
      (match call.point with
        | .pick _ => decide (environment.available ∈ server.pool.free)
        | .retry _ _ free => free.isNone
        | _ => true) &&
      (advance? handler environment server alice call.point).all fun result =>
        match result.1 with
        | .cacheSet index => (server.hwcache alice).all (· == index)
        | .setAside index => decide (index < server.pool.capacity ∧ index ∉ server.evictions) &&
          server.hwcache alice != some index
        | _ => true
  | _ => true

/-- There is one call, and only Alice has called. -/
structure OnlyAlice (server : Server) : Prop where
  calls : ∀ id call, server.calls id = some call → id = 0 ∧ call.mac = alice
  entries : ∀ mac index, server.hwcache mac = some index → mac = alice

variable {server next : Server} {event : Event}

theorem onlyAlice_step (only : OnlyAlice server) (checked : quiet server event = true)
    (stepped : (machine handler).step? server event = some next) : OnlyAlice next := by
  refine ⟨fun id call present => ?_, fun mac index entry => ?_⟩
  · obtain ⟨older, _⟩ | ⟨message, rfl, _⟩ | ⟨environment, point, effect, _, older, _⟩ :=
      step?_calls_cases stepped present
    · exact only.calls id call older
    · simpa [quiet] using checked
    · exact only.calls id ⟨call.mac, point⟩ older
  · cases Step.of_step? stepped with
    | receive => exact only.entries mac index (by simpa using entry)
    | @advance id environment call effect continuation found advanced =>
      rw [proceed_hwcache] at entry
      obtain older | ⟨rfl, _⟩ := Effect.apply_hwcache server call.mac entry
      · exact only.entries mac index older
      · exact (only.calls id call found).2
    | expire =>
      rw [cacheDelete_hwcache, update_apply] at entry
      exact only.entries mac index (by grind)
    | evicted | timer | tick => exact only.entries mac index entry

theorem orderly_of_quiet (only : OnlyAlice server) (checked : quiet server event = true) :
    Orderly handler server event where
  notFree := by
    cases event with
    | receive id mac message =>
      rintro rfl
      simp [quiet, alice, FreeMac] at checked
    | _ => trivial
  notFake := by
    cases event with
    | receive id mac message =>
      rintro rfl
      simp [quiet, alice, FakeMac] at checked
    | _ => trivial
  staticBound := by
    cases event with
    | receive => exact nofun
    | _ => trivial
  picksFree := by
    cases event with
    | advance id environment =>
      rintro ⟨mac, _⟩ requested found rfl
      obtain ⟨rfl, _⟩ := only.calls id _ found
      simp only [quiet, found, Option.all_some, Bool.and_eq_true] at checked
      exact of_decide_eq_true checked.1
    | _ => trivial
  retriesReserved := by
    cases event with
    | advance id environment =>
      rintro ⟨mac, _⟩ requested firstTry free found rfl
      obtain ⟨rfl, _⟩ := only.calls id _ found
      simp [quiet, found] at checked
    | _ => trivial
  tidy := by
    rintro id environment ⟨mac, point⟩ effect continuation rfl found advanced
    obtain ⟨rfl, rfl⟩ := only.calls id _ found
    simp only [quiet, found, advanced, Option.all_some, Bool.and_eq_true] at checked
    refine ⟨?_, fun _ _ other call there _ => (only.calls other call there).1, ?_⟩
    · rintro index old rfl entry
      simpa [entry] using checked.2
    · rintro index rfl
      simp only [Bool.and_eq_true, decide_eq_true_eq, bne_iff_ne] at checked
      obtain ⟨_, ⟨inside, evicted⟩, entry⟩ := checked
      refine ⟨inside, ?_⟩
      rintro (pending | ⟨mac, present⟩)
      · exact evicted pending
      · exact entry (only.entries mac index present ▸ present)

end Scenario

open Scenario

/-- Alice releases an address, and it stays with `FakeMac` while she gets another one. -/
theorem quarantined_after_release :
    ∃ server, (machine handler).Reaches (Orderly handler) start server ∧
      server.timers = [0] ∧ server.pool.mac 0 = some FakeMac ∧
      leaseOf server alice = (some (.ack 1), some 1) ∧
      server.Quarantined := by
  have replayed : ((machine handler).replay? quiet start
        (lease 0 alice 0 ++ release alice 0 true ++ lease 0 alice 1)).map
          (fun server => (server.timers, server.pool.mac 0, leaseOf server alice)) =
      some ([0], some FakeMac, some (.ack 1), some 1) := by decide
  rcases Option.map_eq_some_iff.mp replayed with ⟨server, run, view⟩
  simp only [Prod.mk.injEq] at view
  have reached := Machine.reaches_of_replay? OnlyAlice
    (fun _ _ only checked => orderly_of_quiet only checked)
    (fun _ _ _ only checked stepped => onlyAlice_step only checked stepped)
    ⟨by simp [start, initial], by simp [start, initial]⟩ run .refl
  exact ⟨server, reached, view.1, view.2.1, view.2.2,
    quarantined_of_orderly_run handler _ _ reached⟩

/-- The eviction callback runs last and takes the released index away from
`FakeMac` while its timer is pending. -/
theorem quarantine_lost_after_release :
    ¬ ∀ server, (machine handler).Reaches Machine.anyEvent start server →
      server.Quarantined := by
  intro quarantined
  have replayed : ((machine handler).replay? (fun _ _ => true) start
        (lease 0 alice 0 ++ release alice 0 false)).map
          (fun server => (server.timers, server.pool.mac 0)) =
      some ([0], none) := by decide
  rcases Option.map_eq_some_iff.mp replayed with ⟨server, run, view⟩
  obtain ⟨timers, unbound⟩ := Prod.mk.inj view
  have reached : (machine handler).Reaches Machine.anyEvent start server :=
    Machine.reaches_anyEvent_of_replay? run .refl
  have bound := (quarantined server reached).bound 0 (by simp [timers])
  simp [unbound] at bound

end PacketFence.Dhcp
