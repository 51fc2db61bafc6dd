import PacketFence.Dhcp.Reservation

/-!
# Two clients on one lease

A lease is live while the last answer to its client was an ACK and the client's
cache entry still holds the acknowledged index. Three things in the source let
two clients share a live lease: every `FreeIPIndex` frees an index without
asking who holds it by then, the retry after a probe conflict goes on with
index 0, and `GetFreeIPIndex` may hand out a taken index. Runs that stay clear
of them keep the pool, the cache and the calls in agreement.
-/

namespace PacketFence.Dhcp

open Foundations

variable {server : Server} {event : Event}

namespace Server

/-- No two clients hold a live lease of one index. -/
def Exclusive (server : Server) : Prop :=
  ∀ first second index,
    server.lastAnswer first = some (.ack index) →
    server.hwcache first = some index →
    server.lastAnswer second = some (.ack index) →
    server.hwcache second = some index →
    first = second

def SparesCache (server : Server) (event : Event) : Prop :=
  ∀ index, server.frees? event = some index →
    ∀ mac, server.hwcache mac ≠ some index

/-- The condition on a step: nothing that a cache entry or a running call
relies on is freed, a pick takes a free index, and a retry goes on with an
index of its own. -/
structure Careful (handler : DHCPHandler) (server : Server) (event : Event) :
    Prop where
  notFree : NotFrom FreeMac event
  staticBound : StaticBound handler server event
  picksFree : server.PicksFree event
  retriesReserved : server.RetriesReserved event
  sparesCandidates : server.SparesCalls Point.candidate event
  sparesGranted : server.SparesCalls Point.granted event
  sparesCache : server.SparesCache event

/-- The pool binds every index that a cache entry or a running call relies on
to the client it is relied on for. -/
structure Coherent (server : Server) : Prop where
  real : server.Avoids FreeMac
  candidates : server.Binds Point.candidate
  granted : server.Binds Point.granted
  cached : ∀ mac index, server.hwcache mac = some index →
    server.pool.mac index = some mac

theorem Coherent.initial (pool : DHCPPool) (clock : Int) :
    (initial pool clock).Coherent where
  real := by
    intro id call present
    simp [Server.initial] at present
  candidates := by
    intro id call index present
    simp [Server.initial] at present
  granted := by
    intro id call index present
    simp [Server.initial] at present
  cached := by
    intro mac index present
    simp [Server.initial] at present

theorem Coherent.exclusive (coherent : server.Coherent) : server.Exclusive := by
  intro first second index _ firstEntry _ secondEntry
  have firstBound := coherent.cached first index firstEntry
  have secondBound := coherent.cached second index secondEntry
  rw [firstBound] at secondBound
  exact Option.some.inj secondBound

variable {handler : DHCPHandler} {next : Server} {mac : Mac} {index : Nat}

/-- A cache entry after a step was there before or has been set by a call that
relies on its index. -/
theorem step?_hwcache_cases
    (stepped : step? handler server event = some next) (entry : next.hwcache mac = some index) :
    server.hwcache mac = some index ∨
      ∃ id point, server.calls id = some ⟨mac, point⟩ ∧
        (point.candidate = some index ∨ point.granted = some index) := by
  cases Step.of_step? stepped with
  | receive => exact .inl (by simpa using entry)
  | @advance id environment call effect continuation found advanced =>
    rw [proceed_hwcache] at entry
    rcases Effect.apply_hwcache server call.mac entry with older | ⟨rfl, rfl⟩
    · exact .inl older
    · exact .inr ⟨id, call.point, found, advance?_origin advanced⟩
  | @expire expired =>
    rw [cacheDelete_hwcache] at entry
    by_cases same : mac = expired
    · simp [same] at entry
    · exact .inl (by simpa [Function.update_of_ne same] using entry)
  | evicted | timer | tick => exact .inl entry

variable (careful : Careful handler server event)

include careful

theorem binds_granted_step
    (stepped : step? handler server event = some next) (coherent : server.Coherent) :
    next.Binds Point.granted := by
  intro id call index present granted
  rcases step?_calls_cases stepped present with
    ⟨older, _⟩ | ⟨message, rfl, begun, pool⟩ |
      ⟨environment, point, effect, rfl, older, advanced, pool⟩
  · exact step?_pool_mac stepped careful.picksFree
      (fun frees => careful.sparesGranted index frees id call older granted)
      (coherent.granted id call index older granted)
  · rw [pool]
    exact careful.staticBound index (begin_relies begun (.inr granted))
  · rcases advance?_granted advanced granted with before | read
    · exact step?_pool_mac stepped careful.picksFree
        (fun frees => careful.sparesGranted index frees id _ older before)
        (coherent.granted id ⟨call.mac, point⟩ index older before)
    · exact step?_pool_mac stepped careful.picksFree
        (fun frees => careful.sparesCache index frees call.mac read)
        (coherent.cached call.mac index read)

theorem cached_step (stepped : step? handler server event = some next)
    (coherent : server.Coherent) (entry : next.hwcache mac = some index) :
    next.pool.mac index = some mac := by
  rcases step?_hwcache_cases stepped entry with
    older | ⟨id, point, present, candidate | granted⟩
  · exact step?_pool_mac stepped careful.picksFree
      (fun frees => careful.sparesCache index frees mac older)
      (coherent.cached mac index older)
  · exact step?_pool_mac stepped careful.picksFree
      (fun frees => careful.sparesCandidates index frees id _ present candidate)
      (coherent.candidates id ⟨mac, point⟩ index present candidate)
  · exact step?_pool_mac stepped careful.picksFree
      (fun frees => careful.sparesGranted index frees id _ present granted)
      (coherent.granted id ⟨mac, point⟩ index present granted)

theorem Coherent.step (stepped : step? handler server event = some next)
    (coherent : server.Coherent) : next.Coherent where
  real := avoids_step stepped careful.notFree coherent.real
  candidates := binds_candidate_step stepped careful.staticBound careful.picksFree
    careful.retriesReserved careful.sparesCandidates coherent.real
    coherent.candidates
  granted := binds_granted_step careful stepped coherent
  cached := fun _ _ entry => cached_step careful stepped coherent entry

end Server

open Server

theorem coherent_of_careful_run (handler : DHCPHandler) (pool : DHCPPool)
    (clock : Int) (reached : (machine handler).Reaches (Careful handler)
      (initial pool clock) server) : server.Coherent :=
  reached.invariant (Coherent.initial pool clock)
    fun _ _ _ coherent careful stepped => coherent.step careful stepped

/-- In every run of careful steps two clients never share a live lease. -/
theorem exclusive_of_careful_run (handler : DHCPHandler) (pool : DHCPPool)
    (clock : Int) {server : Server} (reached : (machine handler).Reaches (Careful handler)
      (initial pool clock) server) :
    server.Exclusive := (coherent_of_careful_run handler pool clock reached).exclusive

namespace Scenario

/-- A DISCOVER whose first address answers to ping, and the REQUEST for the
address it is offered then. -/
def leaseAfterConflict (id : Nat) (mac : Mac) (index : Nat) : List Event :=
  [.receive id mac (.discover none), .advance id {}, .advance id {},
    .advance id { available := index }, .advance id {},
    .advance id { pingreply := true }, .advance id {}, .advance id {},
    .advance id {}, .advance id {}, .advance id {}, .advance id {}, .advance id {},
    .receive id mac (.request handler.start),
    .advance id {}, .advance id {}, .advance id {}, .advance id {},
    .advance id {}]

/-- A decidable condition that is enough for a careful step: nothing is freed
and no retry comes back with an index in hand. -/
def calm (server : Server) : Event → Bool
  | .receive _ mac _ => mac != FreeMac
  | .advance id environment =>
    match server.calls id with
    | some ⟨_, .pick _⟩ => decide (environment.available ∈ server.pool.free)
    | some ⟨_, .retry _ _ (some _)⟩ | some ⟨_, .giveBack _⟩ => false
    | _ => true
  | .expire _ | .tick _ => true
  | .evicted _ | .timer _ => false

theorem frees?_of_calm (checked : calm server event = true) : server.frees? event = none := by
  cases event with
  | advance id environment =>
    simp only [frees?]
    split
    next found => simp [calm, found] at checked
    · rfl
  | evicted | timer => simp [calm] at checked
  | receive | expire | tick => rfl

theorem careful_of_calm (checked : calm server event = true) : Careful handler server event where
  notFree := by
    cases event with
    | receive id mac message => simpa [calm, NotFrom] using checked
    | _ => trivial
  staticBound := by
    cases event with
    | receive id mac message =>
      intro position assigned
      simp [handler] at assigned
    | _ => trivial
  picksFree := by
    cases event with
    | advance id environment =>
      rintro ⟨mac, _⟩ requested found rfl
      simpa [calm, found] using checked
    | _ => trivial
  retriesReserved := by
    cases event with
    | advance id environment =>
      rintro ⟨mac, _⟩ requested firstTry free found rfl
      simp [calm, found] at checked
    | _ => trivial
  sparesCandidates := by
    intro index frees
    simp [frees?_of_calm checked] at frees
  sparesGranted := by
    intro index frees
    simp [frees?_of_calm checked] at frees
  sparesCache := by
    intro index frees
    simp [frees?_of_calm checked] at frees

end Scenario

open Scenario

/-- Alice and Bob lease two addresses without any interference. -/
theorem exclusive_after_two_leases :
    ∃ server, (machine handler).Reaches (Careful handler) start server ∧
      leaseOf server alice = (some (.ack 0), some 0) ∧
      leaseOf server bob = (some (.ack 1), some 1) ∧
      server.Exclusive := by
  have replayed : ((machine handler).replay? calm start (lease 0 alice 0 ++ lease 1 bob 1)).map
          (fun server => (leaseOf server alice, leaseOf server bob)) =
      some ((some (.ack 0), some 0), (some (.ack 1), some 1)) := by decide
  rcases Option.map_eq_some_iff.mp replayed with ⟨server, run, leases⟩
  have reached := Machine.reaches_of_checked (fun _ _ => careful_of_calm) run
  exact ⟨server, reached, congrArg Prod.fst leases, congrArg Prod.snd leases,
    exclusive_of_careful_run handler _ _ reached⟩

/-- Bob's probe finds somebody on index 1, and the retry offers him index 0,
which Alice holds. -/
theorem shared_lease_after_conflict :
    ¬ ∀ server, (machine handler).Reaches Machine.anyEvent start server →
      server.Exclusive := by
  intro exclusive
  have replayed : ((machine handler).replay? (fun _ _ => true) start
        (lease 0 alice 0 ++ leaseAfterConflict 1 bob 1)).map
          (fun server => (leaseOf server alice, leaseOf server bob)) =
      some ((some (.ack 0), some 0), (some (.ack 0), some 0)) := by decide
  rcases Option.map_eq_some_iff.mp replayed with ⟨server, run, leases⟩
  have reached : (machine handler).Reaches Machine.anyEvent start server :=
    Machine.reaches_anyEvent_of_replay? run .refl
  simp only [leaseOf, Prod.mk.injEq] at leases
  obtain ⟨⟨aliceAnswer, aliceEntry⟩, bobAnswer, bobEntry⟩ := leases
  have same := exclusive server reached alice bob 0 aliceAnswer aliceEntry bobAnswer bobEntry
  exact absurd same (by decide)

end PacketFence.Dhcp
