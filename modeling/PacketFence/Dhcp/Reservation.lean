import PacketFence.Dhcp.Server

/-!
# Which index a call relies on, and when the pool still binds it

A DISCOVER relies on its candidate, a REQUEST on the index it found in the
cache. The step lemmas below say once how a step can change the pool, the
cache and the points of the calls; the invariants of the server are derived
from them.
-/

namespace PacketFence.Dhcp

open Foundations Function Point

def Point.candidate : Point → Option Nat
  | .extendCached free | .lock _ free | .probe _ free | .relock free
  | .reply free => some free
  | _ => none

def Point.granted : Point → Option Nat
  | .transact index | .grant index | .record index | .confirm index => some index
  | _ => none

namespace Server

variable (server : Server) (mac : Mac)

@[simp]
theorem cacheDelete_pool : (server.cacheDelete mac).pool = server.pool := by
  unfold cacheDelete
  split <;> rfl

@[simp]
theorem cacheDelete_calls : (server.cacheDelete mac).calls = server.calls := by
  unfold cacheDelete
  split <;> rfl

@[simp]
theorem cacheDelete_timers : (server.cacheDelete mac).timers = server.timers := by
  unfold cacheDelete
  split <;> rfl

@[simp] theorem cacheDelete_hwcache :
    (server.cacheDelete mac).hwcache = Function.update server.hwcache mac none := by
  unfold cacheDelete
  split
  next missing => simp [missing]
  · rfl

@[simp]
theorem freeIPIndex_pool_mac (index : Nat) :
    (server.freeIPIndex index).pool.mac =
      Function.update server.pool.mac index none := by simp [freeIPIndex]

variable (id : Nat)

@[simp]
theorem proceed_pool (next : Next) :
    (server.proceed id mac next).pool = server.pool := by cases next <;> rfl

@[simp]
theorem proceed_hwcache (next : Next) :
    (server.proceed id mac next).hwcache = server.hwcache := by cases next <;> rfl

@[simp]
theorem proceed_timers (next : Next) :
    (server.proceed id mac next).timers = server.timers := by cases next <;> rfl

variable {server mac id}

theorem calls_of_proceed {next : Next} {other : Nat} {call : Call}
    (present : (server.proceed id mac next).calls other = some call) :
    other ≠ id ∧ server.calls other = some call ∨
      other = id ∧ call.mac = mac ∧ next = .goto call.point := by
  by_cases same : other = id
  · subst same
    cases next <;> simp_all [proceed]
    rw [← present]
    exact ⟨rfl, rfl⟩
  · cases next <;> exact .inl ⟨same, by simpa [proceed, update_of_ne same] using present⟩

end Server

variable {index : Nat} {holder : Mac} {effect : Effect} {handler : DHCPHandler}

namespace Effect

variable (server : Server) (mac : Mac)

@[simp]
theorem apply_calls (effect : Effect) : (effect.apply server mac).calls = server.calls := by
  cases effect with
  | take index =>
    simp only [apply]
    split <;> rfl
  | cacheDelete => simp [apply]
  | _ => rfl

theorem apply_pool_mac (kept : ∀ freed, effect = .free freed → freed ≠ index)
    (picksFree : ∀ taken, effect = .take taken → taken ∈ server.pool.free)
    (bound : server.pool.mac index = some holder) :
    (effect.apply server mac).pool.mac index = some holder := by
  cases effect with
  | read | cacheSet => exact bound
  | cacheDelete => simpa [apply] using bound
  | reserve | setAside => exact server.pool.reserveIPIndex_mac_of_bound bound
  | free freed =>
    have distinct := kept freed rfl
    simp [apply, update_of_ne distinct.symm, bound]
  | take taken =>
    have distinct : index ≠ taken := by
      rintro rfl
      exact server.pool.not_mem_free_of_mac bound (picksFree index rfl)
    simp only [apply]
    split
    next pickable =>
      unfold DHCPPool.getFreeIPIndex
      split
      · exact bound
      · simp [update_of_ne distinct, bound]
    · exact bound

theorem apply_hwcache {other : Mac} (entry : (effect.apply server mac).hwcache other = some index) :
    server.hwcache other = some index ∨ other = mac ∧ effect = .cacheSet index := by
  cases effect with
  | cacheSet set =>
    by_cases same : other = mac
    · subst other
      simp only [apply, Server.cacheSet, update_self, Option.some.injEq] at entry
      exact .inr ⟨rfl, by rw [entry]⟩
    · left
      simpa [apply, Server.cacheSet, update_of_ne same] using entry
  | cacheDelete =>
    rw [apply, Server.cacheDelete_hwcache] at entry
    by_cases same : other = mac
    · simp [same] at entry
    · simpa [update_of_ne same] using entry
  | take taken =>
    left
    simp only [apply] at entry
    split at entry <;> exact entry
  | read | reserve | free | setAside => exact .inl entry

theorem apply_timers (effect : Effect) :
    (effect.apply server mac).timers = server.timers ∨
      ∃ index, effect = .setAside index ∧
        (effect.apply server mac).timers = index :: server.timers := by
  cases effect with
  | setAside index => exact .inr ⟨index, rfl, rfl⟩
  | take taken =>
    left
    simp only [apply]
    split <;> rfl
  | cacheDelete => exact .inl (by simp [apply])
  | _ => exact .inl rfl

end Effect

variable {environment : Environment} {server : Server} {mac : Mac} {point : Point} {next : Next}

/-- Where each effect of a step comes from. -/
def Effect.Origin (environment : Environment) (point : Point) : Effect → Prop
  | .cacheSet index => point.candidate = some index ∨ point.granted = some index
  | .take index =>
    (∃ requested, point = .pick requested) ∧ index = environment.available
  | .free index => point = .giveBack index
  | .setAside index =>
    (∃ requested, point = .quarantine requested index) ∨ point = .setAside index
  | _ => True

theorem advance?_origin (advanced : advance? handler environment server mac point =
      some (effect, next)) : effect.Origin environment point := by
  cases point <;> simp only [advance?] at advanced <;>
    (repeat' split at advanced) <;>
    obtain ⟨rfl, _⟩ := advanced <;>
    simp [Effect.Origin, candidate, granted]

theorem advance?_granted {reached : Point}
    (advanced : advance? handler environment server mac point = some (effect, .goto reached))
    (granted : reached.granted = some index) :
    point.granted = some index ∨ server.hwcache mac = some index := by
  cases point <;> simp only [advance?] at advanced <;>
    (repeat' split at advanced) <;>
    obtain ⟨_, rfl⟩ := advanced <;>
    simp_all [Point.granted]

/-- How a DISCOVER comes to rely on an index: it relied on it before, the pool
binds it now, or the retry after a conflict goes on with a leftover. -/
theorem advance?_candidate {reached : Point}
    (advanced : advance? handler environment server mac point = some (effect, .goto reached))
    (real : mac ≠ FreeMac) (candidate : reached.candidate = some index) :
    point.candidate = some index ∨
      (effect.apply server mac).pool.mac index = some mac ∨
      (effect = .read ∧ 0 < server.pool.freeIPsRemaining ∧
        ∃ requested firstTry, point = .retry requested firstTry (some index)) := by
  cases point <;> simp only [advance?] at advanced <;>
    (repeat' split at advanced) <;>
    obtain ⟨rfl, rfl⟩ := advanced <;>
    simp only [Point.candidate, Option.some.injEq, reduceCtorEq] at candidate <;>
    subst candidate
  case checkCached cached _ read => exact .inr (.inl (server.pool.mac_of_getMACIndex read real))
  case reserveCached cached reserved =>
    have member := (server.pool.reserveIPIndex_error_eq_none_iff cached mac).mp reserved.1
    simp [Effect.apply, member]
  case h_3 => exact .inr (.inr ⟨rfl, by assumption, _, _, rfl⟩)
  case checkRequested read => exact .inr (.inl (server.pool.mac_of_getMACIndex read.2 real))
  case reserveRequested ip _ reserved =>
    have member := (server.pool.reserveIPIndex_error_eq_none_iff
      (ip - handler.start).toNat mac).mp reserved
    simp [Effect.apply, member]
  case pick pickable accepted =>
    simp [Effect.apply, pickable, server.pool.getFreeIPIndex_accepted accepted]
  all_goals exact .inl rfl

theorem begin_relies {mac : Mac} {message : Message}
    {point : Point} (begun : begin handler mac message = .goto point)
    (relies : point.candidate = some index ∨ point.granted = some index) :
    handler.ipAssigned mac = some index := by
  cases message <;> simp only [begin] at begun <;>
    (repeat' split at begun) <;>
    simp only [Next.goto.injEq, reduceCtorEq] at begun <;>
    subst begun <;>
    simp_all [candidate, granted]

namespace Server

def frees? (server : Server) : Event → Option Nat
  | .advance id _ =>
    match server.calls id with
    | some ⟨_, .giveBack leaseNum⟩ => some leaseNum
    | _ => none
  | .evicted position => server.evictions[position]?
  | .timer position => server.timers[position]?
  | _ => none

def NotFrom (name : Mac) : Event → Prop
  | .receive _ mac _ => mac ≠ name
  | _ => True

def StaticBound (handler : DHCPHandler) (server : Server) : Event → Prop
  | .receive _ mac _ =>
    ∀ position, handler.ipAssigned mac = some position →
      server.pool.mac position = some mac
  | _ => True

def PicksFree (server : Server) : Event → Prop
  | .advance id environment =>
    ∀ call requested, server.calls id = some call →
      call.point = .pick requested →
      environment.available ∈ server.pool.free
  | _ => True

/-- A DISCOVER that comes back to `retry` with an index in hand goes on only
if the pool binds that index to its client. -/
def RetriesReserved (server : Server) : Event → Prop
  | .advance id _ =>
    ∀ call requested firstTry free, server.calls id = some call →
      call.point = .retry requested firstTry (some free) →
      0 < server.pool.freeIPsRemaining →
      server.pool.mac free = some call.mac
  | _ => True

def Avoids (name : Mac) (server : Server) : Prop :=
  ∀ id call, server.calls id = some call → call.mac ≠ name

def Binds (select : Point → Option Nat) (server : Server) : Prop :=
  ∀ id call index, server.calls id = some call →
    select call.point = some index → server.pool.mac index = some call.mac

def SparesCalls (select : Point → Option Nat) (server : Server)
    (event : Event) : Prop :=
  ∀ index, server.frees? event = some index →
    ∀ id call, server.calls id = some call → select call.point ≠ some index

section Step

variable {server next : Server} {event : Event}

inductive Step (handler : DHCPHandler) (server : Server) : Event → Server → Prop where
  | receive {id : Nat} {mac : Mac} {message : Message} :
      server.calls id = none →
      Step handler server (.receive id mac message)
        (server.proceed id mac (begin handler mac message))
  | advance {id : Nat} {environment : Environment} {call : Call}
      {effect : Effect} {continuation : Next} :
      server.calls id = some call →
      advance? handler environment server call.mac call.point =
        some (effect, continuation) →
      Step handler server (.advance id environment)
        ((effect.apply server call.mac).proceed id call.mac continuation)
  | expire {mac : Mac} {index : Nat} :
      server.hwcache mac = some index →
      Step handler server (.expire mac) (server.cacheDelete mac)
  | evicted {position index : Nat} :
      server.evictions[position]? = some index →
      Step handler server (.evicted position)
        { server.freeIPIndex index with
          evictions := server.evictions.eraseIdx position }
  | timer {position index : Nat} :
      server.timers[position]? = some index →
      Step handler server (.timer position)
        { server.freeIPIndex index with
          timers := server.timers.eraseIdx position }
  | tick {elapsed : Nat} :
      Step handler server (.tick elapsed)
        { server with clock := server.clock + elapsed }

variable (stepped : step? handler server event = some next)

include stepped

theorem Step.of_step? : Step handler server event next := by
  cases event with
  | tick elapsed =>
    cases stepped
    exact .tick
  | advance id environment =>
    simp only [step?] at stepped
    split at stepped
    · cases stepped
    next call found =>
      rcases Option.map_eq_some_iff.mp stepped with ⟨result, advanced, rfl⟩
      exact .advance found advanced
  | receive | expire | evicted | timer =>
    simp only [step?] at stepped
    split at stepped
    · cases stepped
    next found =>
      cases stepped
      constructor
      exact found

theorem step?_calls_cases {id : Nat} {call : Call} (present : next.calls id = some call) :
    server.calls id = some call ∧ (∀ environment, event ≠ .advance id environment) ∨
      (∃ message, event = .receive id call.mac message ∧
        begin handler call.mac message = .goto call.point ∧
        next.pool = server.pool) ∨
      ∃ environment point effect, event = .advance id environment ∧
        server.calls id = some ⟨call.mac, point⟩ ∧
        advance? handler environment server call.mac point = some (effect, .goto call.point) ∧
        next.pool = (effect.apply server call.mac).pool := by
  cases Step.of_step? stepped with
  | @receive other mac message idle =>
    obtain ⟨_, older⟩ | ⟨rfl, rfl, begun⟩ := calls_of_proceed present
    · exact .inl ⟨older, nofun⟩
    · exact .inr (.inl ⟨message, rfl, begun, by simp⟩)
  | @advance other environment old effect continuation found advanced =>
    obtain ⟨apart, older⟩ | ⟨rfl, same, rfl⟩ := calls_of_proceed present
    · rw [Effect.apply_calls] at older
      exact .inl ⟨older, fun _ own => by cases own; exact apart rfl⟩
    · rw [same]
      exact .inr (.inr ⟨environment, old.point, effect, rfl, found, advanced, by simp⟩)
  | expire => exact .inl ⟨by simpa using present, nofun⟩
  | evicted | timer | tick => exact .inl ⟨present, nofun⟩

theorem step?_pool_mac (picksFree : server.PicksFree event)
    (kept : server.frees? event ≠ some index) (bound : server.pool.mac index = some holder) :
    next.pool.mac index = some holder := by
  cases Step.of_step? stepped with
  | receive => simpa using bound
  | @advance id environment call effect continuation found advanced =>
    have origin := advance?_origin advanced
    rw [proceed_pool]
    refine Effect.apply_pool_mac server call.mac ?_ ?_ bound
    · rintro freed rfl same
      have point : call.point = .giveBack freed := origin
      have frees : server.frees? (.advance id environment) = some freed := by
        obtain ⟨mac, _⟩ := call
        subst point
        simp [frees?, found]
      exact kept (same ▸ frees)
    · rintro taken rfl
      obtain ⟨⟨requested, point⟩, rfl⟩ := origin
      exact picksFree call requested found point
  | expire => simpa using bound
  | @evicted position freed found | @timer position freed found =>
    have distinct : index ≠ freed := by
      rintro rfl
      exact kept found
    simp [update_of_ne distinct, bound]
  | tick => exact bound

theorem avoids_step {name : Mac}
    (notFrom : NotFrom name event) (avoids : server.Avoids name) : next.Avoids name := by
  intro id call present
  rcases step?_calls_cases stepped present with
    ⟨older, _⟩ | ⟨message, rfl, _⟩ | ⟨environment, point, effect, _, older, _⟩
  · exact avoids id call older
  · exact notFrom
  · exact avoids id ⟨call.mac, point⟩ older

theorem binds_candidate_step
    (staticBound : StaticBound handler server event) (picksFree : server.PicksFree event)
    (retriesReserved : server.RetriesReserved event)
    (spares : server.SparesCalls candidate event)
    (real : server.Avoids FreeMac) (binds : server.Binds candidate) :
    next.Binds candidate := by
  intro id call index present candidate
  rcases step?_calls_cases stepped present with
    ⟨older, _⟩ | ⟨message, rfl, begun, pool⟩ |
      ⟨environment, point, effect, rfl, older, advanced, pool⟩
  · exact step?_pool_mac stepped picksFree
      (fun frees => spares index frees id call older candidate)
      (binds id call index older candidate)
  · rw [pool]
    exact staticBound index (begin_relies begun (.inl candidate))
  · rcases advance?_candidate advanced (real id ⟨call.mac, point⟩ older) candidate with
      before | now | ⟨rfl, remaining, requested, firstTry, rfl⟩
    · exact step?_pool_mac stepped picksFree
        (fun frees => spares index frees id _ older before)
        (binds id ⟨call.mac, point⟩ index older before)
    · rw [pool]
      exact now
    · rw [pool]
      exact retriesReserved ⟨call.mac, .retry requested firstTry (some index)⟩
        requested firstTry index older rfl remaining

end Step

end Server

end PacketFence.Dhcp
