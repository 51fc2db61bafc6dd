import PacketFence.Dhcp.Reservation

/-!
# What backs a DHCPOFFER

A DISCOVER is followed while no other message is processed, next to the
goroutines that its own `hwcache.Delete` starts. It settles on a candidate that
it has found reserved or reserves, and probes it. A conflict deletes the cache
entry, whose goroutine frees the index sooner or later, and sends the call back
to `retry` with `free = 0`. So the offer is about index 0, which nobody reserved
for this client.
-/

namespace PacketFence.Dhcp

open Foundations Function DHCPPool

namespace DHCPPool

variable (pool : DHCPPool) (now : Int) (index : Nat)

@[simp]
theorem freeIPIndex_capacity : (pool.freeIPIndex now index).1.capacity = pool.capacity := by
  unfold freeIPIndex
  split
  · split <;> rfl
  · rfl

@[simp]
theorem mem_freeIPIndex_free {other : Nat} : other ∈ (pool.freeIPIndex now index).1.free ↔
    other ∈ pool.free ∨ other = index ∧ index < pool.capacity := by
  unfold freeIPIndex
  split
  next inside =>
    split
    next member =>
      refine ⟨.inl, ?_⟩
      rintro (there | ⟨rfl, _⟩)
      exacts [there, member]
    · simp [unassign, inside, or_comm]
  next outside => simp [outside]

end DHCPPool

def Point.probed : Point → Option Nat
  | .probe _ free => some free
  | _ => none

namespace Server

/-- The pool binds the index to the client, and no goroutine is about to free it. -/
def Holds (server : Server) (mac : Mac) (index : Nat) : Prop :=
  server.pool.mac index = some mac ∧ index ∉ server.evictions

instance (server : Server) (mac : Mac) (index : Nat) : Decidable (server.Holds mac index) := by
  unfold Holds
  infer_instance

/-- Nothing happens but the steps of one call and the goroutines it leaves behind. -/
def Alone (id : Nat) : Event → Prop
  | .advance other _ => other = id
  | .evicted _ | .tick _ => True
  | _ => False

instance (id : Nat) (event : Event) : Decidable (Alone id event) := by
  cases event <;> unfold Alone <;> infer_instance

/-- The condition on a step: a probe that finds somebody else is not one of
index 0, and index 0 is the client's. -/
def Unopposed (handler : DHCPHandler) (id : Nat) (server : Server) : Event → Prop
  | .advance other environment => other = id ∧
      ∀ call ∈ server.calls id, ∀ free ∈ call.point.probed,
        conflict handler environment call.mac = true → free ≠ 0 ∧ server.Holds call.mac 0
  | event => Alone id event

instance (handler : DHCPHandler) (id : Nat) (server : Server) (event : Event) :
    Decidable (Unopposed handler id server event) := by
  cases event <;> unfold Unopposed <;> infer_instance

/-- What is about to be freed is not in the pool. -/
def Outside (server : Server) : Prop :=
  ∀ index ∈ server.evictions, server.pool.capacity ≤ index

/-- What holds at each point of a DISCOVER for the client. -/
def Sound (server : Server) (mac : Mac) : Point → Prop
  | .search _ => server.evictions = [] ∧ ∀ index, server.pool.mac index ≠ some FreeMac
  | .checkCached _ cached => server.evictions = [] ∧ server.hwcache mac = some cached ∧
      ∀ index, server.pool.mac index ≠ some FreeMac
  | .dropCached _ cached => server.evictions = [] ∧ server.hwcache mac = some cached ∧
      (cached ∈ server.pool.free ∨ server.pool.capacity ≤ cached)
  -- the goroutine of the deleted entry finds an index that is free or none at all
  | .reserveCached _ cached => server.hwcache mac = none ∧
      (cached ∈ server.pool.free ∨ server.pool.capacity ≤ cached ∧ server.Outside)
  | .extendCached free => server.hwcache mac = none ∨ server.Holds mac free
  | .retry _ firstTry free => free = none ∧ server.Outside ∨
      firstTry = false ∧ ∃ index, free = some index ∧ server.Holds mac index
  | .checkRequested _ free | .reserveRequested _ free => free = none ∧ server.Outside
  | .pick _ => server.Outside
  | .lock _ free | .relock free | .reply free => server.Holds mac free
  | .probe _ free => server.Holds mac free ∧ server.hwcache mac = some free
  | .unlock _ free => server.Holds mac 0 ∧ server.hwcache mac = some free ∧ free ≠ 0
  | .quarantine _ _ => server.Holds mac 0
  | _ => False

variable {handler : DHCPHandler} {environment : Environment} {server next : Server} {mac : Mac}
  {point reached : Point} {effect : Effect} {index free id : Nat}

theorem not_mem_of_outside (outside : server.Outside) (inside : index < server.pool.capacity) :
    index ∉ server.evictions :=
  fun pending => absurd inside (Nat.not_lt.mpr (outside index pending))

theorem free_or_outside (unbound : ∀ index, server.pool.mac index ≠ some FreeMac)
    (read : (server.pool.getMACIndex index).2.1 = FreeMac) :
    index ∈ server.pool.free ∨ server.pool.capacity ≤ index := by
  by_contra neither
  rw [not_or, Nat.not_le] at neither
  obtain ⟨taken, inside⟩ := neither
  have bound := (server.pool.mac_isSome_iff index).mpr ⟨inside, taken⟩
  obtain ⟨holder, holds⟩ := Option.isSome_iff_exists.mp bound
  simp only [getMACIndex, indexInPool, inside, decide_true, if_true, taken,
    if_false, holds, Option.getD_some] at read
  exact unbound index (read ▸ holds)

theorem cacheDelete_of_entry (entry : server.hwcache mac = some index) :
    server.cacheDelete mac = { server with
      hwcache := update server.hwcache mac none, evictions := index :: server.evictions } := by
  simp [cacheDelete, entry]

theorem sound_step (real : mac ≠ FreeMac)
    (unopposed : ∀ free ∈ point.probed, conflict handler environment mac = true →
      free ≠ 0 ∧ server.Holds mac 0)
    (sound : server.Sound mac point)
    (advanced : advance? handler environment server mac point = some (effect, .goto reached)) :
    (effect.apply server mac).Sound mac reached := by
  cases point <;> simp only [advance?] at advanced <;> (repeat' split at advanced) <;>
    obtain ⟨rfl, rfl⟩ := advanced <;> simp only [Sound, Effect.apply] at sound ⊢
  -- the search in the cache
  case h_1 _ cached entry => exact ⟨sound.1, entry, sound.2⟩
  case h_2 => exact .inl ⟨trivial, by simp [Outside, sound.1]⟩
  case checkCached.isTrue cached own =>
    exact .inr ⟨server.pool.mac_of_getMACIndex own real, by simp [sound.1]⟩
  case checkCached.isFalse.isTrue _ read =>
    exact ⟨sound.1, sound.2.1, free_or_outside sound.2.2 read⟩
  case checkCached.isFalse.isFalse => exact .inl ⟨trivial, by simp [Outside, sound.1]⟩
  case dropCached =>
    obtain ⟨idle, entry, untaken⟩ := sound
    rw [cacheDelete_of_entry entry]
    refine ⟨update_self .., untaken.imp_right fun outside => ⟨outside, ?_⟩⟩
    simpa [Outside, idle] using outside
  case reserveCached.isTrue => exact .inl sound.1
  case reserveCached.isFalse cached refused =>
    have taken : cached ∉ server.pool.free := by
      intro member
      have accepted := (server.pool.reserveIPIndex_error_eq_none_iff cached mac).mpr member
      exact refused ⟨accepted, server.pool.reserveIPIndex_returned accepted⟩
    rw [server.pool.reserveIPIndex_of_not_mem mac taken]
    exact .inl ⟨trivial, (sound.2.resolve_left taken).2⟩
  case h_1 entry => exact sound.resolve_left (by simp [entry])
  -- the `retry` label
  case h_1 => simpa using sound
  case h_2 => simpa using sound
  case h_3 =>
    obtain ⟨absent, _⟩ | ⟨_, _, same, holds⟩ := sound
    · cases absent
    · cases same
      exact holds
  case checkRequested.isTrue ip _ own =>
    have bound := server.pool.mac_of_getMACIndex own.2 real
    exact ⟨bound, not_mem_of_outside sound.2 (server.pool.lt_capacity_of_mac bound)⟩
  case checkRequested.isFalse.isTrue => exact sound
  case checkRequested.isFalse.isFalse => exact .inl sound
  case reserveRequested.isTrue ip _ accepted =>
    have member := (server.pool.reserveIPIndex_error_eq_none_iff _ mac).mp accepted
    have kept := not_mem_of_outside sound.2 (server.pool.free_lt _ member)
    exact ⟨by simp [member], kept⟩
  case reserveRequested.isFalse ip _ refused =>
    rw [server.pool.reserveIPIndex_of_not_mem mac fun member => refused
      ((server.pool.reserveIPIndex_error_eq_none_iff _ mac).mpr member)]
    exact .inl sound
  case pick.isTrue.isTrue requested pickable accepted =>
    have assigned := server.pool.getFreeIPIndex_accepted accepted
    simp only [assigned, pickable, dif_pos]
    exact ⟨update_self .., not_mem_of_outside sound pickable.lt_capacity⟩
  case lock => exact ⟨sound, update_self ..⟩
  case probe.isTrue requested free found =>
    have other := unopposed free rfl found
    exact ⟨other.2, sound.2, other.1⟩
  case probe.isFalse => exact sound.1
  case unlock =>
    obtain ⟨⟨bound, kept⟩, entry, other⟩ := sound
    rw [cacheDelete_of_entry entry]
    exact ⟨bound, List.not_mem_cons_of_ne_of_not_mem other.symm kept⟩
  case quarantine =>
    exact .inr ⟨trivial, 0, rfl, server.pool.reserveIPIndex_mac_of_bound sound.1, sound.2⟩
  case relock => exact sound

/-- A goroutine of the call frees nothing that the call holds. -/
theorem sound_evicted {position : Nat} (pending : server.evictions[position]? = some index)
    (sound : server.Sound mac point) :
    { server.freeIPIndex index with evictions := server.evictions.eraseIdx position }.Sound
      mac point := by
  have busy : server.evictions ≠ [] := by
    rintro idle
    simp [idle] at pending
  set freed := { server.freeIPIndex index with evictions := server.evictions.eraseIdx position }
  have holds (other : Nat) (held : server.Holds mac other) : freed.Holds mac other := by
    refine ⟨?_, fun there => held.2 (List.mem_of_mem_eraseIdx there)⟩
    have distinct : other ≠ index := by
      rintro rfl
      exact held.2 (List.mem_of_getElem? pending)
    simpa [freed, update_of_ne distinct] using held.1
  have outside (nothing : server.Outside) : freed.Outside := by
    intro other there
    simpa [freed, freeIPIndex] using nothing other (List.mem_of_mem_eraseIdx there)
  cases point <;> simp only [Sound, freed] at sound holds outside ⊢ <;>
    grind [freeIPIndex, mem_freeIPIndex_free, freeIPIndex_capacity]

def Following (server : Server) (id : Nat) (mac : Mac) : Prop :=
  ∀ call ∈ server.calls id, call.mac = mac ∧ server.Sound mac call.point

theorem following_step {event : Event} (real : mac ≠ FreeMac) (following : server.Following id mac)
    (unopposed : Unopposed handler id server event)
    (stepped : step? handler server event = some next) : next.Following id mac := by
  intro call present
  cases Step.of_step? stepped with
  | receive | expire | timer => exact unopposed.elim
  | @advance other environment old effect continuation found advanced =>
    obtain ⟨rfl, unopposed⟩ := unopposed
    obtain ⟨rfl, sound⟩ := following old found
    obtain ⟨apart, _⟩ | ⟨_, same, rfl⟩ := calls_of_proceed present
    · exact absurd rfl apart
    · exact ⟨same, sound_step real (unopposed old found) sound advanced⟩
  | evicted pending =>
    obtain ⟨same, sound⟩ := following call present
    exact ⟨same, sound_evicted pending sound⟩
  | tick => exact following call present

variable {requested : Option UInt32}

/-- The goroutine may run after the quarantine and before the retry. -/
theorem exists_unbound_offer (probing : server.calls id = some ⟨mac, .probe requested free⟩)
    (entry : server.hwcache mac = some free) (bound : server.pool.mac free = some mac)
    (opposed : free ≠ 0 → ¬ server.Holds mac 0) :
    ∃ final, (machine handler).Reaches (fun _ => Alone id) server final ∧
      final.calls id = some ⟨mac, .reply 0⟩ ∧ final.pool.mac 0 ≠ some mac := by
  have inside := server.pool.lt_capacity_of_mac bound
  -- index 0 is freed if it can be, else the index that was probed
  obtain ⟨position, index, pending, within, unbound⟩ : ∃ position index,
      (free :: server.evictions)[position]? = some index ∧ index < server.pool.capacity ∧
        update server.pool.mac index none 0 ≠ some mac := by
    by_cases zero : 0 ∈ free :: server.evictions
    · obtain ⟨position, pending⟩ := List.mem_iff_getElem?.mp zero
      exact ⟨position, 0, pending, by omega, by simp⟩
    · rw [List.mem_cons, not_or] at zero
      refine ⟨0, free, rfl, inside, ?_⟩
      rw [update_of_ne zero.1]
      exact fun held => opposed (Ne.symm zero.1) ⟨held, zero.2⟩
  have refused := server.pool.reserveIPIndex_of_not_mem FakeMac
    (server.pool.not_mem_free_of_mac bound)
  have remaining : 0 < (server.pool.freeIPIndex server.clock index).1.freeIPsRemaining :=
    Finset.card_pos.mpr ⟨index, (server.pool.mem_freeIPIndex_free ..).mpr (.inr ⟨rfl, within⟩)⟩
  have run : ((machine handler).replay? (fun _ event => decide (Alone id event)) server
      [.advance id { pingreply := true }, .advance id {}, .advance id {}, .evicted position,
        .advance id {}, .advance id {}, .advance id {}, .advance id {}]).map
        (fun final => (final.calls id, final.pool.mac)) =
      some (some ⟨mac, .reply 0⟩, update server.pool.mac index none) := by
    simp [Machine.replay?, machine, step?, Alone, probing, advance?, conflict, inarp, proceed,
      Effect.apply, cacheDelete, entry, refused, pending, freeIPIndex, remaining, cacheSet]
    exact decide_eq_true trivial
  obtain ⟨final, replayed, view⟩ := Option.map_eq_some_iff.mp run
  obtain ⟨replies, pool⟩ := Prod.mk.inj view
  refine ⟨final, ?_, replies, pool ▸ unbound⟩
  exact Machine.reaches_of_checked (fun _ _ => of_decide_eq_true) replayed

end Server

open Server

/-- An unopposed run offers only what the pool binds to the client, and any
other probe can be followed by an offer of index 0 that it does not bind. -/
theorem offer_bound_of_unopposed_run (handler : DHCPHandler) {server first last : Server}
    {id : Nat} {mac : Mac} {requested : Option UInt32} (dynamic : handler.ipAssigned mac = none)
    (real : mac ≠ FreeMac) (unbound : ∀ index, server.pool.mac index ≠ some FreeMac)
    (idle : server.evictions = [])
    (received : step? handler server (.receive id mac (.discover requested)) = some first)
    (reached : (machine handler).Reaches (Unopposed handler id) first last) :
    (∀ index, last.calls id = some ⟨mac, .reply index⟩ → last.pool.mac index = some mac) ∧
      ∀ environment, ¬ Unopposed handler id last (.advance id environment) →
        ∃ final, (machine handler).Reaches (fun _ => Alone id) last final ∧
          final.calls id = some ⟨mac, .reply 0⟩ ∧ final.pool.mac 0 ≠ some mac := by
  have following : last.Following id mac := by
    refine reached.invariant ?_ fun _ _ _ => following_step real
    rintro ⟨_, point⟩ present
    cases Step.of_step? received
    obtain ⟨apart, _⟩ | ⟨_, same, begun⟩ := calls_of_proceed present
    · exact absurd rfl apart
    · rw [begin, dynamic] at begun
      cases begun
      exact ⟨same, by simpa [Sound, begin, dynamic] using ⟨idle, unbound⟩⟩
  refine ⟨fun index replies => (following _ replies).2.1, fun environment opposed => ?_⟩
  simp only [Unopposed, true_and, not_forall] at opposed
  obtain ⟨⟨_, point⟩, present, free, probing, _, other⟩ := opposed
  obtain ⟨rfl, sound⟩ := following _ present
  cases point <;> cases probing
  exact exists_unbound_offer present sound.2 sound.1.1 fun nonzero holds =>
    other ⟨nonzero, holds⟩

namespace Scenario

/-- Index 0 is reserved for one client. -/
def reserved (mac : Mac) : Server :=
  { start with pool := (start.pool.reserveIPIndex 0 mac).1 }

/-- A DISCOVER that is given index 1, which answers to ping. The goroutine of the
deleted cache entry runs before the quarantine. -/
def conflicting : List Event :=
  [.advance 0 {}, .advance 0 {}, .advance 0 { available := 1 }, .advance 0 {},
    .advance 0 { pingreply := true }, .advance 0 {}, .evicted 0, .advance 0 {}, .advance 0 {},
    .advance 0 {}, .advance 0 {}, .advance 0 {}]

theorem reserved_ne {mac : Mac} (real : mac ≠ FreeMac) (index : Nat) :
    (reserved mac).pool.mac index ≠ some FreeMac := by
  have bound : (reserved mac).pool.mac = update (fun _ => none) 0 (some mac) := by
    simp [reserved, start, initial, reserveIPIndex_mac, newDHCPPool]
  by_cases zero : index = 0 <;> simp [bound, zero, real]

end Scenario

open Scenario

/-- Bob is offered index 0, which the pool has reserved for Bob already. -/
theorem offer_backed_after_conflict :
    ∃ first last, step? handler (reserved bob) (.receive 0 bob (.discover none)) = some first ∧
      (machine handler).Reaches (Unopposed handler 0) first last ∧
      last.calls 0 = some ⟨bob, .reply 0⟩ ∧ last.pool.mac 0 = some bob := by
  let first := (reserved bob).proceed 0 bob (.goto (.search none))
  have run : ((machine handler).replay?
      (fun server event => decide (Unopposed handler 0 server event)) first conflicting).map
        (fun last => last.calls 0) = some (some ⟨bob, .reply 0⟩) := by decide
  obtain ⟨last, replayed, replies⟩ := Option.map_eq_some_iff.mp run
  have reached : (machine handler).Reaches (Unopposed handler 0) first last :=
    Machine.reaches_of_checked (fun _ _ => of_decide_eq_true) replayed
  have real : bob ≠ FreeMac := by decide
  exact ⟨first, last, rfl, reached, replies,
    (offer_bound_of_unopposed_run handler rfl real (reserved_ne real) rfl rfl reached).1 0 replies⟩

/-- Index 1 answers to ping, so Bob is offered index 0 although the pool binds
it to Alice. -/
theorem offer_not_bound_after_conflict :
    ¬ ∀ (handler : DHCPHandler) (server first last : Server) (id index : Nat) (mac : Mac)
      (requested : Option UInt32), handler.ipAssigned mac = none → mac ≠ FreeMac →
      (∀ index, server.pool.mac index ≠ some FreeMac) → server.evictions = [] →
      step? handler server (.receive id mac (.discover requested)) = some first →
      (machine handler).Reaches (fun _ => Alone id) first last →
      last.calls id = some ⟨mac, .reply index⟩ → last.pool.mac index = some mac := by
  intro always
  let first := (reserved alice).proceed 0 bob (.goto (.search none))
  have run : ((machine handler).replay? (fun _ event => decide (Alone 0 event)) first
      conflicting).map (fun last => (last.calls 0, last.pool.mac 0)) =
      some (some ⟨bob, .reply 0⟩, some alice) := by decide
  obtain ⟨last, replayed, view⟩ := Option.map_eq_some_iff.mp run
  obtain ⟨replies, bound⟩ := Prod.mk.inj view
  have reached : (machine handler).Reaches (fun _ => Alone 0) first last :=
    Machine.reaches_of_checked (fun _ _ => of_decide_eq_true) replayed
  have own := always handler (reserved alice) first last 0 0 bob none rfl (by decide)
    (reserved_ne (by decide)) rfl rfl reached replies
  rw [bound] at own
  exact absurd own (by decide)

end PacketFence.Dhcp
