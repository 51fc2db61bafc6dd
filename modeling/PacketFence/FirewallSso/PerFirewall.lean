import Mathlib.Algebra.Order.Ring.Int
import Mathlib.Data.List.Nodup
import PacketFence.FirewallSso.Handler

/-!
# Each firewall for itself

Whether a start is still cached for a firewall is said here by its own timeout
and the requests alone. The shared cache agrees with that as long as no other
firewall with cached updates drops an entry, no start that is due for another
firewall is passed on, and the keys are told apart by their parts.
-/

namespace PacketFence.FirewallSso

open Foundations Lexing List ExpiringCache Server

/-- A start for the same data was sent to the firewall within its timeout; no update
of the device with other data and no stop of the address came since. An update sends
a start if none is cached. -/
def stillCached (firewall : Firewall) : List Past → Int → Info → Bool
  | [], _, _ => false
  | .stop ip :: earlier, now, info => ip ≠ info.ip && stillCached firewall earlier now info
  | .update time other timeout :: earlier, now, info =>
    if other = info then
      stillCached firewall earlier now info ||
        (!stillCached firewall earlier time info && 0 < cacheTimeout firewall timeout &&
          now ≤ time + cacheTimeout firewall timeout * second)
    else
      other.mac ≠ info.mac && stillCached firewall earlier now info

def seen : List Past → List Info
  | [] => []
  | .stop _ :: earlier => seen earlier
  | .update _ info _ :: earlier => info :: seen earlier

variable {other : Firewall} {firewall : Firewall} {info : Info} {firewalls : Firewalls}
  {now timeout later : Int} {ip : Text} {server : Server} {before after order : List Firewall}

theorem contains_macPart : contains (cacheKey firewall info) (macPart info.mac) = true := by
  refine decide_eq_true ⟨firewall.id, "|ip|".toList ++ info.ip ++ "|username|".toList ++
    info.username ++ "|role|".toList ++ info.role, ?_⟩
  delta cacheKey macPart
  simp

theorem contains_ipPart : contains (cacheKey firewall info) (ipPart info.ip) = true := by
  refine decide_eq_true ⟨firewall.id ++ "|mac|".toList ++ info.mac, "username|".toList ++
    info.username ++ "|role|".toList ++ info.role, ?_⟩
  have bar : "|username|".toList = "|".toList ++ "username|".toList := by decide
  delta cacheKey ipPart
  simp [bar]

theorem id_of_cacheKey (same : cacheKey firewall info = cacheKey other info) :
    firewall.id = other.id := by
  simp only [cacheKey, append_assoc] at same
  exact append_cancel_right same

theorem Firewalls.eq_of_id {first second : Firewall}
    (firstMember : first ∈ firewalls.all) (secondMember : second ∈ firewalls.all)
    (same : first.id = second.id) : first = second :=
  inj_on_of_nodup_map firewalls.distinct firstMember secondMember same

variable {history : List Past}

theorem stillCached_update_iff {time : Int} {other : Info} (different : other ≠ info) :
    stillCached firewall (.update time other timeout :: history) now info = true ↔
      other.mac ≠ info.mac ∧ stillCached firewall history now info = true := by
  rw [stillCached, if_neg different, Bool.and_eq_true, decide_eq_true_eq]

@[simp] theorem stillCached_stop_iff : stillCached firewall (.stop ip :: history) now info = true ↔
      ip ≠ info.ip ∧ stillCached firewall history now info = true := by
  rw [stillCached, Bool.and_eq_true, decide_eq_true_eq]

theorem seen_of_stillCached
    (cached : stillCached firewall history now info = true) : info ∈ seen history := by
  induction history generalizing now with
  | nil => cases cached
  | cons past earlier ih =>
    cases past with
    | stop ip => exact ih (stillCached_stop_iff.mp cached).2
    | update time other timeout =>
      by_cases same : other = info
      · rw [same]
        exact mem_cons_self
      · apply mem_cons_of_mem
        exact ih ((stillCached_update_iff same).mp cached).2

variable {loop : Loop} {key : Text}

theorem get_prune (ordered : now ≤ later) (cache : Cache) :
    (prune now info cache firewall).get later key = (cache.get later key &&
        !decide (key ≠ cacheKey firewall info ∧ contains key (macPart info.mac) = true)) :=
  get_deleteItems ordered _

theorem get_prune_self (ordered : now ≤ later) (cache : Cache) :
    (prune now info cache firewall).get later (cacheKey firewall info) =
      cache.get later (cacheKey firewall info) := by
  rw [get_prune ordered, decide_eq_false (fun other => other.1 rfl), Bool.not_false, Bool.and_true]

theorem visit_of_not_cached (plain : firewall.shouldCacheUpdates = false) :
    visit now info timeout loop firewall =
      ⟨loop.cache, true, loop.started ++ [firewall.id]⟩ := by simp [visit, plain]

theorem cache_visit (cached : firewall.shouldCacheUpdates = true) :
    (visit now info timeout loop firewall).cache =
      (lookup now info timeout loop.cache firewall).1 := by simp [visit, cached]

theorem shouldStart_visit (cached : firewall.shouldCacheUpdates = true) :
    (visit now info timeout loop firewall).shouldStart =
      (loop.shouldStart || !loop.cache.get now (cacheKey firewall info)) := by
  have found : (lookup now info timeout loop.cache firewall).2 =
      loop.cache.get now (cacheKey firewall info) := by
    unfold lookup
    dsimp only
    rw [get_prune_self le_rfl]
    split
    next found => exact found.symm
    next missing => split <;> exact (Bool.eq_false_iff.mpr missing).symm
  simp [visit, cached, found]

theorem mem_started_visit {id : Text} :
    id ∈ (visit now info timeout loop firewall).started ↔
      id ∈ loop.started ∨
        ((visit now info timeout loop firewall).shouldStart = true ∧ id = firewall.id) := by
  have added : (visit now info timeout loop firewall).started =
      if (visit now info timeout loop firewall).shouldStart then loop.started ++ [firewall.id]
      else loop.started := rfl
  rw [added]
  split
  next due => simp [due]
  next idle => simp [idle]

theorem get_visit_of_ne (ordered : now ≤ later)
    (other : firewall.shouldCacheUpdates = true → key ≠ cacheKey firewall info) :
    (visit now info timeout loop firewall).cache.get later key = (loop.cache.get later key &&
        !(firewall.shouldCacheUpdates && contains key (macPart info.mac))) := by
  cases cached : firewall.shouldCacheUpdates with
  | false => rw [visit_of_not_cached cached, Bool.false_and, Bool.not_false, Bool.and_true]
  | true =>
    have different := other cached
    have pruned : (prune now info loop.cache firewall).get later key =
        (loop.cache.get later key && !contains key (macPart info.mac)) := by
      rw [get_prune ordered]
      simp [different]
    rw [cache_visit cached, Bool.true_and]
    unfold lookup
    dsimp only
    split
    · exact pruned
    · split
      · rw [get_set_of_ne different, pruned]
      · exact pruned

theorem get_visit_self (ordered : now ≤ later) (cached : firewall.shouldCacheUpdates = true)
    (nonneg : loop.cache.get now (cacheKey firewall info) = false →
      0 ≤ cacheTimeout firewall timeout) :
    (visit now info timeout loop firewall).cache.get later (cacheKey firewall info) =
      (loop.cache.get later (cacheKey firewall info) ||
        (!loop.cache.get now (cacheKey firewall info) && 0 < cacheTimeout firewall timeout &&
          later ≤ now + cacheTimeout firewall timeout * second)) := by
  rw [cache_visit cached]
  unfold lookup
  dsimp only
  rw [get_prune_self le_rfl]
  cases found : loop.cache.get now (cacheKey firewall info) with
  | true =>
    rw [if_pos rfl, get_prune_self ordered]
    simp
  | false =>
    have expired : loop.cache.get later (cacheKey firewall info) = false := by
      rw [Bool.eq_false_iff]
      intro kept
      rw [get_of_get_later ordered kept] at found
      cases found
    rw [if_neg Bool.false_ne_true, expired]
    by_cases zero : cacheTimeout firewall timeout = 0
    · rw [if_neg (not_not.mpr zero), get_prune_self ordered, expired, zero]
      simp
    · have positive : 0 < cacheTimeout firewall timeout :=
        lt_of_le_of_ne (nonneg found) (Ne.symm zero)
      rw [if_pos zero, get_set_self (mul_pos positive (by decide))]
      simp [positive]

variable {list : List Firewall}

/-- A key that no firewall of the list has for its own is dropped if it is one of the
device and the list has a firewall with cached updates. -/
theorem get_foldl_of_ne (ordered : now ≤ later)
    (other : ∀ firewall ∈ list, firewall.shouldCacheUpdates = true →
      key ≠ cacheKey firewall info) :
    (list.foldl (visit now info timeout) loop).cache.get later key = (loop.cache.get later key &&
        !(list.any (·.shouldCacheUpdates) && contains key (macPart info.mac))) := by
  induction list generalizing loop with
  | nil => simp
  | cons firewall rest ih =>
    rw [foldl_cons, ih (fun next member =>
      other next (mem_cons_of_mem _ member)),
      get_visit_of_ne ordered (other firewall mem_cons_self), any_cons]
    cases firewall.shouldCacheUpdates <;> cases contains key (macPart info.mac) <;> simp

theorem cache_foldl_of_not_cached (plain : ∀ firewall ∈ list, firewall.shouldCacheUpdates = false) :
    (list.foldl (visit now info timeout) loop).cache = loop.cache := by
  induction list generalizing loop with
  | nil => rfl
  | cons firewall rest ih =>
    rw [foldl_cons, ih (fun next member =>
      plain next (mem_cons_of_mem _ member)),
      visit_of_not_cached (plain firewall mem_cons_self)]

theorem mem_started_foldl_of_ne {id : Text} (other : id ∉ list.map (·.id)) :
    id ∈ (list.foldl (visit now info timeout) loop).started ↔ id ∈ loop.started := by
  induction list generalizing loop with
  | nil => rfl
  | cons firewall rest ih =>
    rw [map_cons, mem_cons, not_or] at other
    rw [foldl_cons, ih other.2, mem_started_visit]
    simp [other.1]

/-! ### The condition on the steps -/

/-- The entries of the past are told apart from those of a request by their device and
their key. -/
structure Distinguished (firewalls : Firewalls) (history : List Past) (info : Info) : Prop where
  mac : ∀ firewall ∈ firewalls.all, firewall.shouldCacheUpdates = true →
    ∀ past ∈ seen history,
      contains (cacheKey firewall past) (macPart info.mac) = true → past.mac = info.mac
  key : ∀ firewall ∈ firewalls.all, ∀ other ∈ firewalls.all, ∀ past ∈ seen history,
    cacheKey firewall info = cacheKey other past → info = past

structure Undisturbed (server : Server) (info : Info) (timeout : Int) (firewall : Firewall)
    (before after : List Firewall) : Prop where
  nonneg : stillCached firewall server.history server.now info = false →
    0 ≤ cacheTimeout firewall timeout
  first : stillCached firewall server.history server.now info = true → before = []
  last : stillCached firewall server.history server.now info = true ∨
    0 < cacheTimeout firewall timeout → ∀ other ∈ after, other.shouldCacheUpdates = false

def Orderly (firewalls : Firewalls) (server : Server) : Event → Prop
  | .update order info timeout =>
    Distinguished firewalls server.history info ∧
      ∀ before firewall after, order = before ++ firewall :: after →
        firewall.shouldCacheUpdates = true →
        Undisturbed server info timeout firewall before after
  | .stop ip =>
    ∀ firewall ∈ firewalls.all, firewall.shouldCacheUpdates = true →
      ∀ past ∈ seen server.history,
        contains (cacheKey firewall past) (ipPart ip) = true → past.ip = ip
  | .tick _ => True

def Tracks (firewalls : Firewalls) (server : Server) : Prop :=
  ∀ later, server.now ≤ later → ∀ key, server.cache.get later key = true ↔
    ∃ firewall ∈ firewalls.all, firewall.shouldCacheUpdates = true ∧
      ∃ info, key = cacheKey firewall info ∧
        stillCached firewall server.history later info = true

theorem tracks_start (now : Int) : Tracks firewalls (.start now) := by
  intro later _ key
  simp [start, stillCached]

theorem Tracks.get_cacheKey (tracks : Tracks firewalls server)
    (told : Distinguished firewalls server.history info) (member : firewall ∈ firewalls.all)
    (cached : firewall.shouldCacheUpdates = true) (ordered : server.now ≤ later) :
    server.cache.get later (cacheKey firewall info) =
      stillCached firewall server.history later info := by
  rw [Bool.eq_iff_iff, tracks later ordered]
  constructor
  · rintro ⟨other, otherMember, _, past, same, still⟩
    cases told.key firewall member other otherMember past (seen_of_stillCached still) same
    rw [firewalls.eq_of_id member otherMember (id_of_cacheKey same)]
    exact still
  · intro still
    exact ⟨firewall, member, cached, info, rfl, still⟩

theorem Tracks.stillCached_later (tracks : Tracks firewalls server)
    (told : Distinguished firewalls server.history info) (member : firewall ∈ firewalls.all)
    (cached : firewall.shouldCacheUpdates = true) (ordered : server.now ≤ later)
    (missing : stillCached firewall server.history server.now info = false) :
    stillCached firewall server.history later info = false := by
  rw [← tracks.get_cacheKey told member cached le_rfl, Bool.eq_false_iff] at missing
  rw [← tracks.get_cacheKey told member cached ordered, Bool.eq_false_iff]
  exact fun found => missing (get_of_get_later ordered found)

section Visit

theorem cacheKey_ne_of_split (visits : order.Perm firewalls.all)
    (split : order = before ++ firewall :: after)
    (member : other ∈ before ∨ other ∈ after) : cacheKey firewall info ≠ cacheKey other info := by
  intro same
  have distinct : (order.map (·.id)).Nodup := (visits.map _).nodup_iff.mpr firewalls.distinct
  rw [split, map_append, map_cons, nodup_middle, nodup_cons, ← map_append] at distinct
  apply distinct.1
  rw [id_of_cacheKey same]
  exact mem_map_of_mem (mem_append.mpr member)

theorem id_notMem_of_split (visits : order.Perm firewalls.all)
    (split : order = before ++ firewall :: after) :
    firewall.id ∉ before.map (·.id) ∧ firewall.id ∉ after.map (·.id) := by
  have distinct : (order.map (·.id)).Nodup := (visits.map _).nodup_iff.mpr firewalls.distinct
  rw [split, map_append, map_cons, nodup_middle, nodup_cons, mem_append, not_or] at distinct
  exact distinct.1

variable (tracks : Tracks firewalls server) (told : Distinguished firewalls server.history info)
  (visits : order.Perm firewalls.all) (split : order = before ++ firewall :: after)
  (cached : firewall.shouldCacheUpdates = true)
  (undisturbed : Undisturbed server info timeout firewall before after)

include tracks told visits split cached undisturbed

theorem get_before (ordered : server.now ≤ later) :
    (before.foldl (visit server.now info timeout) ⟨server.cache, false, []⟩).cache.get later
        (cacheKey firewall info) = stillCached firewall server.history later info := by
  have member : firewall ∈ firewalls.all := visits.mem_iff.mp (by simp [split])
  have own := tracks.get_cacheKey told member cached ordered
  cases still : stillCached firewall server.history server.now info with
  | true =>
    rw [undisturbed.first still]
    exact own
  | false =>
    have expired := tracks.stillCached_later told member cached ordered still
    rw [get_foldl_of_ne ordered (fun other position _ =>
      cacheKey_ne_of_split visits split (.inl position)), own, expired, Bool.false_and]

theorem mem_started_iff :
    firewall.id ∈ (handleUpdate server.now info timeout server.cache order).started ↔
      stillCached firewall server.history server.now info = false := by
  obtain ⟨notBefore, notAfter⟩ := id_notMem_of_split visits split
  unfold handleUpdate
  rw [split, foldl_append, foldl_cons, mem_started_foldl_of_ne notAfter,
    mem_started_visit, mem_started_foldl_of_ne notBefore, shouldStart_visit cached,
    get_before tracks told visits split cached undisturbed le_rfl]
  cases still : stillCached firewall server.history server.now info with
  | true =>
    rw [undisturbed.first still]
    simp
  | false => simp

theorem get_handleUpdate_self (ordered : server.now ≤ later) :
    (handleUpdate server.now info timeout server.cache order).cache.get later
        (cacheKey firewall info) =
      stillCached firewall (.update server.now info timeout :: server.history) later info := by
  have member : firewall ∈ firewalls.all := visits.mem_iff.mp (by simp [split])
  have found := get_before tracks told visits split cached undisturbed le_rfl
  have kept := get_before tracks told visits split cached undisturbed ordered
  have visited := get_visit_self ordered cached (fun missing =>
    undisturbed.nonneg (found.symm.trans missing))
  rw [found, kept] at visited
  unfold handleUpdate
  rw [stillCached, if_pos rfl, split, foldl_append, foldl_cons]
  by_cases entry : stillCached firewall server.history server.now info = true ∨
      0 < cacheTimeout firewall timeout
  · rw [cache_foldl_of_not_cached (undisturbed.last entry)]
    exact visited
  · -- nothing is cached, and later firewalls do not touch the key
    rw [not_or, Bool.not_eq_true] at entry
    have expired := tracks.stillCached_later told member cached ordered entry.1
    rw [get_foldl_of_ne ordered (fun other position _ =>
      cacheKey_ne_of_split visits split (.inr position)), visited, expired,
      decide_eq_false entry.2]
    simp

end Visit

variable {next : Server}

theorem Tracks.update (tracks : Tracks firewalls server)
    (allowed : Orderly firewalls server (.update order info timeout))
    (visits : order.Perm firewalls.all) :
    Tracks firewalls { server with
      cache := (handleUpdate server.now info timeout server.cache order).cache
      history := .update server.now info timeout :: server.history } := by
  obtain ⟨told, undisturbed⟩ := allowed
  have own : ∀ firewall ∈ firewalls.all, firewall.shouldCacheUpdates = true →
      ∀ later, server.now ≤ later →
        (handleUpdate server.now info timeout server.cache order).cache.get later
            (cacheKey firewall info) =
          stillCached firewall (.update server.now info timeout :: server.history) later info := by
    intro firewall member cached later ordered
    obtain ⟨before, after, split⟩ := append_of_mem (visits.mem_iff.mpr member)
    exact get_handleUpdate_self tracks told visits split cached
      (undisturbed before firewall after split cached) ordered
  intro later ordered key
  by_cases mine : ∃ firewall ∈ firewalls.all, firewall.shouldCacheUpdates = true ∧
      key = cacheKey firewall info
  · -- a key of this update
    obtain ⟨firewall, member, cached, rfl⟩ := mine
    rw [own firewall member cached later ordered]
    constructor
    · intro still
      exact ⟨firewall, member, cached, info, rfl, still⟩
    · rintro ⟨other, otherMember, otherCached, past, same, still⟩
      by_cases new : info = past
      · subst new
        rw [firewalls.eq_of_id member otherMember (id_of_cacheKey same)]
        exact still
      · have earlier := ((stillCached_update_iff new).mp still).2
        exact absurd (told.key firewall member other otherMember past
          (seen_of_stillCached earlier) same) new
  · have others : ∀ firewall ∈ order, firewall.shouldCacheUpdates = true →
        key ≠ cacheKey firewall info := by
      intro firewall member cached same
      exact mine ⟨firewall, visits.mem_iff.mp member, cached, same⟩
    unfold handleUpdate
    rw [get_foldl_of_ne ordered others, Bool.and_eq_true, tracks later ordered]
    constructor
    · rintro ⟨⟨firewall, member, cached, past, rfl, still⟩, kept⟩
      have some : order.any (·.shouldCacheUpdates) = true :=
        any_eq_true.mpr ⟨firewall, visits.mem_iff.mpr member, cached⟩
      rw [some, Bool.true_and, Bool.not_eq_true'] at kept
      have otherMac : info.mac ≠ past.mac := by
        intro same
        rw [same, contains_macPart] at kept
        cases kept
      have new : info ≠ past := fun same => otherMac (congrArg Info.mac same)
      exact ⟨firewall, member, cached, past, rfl,
        (stillCached_update_iff new).mpr ⟨otherMac, still⟩⟩
    · rintro ⟨firewall, member, cached, past, rfl, still⟩
      have new : info ≠ past := by
        rintro rfl
        exact mine ⟨firewall, member, cached, rfl⟩
      obtain ⟨otherMac, earlier⟩ := (stillCached_update_iff new).mp still
      refine ⟨⟨firewall, member, cached, past, rfl, earlier⟩, ?_⟩
      rw [Bool.not_eq_true', Bool.and_eq_false_iff, Bool.eq_false_iff, Bool.eq_false_iff]
      right
      intro mixed
      exact otherMac (told.mac firewall member cached past (seen_of_stillCached earlier) mixed).symm

theorem Tracks.stop (tracks : Tracks firewalls server)
    (allowed : Orderly firewalls server (.stop ip)) :
    Tracks firewalls { server with
      cache := handleStop server.now server.cache ip
      history := .stop ip :: server.history } := by
  intro later ordered key
  unfold handleStop
  rw [get_deleteItems ordered, Bool.and_eq_true, tracks later ordered,
    Bool.not_eq_true']
  constructor
  · rintro ⟨⟨firewall, member, cached, past, rfl, still⟩, kept⟩
    refine ⟨firewall, member, cached, past, rfl, stillCached_stop_iff.mpr ⟨?_, still⟩⟩
    rintro rfl
    rw [contains_ipPart] at kept
    cases kept
  · rintro ⟨firewall, member, cached, past, rfl, still⟩
    obtain ⟨otherIp, earlier⟩ := stillCached_stop_iff.mp still
    refine ⟨⟨firewall, member, cached, past, rfl, earlier⟩, ?_⟩
    rw [Bool.eq_false_iff]
    intro mixed
    exact otherIp (allowed firewall member cached past (seen_of_stillCached earlier) mixed).symm

theorem Tracks.step {event : Event} (tracks : Tracks firewalls server)
    (allowed : Orderly firewalls server event)
    (stepped : server.step? firewalls event = some next) : Tracks firewalls next := by
  cases event with
  | update order info timeout =>
    simp only [step?] at stepped
    split at stepped
    next visits =>
      cases stepped
      exact tracks.update allowed (isPerm_iff.mp visits)
    · cases stepped
  | stop ip =>
    cases stepped
    exact tracks.stop allowed
  | tick elapsed =>
    cases stepped
    intro later ordered key
    apply tracks later
    dsimp only at ordered
    omega

theorem Tracks.of_reaches
    (reached : (machine firewalls).Reaches (Orderly firewalls) (.start now) server) :
    Tracks firewalls server := by
  apply reached.invariant (tracks_start now)
  intro server event next tracks allowed stepped
  exact tracks.step allowed stepped

/-- In every run whose steps are orderly, an update sends a start to a firewall with
cached updates exactly if none is still cached for it. -/
theorem update_decided_per_firewall {firewalls : Firewalls} {server : Server} {now : Int}
    (reached : (machine firewalls).Reaches (Orderly firewalls) (.start now) server) :
    ∀ order info timeout, order.Perm firewalls.all →
      Orderly firewalls server (.update order info timeout) →
      ∀ firewall ∈ firewalls.all, firewall.shouldCacheUpdates = true →
        (firewall.id ∈ (handleUpdate server.now info timeout server.cache order).started ↔
          stillCached firewall server.history server.now info = false) := by
  intro order info timeout visits allowed firewall member cached
  obtain ⟨before, after, split⟩ := append_of_mem (visits.mem_iff.mpr member)
  exact mem_started_iff (Tracks.of_reaches reached) allowed.1 visits split cached
    (allowed.2 before firewall after split cached)

def cachedFirewall : Firewall := ⟨"192.0.2.1".toList, true, 60⟩

def plainFirewall : Firewall := ⟨"192.0.2.2".toList, false, 0⟩

def single : Firewalls := ⟨[cachedFirewall], by decide⟩

def mixed : Firewalls := ⟨[plainFirewall, cachedFirewall], by decide⟩

def deviceInfo : Info :=
  ⟨"02:00:00:00:00:01".toList, "198.51.100.7".toList, "bob".toList, "staff".toList⟩

theorem orderly_single (same : ∀ past ∈ seen server.history, past = deviceInfo) :
    Orderly single server (.update [cachedFirewall] deviceInfo 0) := by
  refine ⟨⟨?_, ?_⟩, ?_⟩
  · intro firewall _ _ past member _
    rw [same past member]
  · intro firewall _ other _ past member _
    exact (same past member).symm
  · intro before firewall after split _
    cases before with
    | nil =>
      cases split
      exact ⟨fun _ => by decide, fun _ => rfl, fun _ => nofun⟩
    | cons first rest => simp at split

def updatedServer (now : Int) : Server where
  cache := (handleUpdate 0 deviceInfo 0 (start 0).cache [cachedFirewall]).cache
  now := now
  history := [.update 0 deviceInfo 0]

/-- Within the timeout of its firewall a second update is not passed on. -/
theorem second_update_not_sent :
    ∃ server, (machine single).Reaches (Orderly single) (.start 0) server ∧
      cachedFirewall.id ∉
        (handleUpdate server.now deviceInfo 0 server.cache [cachedFirewall]).started := by
  have updated : (machine single).Reaches (Orderly single) (.start 0) (updatedServer 0) :=
    .step .refl (orderly_single nofun) rfl
  have waited : (machine single).step? (updatedServer 0) (.tick 10000000000) =
      some (updatedServer 10000000000) := rfl
  have idle : Orderly single (updatedServer 0) (.tick 10000000000) := trivial
  have reached := Machine.Reaches.step updated idle waited
  have same : ∀ past ∈ seen (updatedServer 10000000000).history, past = deviceInfo := by
    intro past member
    exact mem_singleton.mp member
  refine ⟨_, reached, ?_⟩
  rw [update_decided_per_firewall reached [cachedFirewall] deviceInfo 0 (.refl _)
    (orderly_single same) cachedFirewall mem_cons_self rfl]
  decide +kernel

/-- The plain firewall comes first, and its start is passed on to the other one, whose
entry is found. -/
theorem start_passed_on :
    ∃ server, (machine mixed).Reaches Machine.anyEvent (.start 0) server ∧
      stillCached cachedFirewall server.history server.now deviceInfo = true ∧
      cachedFirewall.id ∈ (handleUpdate server.now deviceInfo 0 server.cache
        [plainFirewall, cachedFirewall]).started := by
  have replayed : ((machine mixed).replay? (fun _ _ => true) (.start 0)
      [.update [plainFirewall, cachedFirewall] deviceInfo 0, .tick 10000000000]).map
        (fun server => (stillCached cachedFirewall server.history server.now deviceInfo,
          decide (cachedFirewall.id ∈ (handleUpdate server.now deviceInfo 0 server.cache
            [plainFirewall, cachedFirewall]).started))) = some (true, true) := by decide +kernel
  obtain ⟨server, run, viewed⟩ := Option.map_eq_some_iff.mp replayed
  rw [Prod.mk.injEq, decide_eq_true_eq] at viewed
  exact ⟨server, Machine.reaches_anyEvent_of_replay? run .refl, viewed.1, viewed.2⟩

end PacketFence.FirewallSso
