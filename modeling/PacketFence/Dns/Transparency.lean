import PacketFence.Dns.Filter
import Mathlib.Data.List.Find
import Mathlib.Data.List.Pairwise

/-!
# When the cache of the filter cannot be noticed

A history of queries gets what the filter says of each of them exactly if no
query inherits a scope and none finds an entry that was left for other
arguments. `Synced` ties the cache to the arguments its entries were made for;
a filter that fails on one question alone shows every other entry that is used
for it.
-/

namespace PacketFence.Dns

open Foundations List Option

inductive Event (Address : Type) where
  | query (query : Query Address)
  /-- `Refresh`, when the passthroughs have changed -/
  | flush

section

variable {Address : Type} (networks : List (Network Address))

def NetworkType.ownScope (type : NetworkType) : Scope :=
  type.scope?.getD .unset

def own (filter : FilterDns) (query : Query Address) : Outcome :=
  match networks.find? (·.contains query.address) with
  | none => .portal
  | some network =>
    (query.early network.type.ownScope).getD
      (outcomeOf (filter (query.args network.type.ownScope)))

/-- Every query of a history gets its own outcome. -/
def Transparent (filter : FilterDns) : TimedMap String String → List (Event Address) → Prop
  | _, [] => True
  | cache, .query query :: events =>
    (serveDNS filter cache query).1 = own networks filter query ∧
      Transparent filter (serveDNS filter cache query).2 events
  | _, .flush :: events => Transparent filter .empty events

variable (query : Query Address)

def Query.Scoped : Prop :=
  ∀ network, query.order.find? (·.contains query.address) = some network →
    network.type.scope?.isSome = true ∨
      ∀ earlier ∈ query.order.takeWhile (!·.contains query.address),
        earlier.type.scope? = none

/-- What the filter is asked, unless the query is decided before. -/
def Query.asked : Option Args :=
  (query.order.find? (·.contains query.address)).bind fun network =>
    match query.early network.type.ownScope with
    | some _ => none
    | none => some (query.args network.type.ownScope)

def Query.noted (origins : TimedMap String Args) : TimedMap String Args :=
  match query.asked with
  | some args => note origins query.now defaultExpiration query.cacheKey args
  | none => origins

/-- A query inherits no scope, and finds no entry that a query with other
arguments has left. -/
def Query.Apart (origins : TimedMap String Args) : Prop :=
  query.Scoped ∧ ∀ args, query.asked = some args → ∀ origin,
    origins.find? query.now query.cacheKey = some origin → origin = args

def Apart : TimedMap String Args → List (Event Address) → Prop
  | _, [] => True
  | origins, .query query :: events => query.Apart origins ∧ Apart (query.noted origins) events
  | _, .flush :: events => Apart .empty events

end

variable {Address : Type} {address : Address} {query : Query Address}

/-- The scope that is left behind networks without the client. -/
def lastScope (scope : Scope) (networks : List (Network Address)) : Scope :=
  networks.foldl (fun scope network => network.type.scope?.getD scope) scope

theorem locate_eq (scope : Scope) (networks : List (Network Address)) :
    locate address scope networks = (networks.find? (·.contains address)).map fun network =>
        (network, network.type.scope?.getD
          (lastScope scope (networks.takeWhile (!·.contains address)))) := by
  induction networks generalizing scope with
  | nil => rfl
  | cons network networks ih =>
    rw [locate]
    cases inside : network.contains address with
    | true => simp [inside, lastScope]
    | false => simp [inside, lastScope, ih]

theorem scope?_ne_unset (type : NetworkType) : type.scope? ≠ some .unset := by cases type <;> decide

theorem lastScope_eq_unset_iff {scope : Scope} {networks : List (Network Address)} :
    lastScope scope networks = .unset ↔
      scope = .unset ∧ ∀ network ∈ networks, network.type.scope? = none := by
  induction networks generalizing scope with
  | nil => simp [lastScope]
  | cons network networks ih =>
    rw [lastScope, foldl_cons, ← lastScope, ih, forall_mem_cons]
    cases known : network.type.scope? with
    | none => simp
    | some own =>
      have proper : own ≠ .unset := by
        rintro rfl
        exact scope?_ne_unset _ known
      simp [proper]

theorem scoped_iff : query.Scoped ↔
    locate query.address .unset query.order =
      (query.order.find? (·.contains query.address)).map fun network =>
        (network, network.type.ownScope) := by
  rw [locate_eq, Query.Scoped]
  cases found : query.order.find? (·.contains query.address) with
  | none => simp
  | some network =>
    simp only [Option.some.injEq, forall_eq', map_some, Prod.mk.injEq, true_and,
      NetworkType.ownScope]
    cases known : network.type.scope? with
    | some own => simp
    | none => simp [lastScope_eq_unset_iff]

variable {filter : FilterDns} {cache : TimedMap String String} {origins : TimedMap String Args}
  {Address : Type} {query : Query Address} {scope : Scope}

theorem early_ne_portal : query.early scope ≠ some .portal := by
  unfold Query.early
  split
  all_goals
    repeat' split
    all_goals exact nofun

def useful (reply : String) : Option String :=
  if reply = "null" then none else some reply

/-- What of a filter is worth remembering. -/
def effective (filter : FilterDns) (args : Args) : Option String :=
  (filter args).bind fun answer => useful (answer.getD "")

/-- The cache has the answers of the filter to what has been noted. -/
def Synced (filter : FilterDns) (cache : TimedMap String String)
    (origins : TimedMap String Args) : Prop :=
  cache.translate useful = origins.translate (effective filter)

theorem synced_empty (filter : FilterDns) : Synced filter .empty .empty := rfl

theorem outcomeOf_of_effective {args : Args} {record : String}
    (answered : effective filter args = some record) :
    outcomeOf (filter args) = .filtered record := by
  obtain ⟨answer, replied, kept⟩ := bind_eq_some_iff.mp answered
  rw [useful] at kept
  split at kept
  · cases kept
  · rw [replied, outcomeOf, Option.some.inj kept]

theorem translate_askFilter (scope : Scope) :
    (askFilter filter cache query scope).2.translate useful =
      match effective filter (query.args scope) with
      | some record => (cache.translate useful).put query.cacheKey record
          (query.now + defaultExpiration)
      | none => (cache.translate useful).erase query.cacheKey := by
  rw [askFilter, effective]
  cases filter (query.args scope) with
  | none => exact TimedMap.translate_put_of_none rfl
  | some answer =>
    rw [bind_some]
    cases kept : useful (answer.getD "") with
    | none => exact TimedMap.translate_put_of_none kept
    | some record => exact TimedMap.translate_put kept

theorem serveDNS_undecided {network : Network Address}
    (located : locate query.address .unset query.order = some (network, scope))
    (undecided : query.early scope = none) :
    serveDNS filter cache query =
      match (cache.find? query.now query.cacheKey).bind useful with
      | some reply => (.filtered reply, cache)
      | none => askFilter filter cache query scope := by
  simp only [serveDNS, located, undecided]
  cases cache.find? query.now query.cacheKey with
  | none => rfl
  | some reply =>
    rw [bind_some, useful]
    by_cases null : reply = "null"
    · simp [null]
    · simp [null]

theorem serveDNS_eq_askThrough {network : Network Address}
    (located : locate query.address .unset query.order = some (network, scope))
    (undecided : query.early scope = none) {answer : Option String}
    {answers : TimedMap String String}
    (recalled : askThrough (effective filter) (cache.translate useful) query.now defaultExpiration
      query.cacheKey (query.args scope) = (answer, answers)) :
    (serveDNS filter cache query).1 =
        answer.elim (outcomeOf (filter (query.args scope))) .filtered ∧
      (serveDNS filter cache query).2.translate useful = answers := by
  rw [askThrough, TimedMap.find?_translate] at recalled
  rw [serveDNS_undecided located undecided]
  cases found : (cache.find? query.now query.cacheKey).bind useful with
  | some reply =>
    rw [found] at recalled
    obtain ⟨rfl, rfl⟩ := Prod.mk.inj recalled
    exact ⟨rfl, rfl⟩
  | none =>
    rw [found] at recalled
    rw [translate_askFilter]
    cases answered : effective filter (query.args scope) with
    | some record =>
      rw [answered] at recalled
      obtain ⟨rfl, rfl⟩ := Prod.mk.inj recalled
      exact ⟨outcomeOf_of_effective answered, rfl⟩
    | none =>
      rw [answered] at recalled
      obtain ⟨rfl, rfl⟩ := Prod.mk.inj recalled
      exact ⟨rfl, rfl⟩

section Transparency

variable {Address : Type} {networks : List (Network Address)} {query : Query Address}
  (same : query.order.find? (·.contains query.address) = networks.find? (·.contains query.address))

include same

theorem serveDNS_of_apart (synced : Synced filter cache origins) (apart : query.Apart origins) :
    (serveDNS filter cache query).1 = own networks filter query ∧
      Synced filter (serveDNS filter cache query).2 (query.noted origins) := by
  obtain ⟨located, alone⟩ := apart
  rw [scoped_iff] at located
  rw [own, ← same, Query.noted]
  rw [Query.asked] at alone ⊢
  cases found : query.order.find? (·.contains query.address) with
  | none =>
    rw [found] at located
    simp only [serveDNS, located, map_none, bind_none]
    exact ⟨trivial, synced⟩
  | some network =>
    rw [found, map_some] at located
    rw [found, bind_some] at alone
    rw [bind_some]
    cases decided : query.early network.type.ownScope with
    | some outcome =>
      simp only [serveDNS, located, decided]
      exact ⟨rfl, synced⟩
    | none =>
      rw [decided] at alone
      dsimp only
      rw [decided, getD_none]
      have recalled : askThrough (effective filter) (origins.translate (effective filter))
          query.now defaultExpiration query.cacheKey (query.args network.type.ownScope) = _ :=
        askThrough_translate (alone _ rfl)
      rw [← synced] at recalled
      obtain ⟨outcome, remembered⟩ := serveDNS_eq_askThrough located decided recalled
      refine ⟨?_, remembered⟩
      rw [outcome]
      cases answered : effective filter (query.args network.type.ownScope) with
      | some record => exact (outcomeOf_of_effective answered).symm
      | none => rfl

omit same in
/-- Without a condition, the outcome is what is found of another query, or else
what the filter says. -/
theorem fst_serveDNS {network : Network Address} {scope : Scope}
    (located : locate query.address .unset query.order = some (network, scope))
    (undecided : query.early scope = none) (synced : Synced filter cache origins) :
    (serveDNS filter cache query).1 =
      (((origins.find? query.now query.cacheKey).bind (effective filter)).or
        (effective filter (query.args scope))).elim
          (outcomeOf (filter (query.args scope))) .filtered := by
  obtain ⟨outcome, -⟩ := serveDNS_eq_askThrough located undecided
    (Prod.eta (askThrough (effective filter) _ _ _ _ _)).symm
  rw [outcome, synced, fst_askThrough_translate]

variable (transparent : ∀ filter, ∃ cache, Synced filter cache origins ∧ (serveDNS filter cache
  query).1 = own networks filter query)

include transparent

/-- A filter that fails for a query in its own scope and answers in every other
one shows the scope the query has inherited. -/
theorem scoped_of_own : query.Scoped := by
  intro network found
  by_contra inherited
  rw [not_or, Bool.not_eq_true, isSome_eq_false_iff, isNone_iff_eq_none] at inherited
  obtain ⟨unknown, earlier⟩ := inherited
  obtain ⟨scope, isScope⟩ : ∃ scope, lastScope .unset
    (query.order.takeWhile (!·.contains query.address)) = scope := ⟨_, rfl⟩
  have known : scope ≠ .unset := by
    rw [← isScope, ne_eq, lastScope_eq_unset_iff]
    exact fun all => earlier all.2
  have located : locate query.address .unset query.order = some (network, scope) := by
    rw [locate_eq, found, map_some, unknown, getD_none, isScope]
  let filter : FilterDns := fun args => if args.scope = .unset then none else some (some "")
  have ownOutcome : own networks filter query = .portal := by
    rw [own, ← same, found]
    simp [NetworkType.ownScope, unknown, Query.early, Query.args, filter, outcomeOf]
  obtain ⟨cache, synced, outcome⟩ := transparent filter
  rw [ownOutcome] at outcome
  cases decided : query.early scope with
  | some early =>
    simp only [serveDNS, located, decided] at outcome
    rw [outcome] at decided
    exact early_ne_portal decided
  | none =>
    have answered : effective filter (query.args scope) = some "" := by
      simp [effective, filter, Query.args, known, useful]
    rw [fst_serveDNS located decided synced, answered] at outcome
    cases found : (origins.find? query.now query.cacheKey).bind (effective filter) with
    | some | none =>
      rw [found] at outcome
      cases outcome

/-- A filter that fails for what the query asks and answers everything else shows
whose answer is found. -/
theorem origin_of_own (isScoped : query.Scoped)
    {args : Args} (asked : query.asked = some args) {origin : Args}
    (found : origins.find? query.now query.cacheKey = some origin) : origin = args := by
  by_contra different
  obtain ⟨network, inside, undecided⟩ := bind_eq_some_iff.mp asked
  have located := scoped_iff.mp isScoped
  rw [inside, map_some] at located
  cases decided : query.early network.type.ownScope with
  | some early =>
    rw [decided] at undecided
    cases undecided
  | none =>
    rw [decided] at undecided
    let filter : FilterDns := fun other => if other = args then none else some (some "")
    have isArgs : query.args network.type.ownScope = args := Option.some.inj undecided
    have ownOutcome : own networks filter query = .portal := by
      rw [own, ← same, inside]
      simp [decided, isArgs, filter, outcomeOf]
    have answered : effective filter origin = some "" := by
      simp [effective, filter, different, useful]
    obtain ⟨cache, synced, outcome⟩ := transparent filter
    rw [ownOutcome, fst_serveDNS located decided synced, found, bind_some, answered] at outcome
    cases outcome

theorem apart_of_own : query.Apart origins :=
  ⟨scoped_of_own same transparent, fun _ asked _ found =>
    origin_of_own same transparent (scoped_of_own same transparent) asked found⟩

end Transparency

section Histories

variable {Address : Type} {networks : List (Network Address)}

/-- Every query runs through the networks, in some order. -/
def Iterates (networks : List (Network Address)) (events : List (Event Address)) : Prop :=
  ∀ query, .query query ∈ events → query.order.Perm networks

/-- The networks of clients do not overlap. -/
def Disjoint (networks : List (Network Address)) : Prop :=
  networks.Pairwise fun first second =>
    ∀ address, ¬ (first.contains address = true ∧ second.contains address = true)

variable {events : List (Event Address)}

theorem find?_of_iterates {query : Query Address}
    (disjoint : Disjoint networks) (iterates : Iterates networks events)
    (member : .query query ∈ events) :
    query.order.find? (·.contains query.address) = networks.find? (·.contains query.address) := by
  refine (find?_eq_find?_of_perm (iterates query member).symm ?_).symm
  rintro first ⟨firstMember, firstHas⟩ second ⟨secondMember, secondHas⟩
  by_contra different
  have symmetric : Std.Symm fun first second : Network Address =>
      ∀ address, ¬ (first.contains address = true ∧ second.contains address = true) :=
    ⟨fun _ _ apart address both => apart address both.symm⟩
  exact disjoint.forall firstMember secondMember different query.address ⟨firstHas, secondHas⟩

section

variable (same : ∀ query, .query query ∈ events → query.order.find? (·.contains query.address) =
  networks.find? (·.contains query.address))

include same

theorem transparent_of_apart (synced : Synced filter cache origins) (apart : Apart origins events) :
    Transparent networks filter cache events := by
  induction events generalizing cache origins with
  | nil => trivial
  | cons event events ih =>
    have sameLater := fun query member => same query (mem_cons_of_mem event member)
    cases event with
    | query query =>
      obtain ⟨outcome, syncedNext⟩ :=
        serveDNS_of_apart (same query mem_cons_self) synced apart.1
      exact ⟨outcome, ih sameLater syncedNext apart.2⟩
    | flush => exact ih sameLater (synced_empty filter) apart

theorem apart_of_transparent (transparent : ∀ filter, ∃ cache, Synced filter cache origins ∧
      Transparent networks filter cache events) : Apart origins events := by
  induction events generalizing origins with
  | nil => trivial
  | cons event events ih =>
    have sameLater := fun query member => same query (mem_cons_of_mem event member)
    cases event with
    | query query =>
      have sameNow := same query mem_cons_self
      have apart : query.Apart origins := by
        refine apart_of_own sameNow fun filter => ?_
        obtain ⟨cache, synced, outcome, -⟩ := transparent filter
        exact ⟨cache, synced, outcome⟩
      refine ⟨apart, ih sameLater fun filter => ?_⟩
      obtain ⟨cache, synced, -, later⟩ := transparent filter
      exact ⟨_, (serveDNS_of_apart sameNow synced apart).2, later⟩
    | flush =>
      refine ih sameLater fun filter => ?_
      obtain ⟨_, -, later⟩ := transparent filter
      exact ⟨.empty, synced_empty filter, later⟩

end

/-- Every query of a history gets its own outcome, whatever the filter says,
exactly if the queries are kept apart. -/
theorem dns_filter_transparent_iff (networks : List (Network Address))
    (events : List (Event Address)) (disjoint : Disjoint networks)
    (iterates : Iterates networks events) :
    (∀ filter, Transparent networks filter .empty events) ↔ Apart .empty events := by
  have same := fun query (member : .query query ∈ events) =>
    find?_of_iterates disjoint iterates member
  constructor
  · intro transparent
    refine apart_of_transparent same fun filter => ?_
    exact ⟨.empty, synced_empty filter, transparent filter⟩
  · intro apart filter
    exact transparent_of_apart same (synced_empty filter) apart

end Histories

namespace Scenario

def registration : Network Nat where
  contains := (· == 1)
  type := .vlanRegistration

def ask (qtype : Nat) (now : Int) : Query Nat where
  address := 1
  mac := "00:11:22:33:44:55"
  status := "unreg"
  category := ""
  securityEvent := false
  portalName := false
  qname := "example.com."
  qtype := qtype
  now := now
  order := [registration]

theorem ask_scoped (qtype : Nat) (now : Int) : (ask qtype now).Scoped := by
  intro network found
  obtain rfl : registration = network := Option.some.inj found
  exact .inl rfl

/-- A question that is repeated, and another one after a flush. -/
theorem repeated_question_transparent :
    Apart .empty [.query (ask 1 0), .query (ask 1 5), .flush, .query (ask 28 6)] ∧
      ∀ filter, Transparent [registration] filter .empty
        [.query (ask 1 0), .query (ask 1 5), .flush, .query (ask 28 6)] := by
  have apart : Apart .empty [.query (ask 1 0), .query (ask 1 5), .flush, .query (ask 28 6)] := by
    refine ⟨⟨ask_scoped 1 0, ?_⟩, ⟨ask_scoped 1 5, ?_⟩, ⟨ask_scoped 28 6, ?_⟩, trivial⟩
    · exact fun _ _ _ found => nomatch found
    · intro args asked origin found
      exact Option.some.inj (found.symm.trans asked)
    · exact fun _ _ _ found => nomatch found
  refine ⟨apart, (dns_filter_transparent_iff _ _ (pairwise_singleton _ _) ?_).mpr apart⟩
  intro query member
  simp only [mem_cons, Event.query.injEq, reduceCtorEq, not_mem_nil, or_false, false_or] at member
  obtain rfl | rfl | rfl := member
  all_goals exact .refl _

def addresses : FilterDns := fun args =>
  if args.qtype = 1 then some (some "example.com. 30 IN A 192.0.2.1")
  else some (some "example.com. 30 IN AAAA 2001:db8::1")

/-- The address for an IPv4 question answers an IPv6 question. -/
theorem other_question_answered :
    (serveDNS addresses (serveDNS addresses .empty (ask 1 0)).2 (ask 28 5)).1 =
        .filtered "example.com. 30 IN A 192.0.2.1" ∧
      own [registration] addresses (ask 28 5) =
        .filtered "example.com. 30 IN AAAA 2001:db8::1" := by decide +kernel

end Scenario

end PacketFence.Dns
