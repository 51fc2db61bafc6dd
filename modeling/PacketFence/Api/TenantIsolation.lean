import PacketFence.Api.Authorization
import PacketFence.Api.TokenLifetime

/-!
# What a token for one tenant gets past the gateway

The check of the tenant reads the first value of the tenant header, while the
request is forwarded with all of them. They are the tenant's exactly if the
first value is empty, so that all of them are replaced, or the values after it
denote the same tenant.
-/

namespace PacketFence.Api

open Foundations

variable {header : Header} {tenancy : Tenancy} {info : TokenInfo}

namespace Header

variable {key other value : String}

@[simp]
theorem set_self : header.set key value key = [value] := by simp [set]

theorem set_of_ne (different : other ≠ key) : header.set key value other = header other := by
  simp [set, different]

theorem exists_cons_of_get_ne (nonempty : header.get key ≠ "") :
    ∃ rest, header key = header.get key :: rest := by
  unfold get at nonempty ⊢
  cases values : header key with
  | nil => simp [values] at nonempty
  | cons first rest => exact ⟨rest, rfl⟩

end Header

/-- Everything the forwarded headers say about who is asking comes from the
token. -/
structure Isolated (info : TokenInfo) (header : Header) : Prop where
  tenant : ∀ value ∈ header tenantIdHeader, atoi value = .ok info.tenantId
  username : header usernameHeader = [info.username]
  adminRoles : header adminRolesHeader = [",".intercalate info.adminRoles]

/-- The first value of the tenant header is missing or empty, or the values
after it denote this tenant. -/
def SingleTenant (tenantId : Int64) (header : Header) : Prop :=
  header.get tenantIdHeader = "" ∨
    ∀ value ∈ (header tenantIdHeader).tail, atoi value = .ok tenantId

instance (tenantId : Int64) (header : Header) : Decidable (SingleTenant tenantId header) :=
  inferInstanceAs (Decidable (_ ∨ _))

theorem isAuthorizedTenantId_ok {requestTenantId tokenTenantId : Int64}
    (authorized : isAuthorizedTenantId requestTenantId tokenTenantId = .ok ()) :
    tokenTenantId ≠ AccessNoTenants ∧
      (tokenTenantId = AccessAllTenants ∨ requestTenantId = tokenTenantId) := by
  unfold isAuthorizedTenantId at authorized
  split at authorized
  · simp at authorized
  next accessible =>
    refine ⟨by simpa using accessible, ?_⟩
    split at authorized
    next all => exact .inl (by simpa using all)
    · split at authorized
      next same => exact .inr (by simpa using same)
      · simp at authorized

variable {tenantId : Int64}

theorem isAuthorized_ok {surroundings : Surroundings} {method path : String}
    (authorized : isAuthorized surroundings tenancy method path tenantId (some info) = .ok ()) :
    isAuthorizedTenantId tenantId info.tenantId = .ok () := by
  simp only [isAuthorized, bind, Except.bind] at authorized
  split at authorized
  · simp at authorized
  · split at authorized
    · simp at authorized
    next checked => exact checked

@[simp] theorem identify_username :
    identify info header usernameHeader = [info.username] := by simp [identify]

@[simp] theorem identify_adminRoles :
    identify info header adminRolesHeader = [",".intercalate info.adminRoles] := by
  rw [identify, Header.set_of_ne (by decide), Header.set_self]

@[simp]
theorem identify_tenantId : identify info header tenantIdHeader = header tenantIdHeader := by
  rw [identify, Header.set_of_ne (by decide), Header.set_of_ne (by decide)]

theorem isolated_identify_iff : Isolated info (identify info header) ↔
      ∀ value ∈ header tenantIdHeader, atoi value = .ok info.tenantId := by
  constructor
  · intro isolated
    simpa only [identify_tenantId] using isolated.tenant
  · intro tenant
    exact ⟨by simpa only [identify_tenantId] using tenant, identify_username, identify_adminRoles⟩

section Request

variable {surroundings : Surroundings} {backend : MemTokenBackend} {now : Time}
  {tenants : Option Nat} {request : Request}

theorem bearerRequestIsAuthorized_ok
    (found : (backend.tokenInfoForToken now (tokenFromBearerRequest request)).1 = some info)
    (authorized : (bearerRequestIsAuthorized surroundings tenancy backend now tenants
      request).answer = .ok ()) :
    ∃ tenantId header, requestTenantId surroundings info request.header = .ok (tenantId, header) ∧
      isAuthorizedTenantId tenantId info.tenantId = .ok () ∧
      (bearerRequestIsAuthorized surroundings tenancy backend now tenants
        request).request.header = identify info header := by
  unfold bearerRequestIsAuthorized at authorized ⊢
  simp only [found] at authorized ⊢
  split at authorized
  · simp at authorized
  next tenantId header requested =>
    exact ⟨tenantId, header, requested, isAuthorized_ok authorized, rfl⟩

/-- A token for one tenant: the forwarded values denote it exactly if the
request names no second tenant behind the first one. -/
theorem forwarded_tenant_iff (oneTenant : info.tenantId ≠ AccessAllTenants)
    (requested : requestTenantId surroundings info request.header = .ok (tenantId, header))
    (allowed : tenantId = info.tenantId) :
    (∀ value ∈ header tenantIdHeader, atoi value = .ok info.tenantId) ↔
      SingleTenant info.tenantId request.header := by
  unfold requestTenantId at requested
  have notAll : (info.tenantId == AccessAllTenants) = false := by simpa using oneTenant
  simp only [notAll, Bool.false_and, Bool.false_eq_true, if_false] at requested
  split at requested
  next empty =>
    have missing : request.header.get tenantIdHeader = "" := by simpa using empty
    simp only [Except.ok.injEq, Prod.mk.injEq] at requested
    rw [← requested.2, Header.set_self]
    simp [SingleTenant, missing, atoi_itoa]
  next present =>
    have nonempty : request.header.get tenantIdHeader ≠ "" := by simpa using present
    split at requested
    next denoted parsed =>
      obtain ⟨rfl, rfl⟩ := requested
      obtain ⟨rest, values⟩ := Header.exists_cons_of_get_ne nonempty
      rw [SingleTenant, values]
      simp [nonempty, parsed, allowed]
    · simp at requested

variable {handler : ApiAAAHandler} {forwarded : Request}

/-- The request passed the checks of its token; a public path, which is forwarded without
them, does not count as authorized. -/
def Authorized (surroundings : Surroundings) (handler : ApiAAAHandler) (now : Time)
    (tenants : Option Nat) (request forwarded : Request) : Prop :=
  isPathPublic request.path = false ∧
    (handleAAA surroundings handler now tenants request).2 = .forward forwarded

/-- The gateway forwards what the authorization leaves of the request, after
the token has been touched. -/
theorem Authorized.verdict
    (authorized : Authorized surroundings handler now tenants request forwarded) :
    ∃ verdict, verdict = bearerRequestIsAuthorized surroundings handler.tenancy
        (handler.backend.touchTokenInfo now (tokenFromBearerRequest request)) now tenants request ∧
      verdict.answer = .ok () ∧ verdict.request = forwarded := by
  obtain ⟨guarded, outcome⟩ := authorized
  simp only [handleAAA, guarded, Bool.false_eq_true, if_false] at outcome
  split at outcome
  · simp at outcome
  · refine ⟨_, rfl, ?_⟩
    split at outcome
    next answered => exact ⟨answered, Outcome.forward.inj outcome⟩
    · simp at outcome

/-- Whatever a request with a token for one tenant contains: it is not
authorized if the token is for no tenant, and if it is authorized, what is
forwarded belongs to the token exactly if the request has a single tenant. -/
theorem tenant_isolation_iff (surroundings : Surroundings) (handler : ApiAAAHandler)
    (now : Time) (tenants : Option Nat) (request : Request) (info : TokenInfo)
    (found : (handler.backend.tokenInfoForToken now (tokenFromBearerRequest request)).1 = some info)
    (oneTenant : info.tenantId ≠ AccessAllTenants) :
    (info.tenantId = AccessNoTenants →
      ∀ forwarded, ¬ Authorized surroundings handler now tenants request forwarded) ∧
    ∀ forwarded, Authorized surroundings handler now tenants request forwarded →
      (Isolated info forwarded.header ↔ SingleTenant info.tenantId request.header) := by
  have checked : ∀ forwarded,
      Authorized surroundings handler now tenants request forwarded →
      ∃ tenantId header,
        requestTenantId surroundings info request.header = .ok (tenantId, header) ∧
        isAuthorizedTenantId tenantId info.tenantId = .ok () ∧
        forwarded.header = identify info header := by
    intro forwarded authorized
    obtain ⟨_, rfl, answered, rfl⟩ := authorized.verdict
    exact bearerRequestIsAuthorized_ok
      (MemTokenBackend.tokenInfoForToken_touch.trans found) answered
  constructor
  · intro noTenant forwarded authorized
    obtain ⟨_, _, _, allowed, _⟩ := checked forwarded authorized
    exact (isAuthorizedTenantId_ok allowed).1 noTenant
  · intro forwarded authorized
    obtain ⟨tenantId, header, requested, allowed, identified⟩ := checked forwarded authorized
    rw [identified, isolated_identify_iff]
    exact forwarded_tenant_iff oneTenant requested
      ((isAuthorizedTenantId_ok allowed).2.resolve_left oneTenant)

end Request

namespace TenantScenario

def surroundings : Surroundings where
  actions := fun role => if role = "Node Manager" then ["NODES_READ"] else []
  numErrorText := fun _ _ => ""

def manager : TokenInfo where
  adminRoles := ["Node Manager"]
  tenantId := 2
  username := "manager"
  createdAt := 0

/-- The token of the manager has just been stored. -/
def handler : ApiAAAHandler where
  backend := (MemTokenBackend.newMemTokenBackend 20 40 (by decide) (by decide)).storeTokenInfo
    0 "0123" manager
  tenancy := ⟨true, true⟩

/-- The manager asks for the nodes of these tenants. -/
def nodes (tenantIds : List String) : Request where
  method := "GET"
  path := "/api/v1/nodes"
  header := fun key =>
    if key = authorizationHeader then ["Bearer 0123"]
    else if key = tenantIdHeader then tenantIds
    else if key = adminRolesHeader then ["ALL"]
    else []

theorem found_nodes (tenantIds : List String) :
    (handler.backend.tokenInfoForToken 5 (tokenFromBearerRequest (nodes tenantIds))).1 =
      some manager := by
  have token : tokenFromBearerRequest (nodes tenantIds) = "0123" := by
    have spelled : trimPrefix "Bearer 0123" "Bearer " = "0123" := by decide
    exact spelled
  rw [token]
  rfl

def identified (request : Request) : Request :=
  { request with header := identify manager request.header }

end TenantScenario

open TenantScenario

/-- The tenant may be spelled in any way, and the roles the client claims are
replaced. -/
theorem tenant_isolation_of_spellings :
    Authorized surroundings handler 5 none (nodes ["+2", "002"])
        (identified (nodes ["+2", "002"])) ∧
      Isolated manager (identified (nodes ["+2", "002"])).header := by
  have authorized : Authorized surroundings handler 5 none (nodes ["+2", "002"])
      (identified (nodes ["+2", "002"])) := ⟨by decide, rfl⟩
  exact ⟨authorized, ((tenant_isolation_iff _ _ _ _ _ manager (found_nodes _) (by decide)).2 _
      authorized).mpr (by decide)⟩

/-- The first value is the tenant of the token, and the second one is forwarded
behind it. -/
theorem tenant_leaks_behind_first_value :
    (handler.backend.tokenInfoForToken 5 (tokenFromBearerRequest (nodes ["2", "3"]))).1 =
        some manager ∧
      manager.tenantId ≠ AccessAllTenants ∧
      Authorized surroundings handler 5 none (nodes ["2", "3"]) (identified (nodes ["2", "3"])) ∧
      "3" ∈ (identified (nodes ["2", "3"])).header tenantIdHeader ∧
      ¬ Isolated manager (identified (nodes ["2", "3"])).header := by
  have forwarded : "3" ∈ (identified (nodes ["2", "3"])).header tenantIdHeader := by decide
  refine ⟨found_nodes _, by decide, ⟨by decide, rfl⟩, forwarded, ?_⟩
  intro isolated
  exact absurd (isolated.tenant "3" forwarded) (by decide)

end PacketFence.Api
