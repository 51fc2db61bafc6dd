import PacketFence.Api.TokenBackend
import PacketFence.Foundations.Strconv

/-!
# Authorization of API requests

The middleware looks up the information of the bearer token, completes the
headers of the request from it and checks the roles, the tenant and the
namespace. `handleAAA` puts it behind the authentication of the token and in
front of whatever serves the request.
-/

namespace PacketFence.Api

open Foundations

/-- The headers of a request, by canonical name. -/
abbrev Header := String → List String

namespace Header

def get (header : Header) (key : String) : String :=
  (header key).head?.getD ""

def set (header : Header) (key value : String) : Header :=
  Function.update header key [value]

end Header

structure Request where
  method : String
  path : String
  header : Header

def authorizationHeader : String := "Authorization"

def tenantIdHeader : String := "X-Packetfence-Tenant-Id"

def adminRolesHeader : String := "X-Packetfence-Admin-Roles"

def usernameHeader : String := "X-Packetfence-Username"

def hasPrefix (text start : String) : Bool :=
  start.toList.isPrefixOf text.toList

def hasSuffix (text ending : String) : Bool :=
  ending.toList.isSuffixOf text.toList

def trimPrefix (text start : String) : String :=
  if hasPrefix text start then String.ofList (text.toList.drop start.length) else text

def apiPrefix : String := "/api/v1"

def apiPrefixV11 : String := "/api/v1.1"

def configApiPrefix : String := apiPrefix ++ "/config"

def ALLOW_ANY : String := "*"

structure AdminRoleMapping where
  base : String
  role : String
  roleSuffix : String

/-- The mappings of the paths below one base, without a suffix of their own. -/
def rolesUnder (base : String) (rows : List (String × String)) : List AdminRoleMapping :=
  rows.map fun (path, role) => ⟨base ++ path, role, ""⟩

def pathAdminRolesMap : List AdminRoleMapping :=
  rolesUnder apiPrefix [
    ("/current_user", ALLOW_ANY), ("/radius_attributes", ALLOW_ANY), ("/preference/", ALLOW_ANY),
    ("/preferences", ALLOW_ANY), ("/auth_log/", "NODES"), ("/auth_logs", "NODES"),
    ("/class/", "SECURITY_EVENTS"), ("/classes", "SECURITY_EVENTS"), ("/ip4log/", "NODES"),
    ("/ip4logs", "NODES"), ("/ip6log/", "NODES"), ("/ip6logs", "NODES"),
    ("/locationlog/", "NODES"), ("/locationlogs", "NODES")] ++
  [⟨apiPrefix ++ "/nodes/network_graph", "NODES", "_READ"⟩] ++
  rolesUnder apiPrefix [
    ("/node/", "NODES"), ("/nodes", "NODES"), ("/node_categories", "NODES"),
    ("/node_category/", "NODES"), ("/security_event/", "SECURITY_EVENTS"),
    ("/security_events", "SECURITY_EVENTS"), ("/user/", "USERS"), ("/users", "USERS"),
    ("/fingerbank", "FINGERBANK"), ("/service/", "SERVICES"), ("/services", "SERVICES"),
    ("/reports/", "REPORTS")] ++
  rolesUnder apiPrefixV11 [
    ("/reports", "REPORTS"), ("/report/", "REPORTS")] ++
  rolesUnder apiPrefix [
    ("/dynamic_reports", "REPORTS"), ("/dynamic_report/", "REPORTS"),
    ("/radius_audit_log/", "RADIUS_LOG"), ("/dhcp_option82s", "DHCP_OPTION_82"),
    ("/dhcp_option82/", "DHCP_OPTION_82"), ("/radius_audit_logs", "RADIUS_LOG"),
    ("/dns_audit_logs", "DNS_LOG"), ("/dns_audit_log/", "DNS_LOG"),
    ("/admin_api_audit_logs", "ADMIN_API_AUDIT_LOG"),
    ("/admin_api_audit_log/", "ADMIN_API_AUDIT_LOG")] ++
  rolesUnder configApiPrefix [
    ("/admin_role/", "ADMIN_ROLES"), ("/admin_roles", "ADMIN_ROLES"),
    ("/base/", "CONFIGURATION_MAIN"), ("/bases", "CONFIGURATION_MAIN"),
    ("/billing_tier/", "BILLING_TIER"), ("/billing_tiers", "BILLING_TIER"),
    ("/certificate/", "CONFIGURATION_MAIN"), ("/certificates", "CONFIGURATION_MAIN"),
    ("/checkup", ALLOW_ANY), ("/cluster_status", "SERVICES"),
    ("/connection_profile/", "CONNECTION_PROFILES"),
    ("/connection_profiles", "CONNECTION_PROFILES"), ("/event_logger/", "EVENT_LOGGERS"),
    ("/event_loggers", "EVENT_LOGGERS"), ("/self_service/", "SELF_SERVICE"),
    ("/self_services", "SELF_SERVICE"), ("/domain/", "DOMAIN"), ("/domains", "DOMAIN"),
    ("/fingerbank_setting/", "FINGERBANK"), ("/fingerbank_settings", "FINGERBANK"),
    ("/firewall/", "FIREWALL_SSO"), ("/firewalls", "FIREWALL_SSO"),
    ("/floating_device/", "FLOATING_DEVICES"), ("/floating_devices", "FLOATING_DEVICES"),
    ("/interface/", "INTERFACES"), ("/interfaces", "INTERFACES"), ("/l2_network/", "INTERFACES"),
    ("/l2_networks", "INTERFACES"), ("/maintenance_task/", "PFCRON"),
    ("/maintenance_tasks", "PFCRON"), ("/pki_provider/", "PKI_PROVIDER"),
    ("/pki_providers", "PKI_PROVIDER"), ("/portal_module/", "PORTAL_MODULE"), ("/pki/", "PKI"),
    ("/portal_modules", "PORTAL_MODULE"), ("/provisioning", "PROVISIONING"),
    ("/provisionings/", "PROVISIONING"), ("/realm/", "REALM"), ("/realms", "REALM"),
    ("/role/", "USERS_ROLES"), ("/roles", "USERS_ROLES"), ("/routed_network/", "INTERFACES"),
    ("/routed_networks", "INTERFACES"), ("/scan/", "SCAN"), ("/scans", "SCAN"),
    ("/security_event/", "SECURITY_EVENTS"), ("/security_events", "SECURITY_EVENTS"),
    ("/source/", "USERS_SOURCES"), ("/sources", "USERS_SOURCES"), ("/switch/", "SWITCHES"),
    ("/switch_group/", "SWITCHES"), ("/switch_groups", "SWITCHES"), ("/switches", "SWITCHES"),
    ("/syslog_forwarder/", "SYSLOG"), ("/syslog_forwarders", "SYSLOG"),
    ("/syslog_parser/", "PFDETECT"), ("/syslog_parsers", "PFDETECT"),
    ("/traffic_shaping_policies", "TRAFFIC_SHAPING"),
    ("/traffic_shaping_policy/", "TRAFFIC_SHAPING")]

def allTenantsPaths : List String := [
  configApiPrefix ++ "/security_events",
  configApiPrefix ++ "/security_event/",
  configApiPrefix ++ "/base/guests_admin_registration",
  configApiPrefix ++ "/admin_roles"]

def multiTenantDenyPaths : List String := [
  apiPrefix ++ "/queues",
  apiPrefix ++ "/services",
  apiPrefix ++ "/service"]

def publicPaths : List String := [
  apiPrefix ++ "/translations",
  apiPrefix ++ "/translation/",
  apiPrefix ++ "/configurator/"]

def isPathPublic (path : String) : Bool :=
  publicPaths.any (hasPrefix path)

def methodSuffixMap : String → String
  | "GET" => "_READ"
  | "OPTIONS" => "_READ"
  | "POST" => "_CREATE"
  | "PUT" => "_UPDATE"
  | "PATCH" => "_UPDATE"
  | "DELETE" => "_DELETE"
  | _ => ""

def InvalidTokenInfoErr : String := "Invalid token info"

/-- What the middleware takes from elsewhere: the actions of each admin role
and the text `strconv` gives an error. -/
structure Surroundings where
  actions : String → List String
  numErrorText : String → NumError → String

/-- The globals of the package; the mode is looked up in the database until
that has worked once. -/
structure Tenancy where
  multipleTenants : Bool
  successMultipleTenants : Bool

def computeMultipleTenants (tenancy : Tenancy) : Option Nat → Tenancy
  | some count =>
    { multipleTenants := tenancy.multipleTenants || 2 < count
      successMultipleTenants := true }
  | none => { tenancy with successMultipleTenants := false }

namespace TokenInfo

variable (info : TokenInfo) (tenancy : Tenancy)

def isTenantMaster : Bool :=
  !tenancy.multipleTenants ||
    (tenancy.multipleTenants && info.tenantId == AccessAllTenants)

def adminActions (surroundings : Surroundings) : List String :=
  info.adminRoles.flatMap surroundings.actions ++
    if info.isTenantMaster tenancy then ["TENANT_MASTER"] else []

end TokenInfo

section Authorization

variable (surroundings : Surroundings) (tenancy : Tenancy) (method path : String)
  (info : TokenInfo)

/-- The checks return `true` without an error or `false` with one. -/
def isAuthorizedAdminActions (roles : List String) : Except String Unit :=
  let mapping? := pathAdminRolesMap.find? fun mapping =>
    hasPrefix path mapping.base && mapping.role != ""
  let baseAdminRole := (mapping?.map AdminRoleMapping.role).getD "SYSTEM"
  let ownSuffix := (mapping?.map AdminRoleMapping.roleSuffix).getD ""
  let suffix := if ownSuffix == "" then methodSuffixMap method else ownSuffix
  if suffix == "" then
    .error ("Impossible to find admin role suffix for unknown method " ++ method)
  else
    let suffix := if method == "POST" && hasSuffix path "/search" then "_READ" else suffix
    if baseAdminRole == ALLOW_ANY then
      .ok ()
    else
      let adminRole := baseAdminRole ++ suffix
      if adminRole ∈ roles then
        .ok ()
      else
        .error ("Unauthorized access, lacking the " ++ adminRole ++ " administrative role")

def isAuthorizedTenantId (requestTenantId tokenTenantId : Int64) : Except String Unit :=
  if tokenTenantId == AccessNoTenants then
    .error "Token is prohibited from accessing data from any tenant"
  else if tokenTenantId == AccessAllTenants then
    .ok ()
  else if requestTenantId == tokenTenantId then
    .ok ()
  else
    .error ("Token is not allowed to access this tenant " ++ itoa requestTenantId ++
      " and only has access to tenant " ++ itoa tokenTenantId)

def isAuthorizedConfigNamespace : Except String Unit :=
  if !hasPrefix path configApiPrefix then
    .ok ()
  else if !info.isTenantMaster tenancy then
    if (method == "GET" || method == "OPTIONS") && allTenantsPaths.any (hasPrefix path) then
      .ok ()
    else
      .error ("Token is not allowed to access the configuration namespace because " ++
        "it is scoped to a single tenant.")
  else
    .ok ()

def isAuthorizedPathMultiTenant : Except String Unit :=
  if !info.isTenantMaster tenancy && multiTenantDenyPaths.any (hasPrefix path) then
    .error ("Token is not allowed to access this namespace because " ++
      "it is scoped to a single tenant.")
  else
    .ok ()

def isAuthorizedMultiTenant : Except String Unit := do
  isAuthorizedConfigNamespace tenancy method path info
  isAuthorizedPathMultiTenant tenancy path info

def isAuthorized (tenantId : Int64) : Option TokenInfo → Except String Unit
  | none => .error InvalidTokenInfoErr
  | some info => do
      isAuthorizedAdminActions method path (info.adminActions tenancy surroundings)
      isAuthorizedTenantId tenantId info.tenantId
      isAuthorizedMultiTenant tenancy method path info

end Authorization

def tokenFromBearerRequest (request : Request) : Token :=
  trimPrefix (request.header.get authorizationHeader) "Bearer "

def requestTenantId (surroundings : Surroundings) (info : TokenInfo) (header : Header) :
    Except String (Int64 × Header) :=
  let xptid := header.get tenantIdHeader
  if info.tenantId == AccessAllTenants && xptid == "" then
    .ok (0, header)
  else if xptid == "" then
    .ok (info.tenantId, header.set tenantIdHeader (itoa info.tenantId))
  else
    match atoi xptid with
    | .ok tenantId => .ok (tenantId, header)
    | .error error =>
      .error ("Impossible to parse X-PacketFence-Tenant-Id " ++ xptid ++
        " into a valid number, error: " ++ surroundings.numErrorText xptid error)

/-- The headers that tell whoever serves the request who is asking. -/
def identify (info : TokenInfo) (header : Header) : Header :=
  (header.set adminRolesHeader (",".intercalate info.adminRoles)).set usernameHeader
    info.username

structure Verdict where
  tenancy : Tenancy
  request : Request
  answer : Except String Unit

/-- `tenants` is what the database answers if it is asked. -/
def bearerRequestIsAuthorized (surroundings : Surroundings) (tenancy : Tenancy)
    (backend : MemTokenBackend) (now : Time) (tenants : Option Nat) (request : Request) :
    Verdict :=
  let tenancy :=
    if !tenancy.successMultipleTenants then computeMultipleTenants tenancy tenants
    else tenancy
  match (backend.tokenInfoForToken now (tokenFromBearerRequest request)).1 with
  | none => ⟨tenancy, request, .error InvalidTokenInfoErr⟩
  | some info =>
    match requestTenantId surroundings info request.header with
    | .error message => ⟨tenancy, request, .error message⟩
    | .ok (tenantId, header) =>
      ⟨tenancy, { request with header := identify info header },
        isAuthorized surroundings tenancy request.method request.path tenantId
          (some info)⟩

structure ApiAAAHandler where
  backend : MemTokenBackend
  tenancy : Tenancy

inductive Outcome where
  | forward (request : Request)
  | refuse (status : Nat) (message : String)

def handleAAA (surroundings : Surroundings) (handler : ApiAAAHandler) (now : Time)
    (tenants : Option Nat) (request : Request) : ApiAAAHandler × Outcome :=
  if isPathPublic request.path then
    (handler, .forward request)
  else
    let token := tokenFromBearerRequest request
    if !handler.backend.tokenIsValid now token then
      (handler, .refuse 401 "Invalid token. Login again using /api/v1/login")
    else
      let backend := handler.backend.touchTokenInfo now token
      let verdict := bearerRequestIsAuthorized surroundings handler.tenancy backend now
        tenants request
      (⟨backend, verdict.tenancy⟩,
        match verdict.answer with
        | .ok _ => .forward verdict.request
        | .error message =>
          .refuse (if message == InvalidTokenInfoErr then 401 else 403) message)

end PacketFence.Api
