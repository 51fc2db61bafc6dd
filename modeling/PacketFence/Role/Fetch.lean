import PacketFence.SecurityEvent.Tables

/-!
# The role of a node

`fetchRoleForNode` asks in turn whether the node is inline, on a port of a
floating device, isolated, unregistered or registered. The roles `0` and
undefined are answers too: `0` passes the question on.

The filters, the sources and the port of a floating device are parameters of the
request; each branch is under the name of the function it is in.
-/

namespace PacketFence.Role

open Foundations Lexing SecurityEvent

/-- The truth of a scalar that is defined. -/
def isTrue (text : Text) : Bool :=
  text ≠ [] ∧ text ≠ "0".toList

structure Trigger where
  type : Text
  value : Text

structure Switch where
  inlineTrigger : List Trigger
  inlineCapabilities : List Text
  supportsMabFloatingDevices : Bool

structure FloatingDevice where
  pvid : Option Text
  trunkPort : Bool

structure NodeInfo where
  status : Text
  category : Option Text
  bypassVlan : Option Text
  bypassRole : Option Text

structure ConnectionType where
  macAuth : Bool
  eap : Bool

structure Source where
  id : Text
  type : Text

structure Matched where
  sourceId : Option Text
  setRole : Option Text
  setRoleFromSource : Option Text

structure Profile where
  name : Text
  filteredAuthenticationSources : List Source
  dot1xRecomputeRoleFromPortal : Bool
  macAuthRecomputeRoleFromPortal : Bool

inductive Scope where
  | isolationRole
  | registrationRole
  | registeredRole

structure Args where
  tenant : Nat
  mac : Text
  port : Text
  ssid : Text
  userName : Option Text
  autoreg : Bool
  switch : Switch
  connectionType : ConnectionType
  nodeInfo : Option NodeInfo
  profile : Profile
  personSource : Option Text
  personPortal : Option Text
  filterVlan : Scope → Option Text
  match2 : List Source → Matched
  configFloatingDevices : Text → Option FloatingDevice
  portHasFloatingDevice : Option Text

inductive RoleAction where
  | setRole
  | setRoleFromSource

structure Answer where
  role : Option Text := none
  vlan : Option Text := none
  wasInline : Option Bool := none
  source : Option Text := none
  portal : Option Text := none
  action : Option RoleAction := none

namespace Args

variable (args : Args) (database : Database)

def filterRole (scope : Scope) : Option Text :=
  (args.filterVlan scope).filter isTrue

def lowerCase (text : Text) : Text :=
  text.map Char.toLower

/-- The first trigger that is invalid or matches decides. -/
def matchTriggers : List Trigger → Bool
  | [] => false
  | trigger :: rest =>
    if !isTrue trigger.type || !isTrue trigger.value then
      false
    else
      let type := lowerCase trigger.type
      let tid := trigger.value.rdropWhile isSpace
      if type = "always".toList then
        true
      else if (args.switch.inlineCapabilities.map lowerCase).contains type then
        if (type = "mac".toList ∧ args.mac = tid) ∨ (type = "port".toList ∧ args.port = tid) ∨
            (type = "ssid".toList ∧ args.ssid = tid) then
          true
        else
          matchTriggers rest
      else
        false

def isInlineTrigger : Bool :=
  args.matchTriggers args.switch.inlineTrigger

/-- The handling of floating devices in `fetchRoleForNode`. -/
def floatingDeviceAnswer : Option Answer :=
  if args.switch.supportsMabFloatingDevices then
    match args.configFloatingDevices args.mac with
    | some device => some { vlan := device.pvid }
    | none =>
      match args.portHasFloatingDevice with
      | none => none
      | some mac =>
        if (args.configFloatingDevices mac).any (·.trunkPort) then
          none
        else
          some { vlan := (args.configFloatingDevices mac).bind (·.pvid) }
  else
    none

def postScanSecurityEventId : Nat := 1200004

def getIsolationRole : Answer :=
  if database.securityEventCountReevaluateAccess args.tenant args.mac = 0 then
    { role := some "0".toList }
  else
    match args.filterRole .isolationRole with
    | some role => { role := some role }
    | none =>
      let role := "isolation".toList
      match database.securityEventViewTop args.tenant args.mac with
      | none => { role := some role }
      | some top =>
        -- the scan must be done in the production network
        if top.securityEventId = postScanSecurityEventId then
          { role := some "0".toList }
        else
          match (database.classView top.securityEventId).bind (·.vlan) with
          | none => { role := some role }
          | some vlan => { role := some vlan }

def registrationAnswer : Answer :=
  match args.filterRole .registrationRole with
  | some role => { role := some role }
  | none => { role := some "registration".toList }

def getRegistrationRole : Answer :=
  match args.nodeInfo with
  | none => args.registrationAnswer
  | some node =>
    if node.status = "unreg".toList ∨ node.status = "pending".toList then
      args.registrationAnswer
    else
      { role := some "0".toList }

def checkBypass : Option Answer :=
  match args.nodeInfo with
  | none => none
  | some node =>
    if node.category = some "REJECT".toList then
      none
    else if node.bypassVlan.any (· ≠ []) then
      some { vlan := node.bypassVlan }
    else if node.bypassRole.any (· ≠ []) then
      some { role := node.bypassRole }
    else
      none

def category : Option Text :=
  args.nodeInfo.bind (·.category)

def roleSources : List Source :=
  let sources := args.profile.filteredAuthenticationSources
  if args.connectionType.eap then
    if !args.profile.dot1xRecomputeRoleFromPortal || args.autoreg then [] else sources
  else if !args.profile.macAuthRecomputeRoleFromPortal || args.autoreg then
    []
  else
    sources.filter fun source => source.type.map Char.toUpper = "AUTHORIZATION".toList

def userAnswer : Answer :=
  let unmatched : Answer :=
    { source := args.personSource, portal := args.personPortal, action := some .setRole }
  if args.connectionType.macAuth || (args.userName.isSome && args.connectionType.eap) then
    if args.roleSources.isEmpty then
      { unmatched with role := args.category }
    else
      let matched := args.match2 args.roleSources
      { role := matched.setRoleFromSource <|> matched.setRole
        source := matched.sourceId
        portal := if args.connectionType.eap then some args.profile.name else args.personPortal
        action := some (if matched.setRoleFromSource.isSome then .setRoleFromSource else .setRole) }
  else
    unmatched

def getRegisteredRole : Answer :=
  match args.filterRole .registeredRole with
  | some role => { role := some role }
  | none =>
    match args.checkBypass with
    | some answer => answer
    | none =>
      let answer := args.userAnswer
      if answer.role.any (· ≠ []) then answer else { answer with role := args.category }

def fetchRoleForNode : Answer :=
  if args.isInlineTrigger then
    { role := some "inline".toList, wasInline := some true }
  else
    match args.floatingDeviceAnswer with
    | some answer => answer
    | none =>
      let isolation := { args.getIsolationRole database with wasInline := some false }
      if isolation.role ≠ some "0".toList then
        isolation
      else if args.getRegistrationRole.role ≠ none ∧
          args.getRegistrationRole.role ≠ some "0".toList then
        args.getRegistrationRole
      else
        args.getRegisteredRole

end Args

end PacketFence.Role
