import ClusterController.Kube

/-!
# The OVN northbound database

`interfaces::ovn`: the connection, the decoding of answers, and the types for logical
switches, routers, their ports, static routes and DHCP options.
-/

namespace ClusterController

open ApiServer (StringMap Key KubeError Resource)
open Interaction (Program)
open Ovsdb (Json Datum Ref Columns Operation Mutation Schema)

/-! ## Schema -/

def typeLogicalSwitch : String := "Logical_Switch"
def typeLogicalSwitchPort : String := "Logical_Switch_Port"
def typeLogicalRouter : String := "Logical_Router"
def typeLogicalRouterPort : String := "Logical_Router_Port"
def typeLogicalRouterStaticRoute : String := "Logical_Router_Static_Route"
def typeDhcpOptions : String := "DHCP_Options"

/-- The columns that the code reads or writes, with the values of a new row. -/
def northboundColumns (table : String) : Columns String :=
  if table = typeLogicalSwitch then
    [("name", .strings [""]), ("ports", .refs []), ("other_config", .map [])]
  else if table = typeLogicalSwitchPort then
    [("name", .strings [""]), ("type", .strings [""]), ("addresses", .strings []),
      ("dynamic_addresses", .strings []), ("options", .map []), ("dhcpv4_options", .refs [])]
  else if table = typeLogicalRouter then
    [("name", .strings [""]), ("ports", .refs []), ("static_routes", .refs [])]
  else if table = typeLogicalRouterPort then
    [("name", .strings [""]), ("mac", .strings [""]), ("networks", .strings [])]
  else if table = typeLogicalRouterStaticRoute then
    [("ip_prefix", .strings [""]), ("nexthop", .strings [""])]
  else if table = typeDhcpOptions then [("cidr", .strings [""]), ("options", .map [])]
  else []

/-- The part of the `OVN_Northbound` schema that the code uses. -/
def northbound : Schema where
  columns := northboundColumns
  isRoot := fun table =>
    table = typeLogicalSwitch || table = typeLogicalRouter || table = typeDhcpOptions
  references := [
    ⟨typeLogicalSwitch, "ports", typeLogicalSwitchPort, true⟩,
    ⟨typeLogicalRouter, "ports", typeLogicalRouterPort, true⟩,
    ⟨typeLogicalRouter, "static_routes", typeLogicalRouterStaticRoute, true⟩,
    ⟨typeLogicalSwitchPort, "dhcpv4_options", typeDhcpOptions, false⟩]
  indexes := [(typeLogicalSwitchPort, "name"), (typeLogicalRouterPort, "name")]

/-! ## The connection -/

/-- Connect to the first of the nodes that can be reached. -/
def connectFirst : List Node → Option Error → Prog Unit
  | [], some error => .fail (.ovnConnection error)
  | [], none => .fail .ovnCentralNodesNotFound
  | node :: nodes, error => do
    match (ovnCentralAnnotatedIp node).or (internalIp node) with
    | some address =>
      match (← ask (.ovnConnect address 6641) : Option Unit) with
      | some () => return ()
      | none => connectFirst nodes (some .io)
    | none => connectFirst nodes error

/-- `Ovn::try_from_annotations` -/
def ovnTryFromAnnotations : Prog Unit := do
  let nodes ← kubeList .node none
  let ovnCentralNodes := nodes.filter fun node =>
    ovnCentralStatus node = .managed || ovnCentralStatus node = .unmanaged
  connectFirst ovnCentralNodes none

/-- One transaction. An error in the answer, or no answer, is a panic. -/
def transact (operations : List Operation) : Prog (List Json) := do
  match (← ask (.transact operations) : Option (List Json)) with
  | some results => .ret results
  | none => .abort "transaction failed"

/-- The columns that `list_objects` selects. -/
def listColumns (objectType : String) : List String :=
  if objectType = typeDhcpOptions then ["_uuid", "cidr"]
  else if objectType = typeLogicalRouter then ["_uuid", "name", "static_routes"]
  else if objectType = typeLogicalRouterStaticRoute then ["_uuid", "ip_prefix", "nexthop"]
  else if objectType = typeLogicalSwitch then ["_uuid", "name", "ports", "other_config"]
  else if objectType = typeLogicalSwitchPort then
    ["_uuid", "name", "addresses", "dynamic_addresses"]
  else ["_uuid", "name"]

def listObjects (objectType : String) : Prog (List Json) := do
  let results ← transact [.select objectType (listColumns objectType)]
  let result ← expect results.head? "index out of bounds"
  let fields ← expect result.asObject "Transaction result not an object"
  let rows ← expect (fields.lookup "rows") "Transaction didn't return rows"
  expect rows.asArray "Rows is not an array"

def ovnInsert (objectType : String) (params : Columns Ref) : Prog Unit := do
  let _ ← transact [.insert objectType params none]

def deleteByUuid (objectType uuid : String) : Prog Unit := do
  let _ ← transact [.delete objectType uuid]

/-! ## Deserialization -/

/-- The fields of a JSON object. -/
abbrev Fields := List (String × Json)

/-- `ok_or(Error::OvnDeserializationFailed)` -/
def orDeserializationFailed {α : Type} (o : Option α) : Prog α :=
  match o with
  | some a => .ret a
  | none => .fail .ovnDeserializationFailed

def deserializeObject (value : Json) : Prog Fields := orDeserializationFailed value.asObject

def deserializeUuid (object : Fields) : Prog String :=
  orDeserializationFailed do
    let a ← object.lookup "_uuid"
    let a ← a.asArray
    let u ← a[1]?
    u.asStr

def deserializeString (object : Fields) (field : String) : Prog String :=
  orDeserializationFailed do
    let u ← object.lookup field
    u.asStr

/-- One entry `[k, v]` of a map. -/
def deserializeEntry (entry : Json) : Prog (String × String) := do
  let kvArray ← expect entry.asArray "map entries should have a key and a value"
  match kvArray with
  | [k, v] =>
    let k ← expect k.asStr "called `Option::unwrap()` on a `None` value"
    let v ← expect v.asStr "called `Option::unwrap()` on a `None` value"
    return (k, v)
  | _ => .abort "assertion failed: `(left == right)`"

/-- `["map", [[k, v], ..]]` -/
def deserializeMap (object : Fields) (field : String) : Prog StringMap := do
  let mapAsArray ← orDeserializationFailed ((object.lookup field).bind Json.asArray)
  match mapAsArray with
  | [tag, entries] =>
    if tag.asStr = some "map" then
      let mapEntries ← orDeserializationFailed entries.asArray
      let entries ← Program.collect mapEntries deserializeEntry
      return entries.foldl (fun m e => m.insert e.1 e.2) []
    else .abort "assertion failed: `(left == right)`"
  | _ => .abort "assertion failed: `(left == right)`"

/-- One element `["uuid", u]` of a set. -/
def deserializeSetElement (uuid : Json) : Prog String := do
  let array ← expect uuid.asArray "each set element should be an array"
  let tag ← expect array[0]? "called `Option::unwrap()` on a `None` value"
  if tag.asStr = some "uuid" then
    let u ← expect array[1]? "\"uuid\" should be followed by an uuid"
    expect u.asStr "value following \"uuid\" should be a string"
  else .abort "assertion failed: `(left == right)`"

/-- `["uuid", u]` or `["set", [["uuid", u], ..]]` -/
def deserializeUuidSet (object : Fields) (field : String) : Prog (List String) := do
  let set ← orDeserializationFailed ((object.lookup field).bind Json.asArray)
  let subtype := (set.head?.bind Json.asStr).getD "unknown"
  if subtype = "uuid" then
    let u ← expect set[1]? "\"uuid\" should be followed by uuid"
    let u ← expect u.asStr "value following \"uuid\" should be string"
    return [u]
  else if subtype = "set" then
    let elements ← expect set[1]? "\"set\" should be followed by array"
    let elements ← expect elements.asArray "value following \"set\" should be an array"
    Program.collect elements deserializeSetElement
  else .abort ("Unknown type \"" ++ subtype ++ "\"")

/-! ## Common operations -/

/-- What every OVN type has. -/
class OvnCommon (τ : Type) where
  uuid : τ → String
  ovnType : String
  deserialize : Json → Prog τ

/-- An OVN type with names. -/
class OvnNamed (τ : Type) extends OvnCommon τ where
  name : τ → String

section Getters

variable (τ : Type)

/-- `OvnGetters::list` -/
def ovnList [OvnCommon τ] : Prog (List τ) := do
  let objects ← listObjects (OvnCommon.ovnType τ)
  Program.collect objects OvnCommon.deserialize

/-- `OvnNamedGetters::get_by_name` -/
def getByName [OvnNamed τ] (name : String) : Prog τ := do
  let objects ← ovnList τ
  match objects.find? fun o => OvnNamed.name o = name with
  | some o => .ret o
  | none => .fail (.ovnNotFound (OvnCommon.ovnType τ) name)

/-- Get an object, or make it if it is not found. Any other error goes on. -/
def orCreate {α : Type} (get create : Prog α) : Prog α := do
  match (← get.attempt) with
  | .ok o => .ret o
  | .error (.ovnNotFound _ _) => create
  | .error e => .fail e

/-- `OvnBasicActions::create` -/
def ovnCreate [OvnNamed τ] (name : String) : Prog τ := do
  ovnInsert (OvnCommon.ovnType τ) [("name", .strings [name])]
  getByName τ name

/-- `OvnBasicActions::create_if_missing` -/
def createIfMissing [OvnNamed τ] (name : String) : Prog τ :=
  orCreate (getByName τ name) (ovnCreate τ name)

/-- `OvnBasicActions::delete` -/
def ovnDelete {τ : Type} [OvnCommon τ] (o : τ) : Prog Unit :=
  deleteByUuid (OvnCommon.ovnType τ) (OvnCommon.uuid o)

end Getters

/-! ## Logical switches and their ports -/

structure LogicalSwitch where
  uuid : String
  name : String
  portIds : List String
  otherConfig : StringMap

instance : OvnNamed LogicalSwitch where
  uuid := LogicalSwitch.uuid
  ovnType := typeLogicalSwitch
  deserialize := fun value => do
    let object ← deserializeObject value
    let uuid ← deserializeUuid object
    let name ← deserializeString object "name"
    let portIds ← deserializeUuidSet object "ports"
    let otherConfig ← deserializeMap object "other_config"
    return ⟨uuid, name, portIds, otherConfig⟩
  name := LogicalSwitch.name

structure LogicalSwitchPort where
  uuid : String
  name : String
  addresses : String
  dynamicAddresses : String

/-- A string column that may hold no string or several. -/
def deserializeStringOrEmpty (object : Fields) (field : String) : Prog String := do
  match (← (deserializeString object field).attempt) with
  | .ok s => .ret s
  | .error _ => .ret ""

instance : OvnNamed LogicalSwitchPort where
  uuid := LogicalSwitchPort.uuid
  ovnType := typeLogicalSwitchPort
  deserialize := fun value => do
    let object ← deserializeObject value
    let uuid ← deserializeUuid object
    let name ← deserializeString object "name"
    let addresses ← deserializeStringOrEmpty object "addresses"
    let dynamicAddresses ← deserializeStringOrEmpty object "dynamic_addresses"
    return ⟨uuid, name, addresses, dynamicAddresses⟩
  name := LogicalSwitchPort.name

namespace LogicalSwitch

def setCidr (ls : LogicalSwitch) (cidr : String) : Prog Unit := do
  let _ ← transact [.update typeLogicalSwitch ls.uuid [("other_config", .map [("subnet", cidr)])]]

def getCidr (ls : LogicalSwitch) : Option String := ls.otherConfig.get "subnet"

def delLsp (ls : LogicalSwitch) (lspId : String) : Prog Unit := do
  let lsp ← getByName LogicalSwitchPort lspId
  let _ ← transact [.mutate typeLogicalSwitch ls.uuid [⟨"ports", false, [.uuid lsp.uuid]⟩]]

/-- The first switch that has the port. -/
def findLspOwner (lsp : LogicalSwitchPort) : Prog LogicalSwitch := do
  let switches ← ovnList LogicalSwitch
  match switches.find? fun switch => switch.portIds.contains lsp.uuid with
  | some switch => .ret switch
  | none => .fail (.ovnNotFound typeLogicalSwitch ("owner of " ++ lsp.uuid))

end LogicalSwitch

/-! ## DHCP options -/

structure DhcpOptions where
  uuid : String
  cidr : String

instance : OvnCommon DhcpOptions where
  uuid := DhcpOptions.uuid
  ovnType := typeDhcpOptions
  deserialize := fun value => do
    let object ← deserializeObject value
    let uuid ← deserializeUuid object
    let cidr ← deserializeString object "cidr"
    return ⟨uuid, cidr⟩

namespace DhcpOptions

def getByCidr (cidr : String) : Prog DhcpOptions := do
  let all ← ovnList DhcpOptions
  match all.find? fun o => o.cidr = cidr with
  | some o => .ret o
  | none => .fail (.ovnNotFound typeDhcpOptions cidr)

def create (cidr : String) : Prog DhcpOptions := do
  let _ ← transact [.insert typeDhcpOptions [("cidr", .strings [cidr])] (some "new_dhcp_options")]
  getByCidr cidr

/-- The content of the `options` column: two fixed entries and those that are set. -/
def options (serverId : String) (crd : DhcpOptionsCrd) : StringMap :=
  [("server_id", serverId), ("server_mac", "c0:ff:ee:00:00:01")]
    ++ (crd.leaseTime.map fun v => ("lease_time", toString v.toNat)).toList
    ++ (crd.dnsServer.map fun v => ("dns_server", v)).toList
    ++ (crd.domainName.map fun v => ("domain_name", "\"" ++ v ++ "\"")).toList
    ++ (crd.router.map fun v => ("router", v)).toList

def setOptions [Crates] (dhcp : DhcpOptions) (crd : DhcpOptionsCrd) : Prog Unit := do
  match Crates.netHosts dhcp.cidr with
  | none => .fail .parseNetwork
  | some hosts =>
    let serverId ← expect hosts.head? "index out of bounds"
    let _ ← transact [.update typeDhcpOptions dhcp.uuid [("options", .map (options serverId crd))]]

end DhcpOptions

/-! ## Switch ports -/

/-- The IP part of an address. -/
inductive IpConfiguration : Type
  | address (ip : String)
  | dynamic
  | none

/-- `str::contains` -/
def containsStr (s sub : String) : Bool := sub.toList <:+: s.toList

/-- `str::split` at a character -/
def splitChar (c : Char) (s : String) : List String := (s.toList.splitOn c).map String.ofList

namespace LogicalSwitchPort

/-- `LogicalSwitchPortBuilder::create` -/
def create (ls : LogicalSwitch) (lspName : String) (extraParams : Columns Ref) :
    Prog LogicalSwitchPort := do
  let _ ← transact [
    .insert typeLogicalSwitchPort (extraParams ++ [("name", .strings [lspName])]) (some "new_lsp"),
    .mutate typeLogicalSwitch ls.uuid [⟨"ports", true, [.named "new_lsp"]⟩]]
  getByName LogicalSwitchPort lspName

/-- `LogicalSwitchPortBuilder::create_if_missing`. A port of that name is taken wherever
it is. -/
def createIfMissing (ls : LogicalSwitch) (lspName : String) (extraParams : Columns Ref) :
    Prog LogicalSwitchPort :=
  orCreate (getByName LogicalSwitchPort lspName) (create ls lspName extraParams)

/-- `LogicalSwitchPortBuilder::get_by_mac` -/
def getByMac (ls : LogicalSwitch) (macAddress : String) : Prog LogicalSwitchPort := do
  let allLsps ← ovnList LogicalSwitchPort
  let onSwitch := allLsps.filter fun lsp => ls.portIds.contains lsp.uuid
  match onSwitch.find? fun lsp => containsStr lsp.addresses macAddress with
  | some lsp => .ret lsp
  | none => .fail (.ovnNotFound typeLogicalSwitchPort macAddress)

/-- An entry of the `addresses` column. -/
def addressString (macAddress : String) : IpConfiguration → String
  | .address ip => macAddress ++ " " ++ ip
  | .dynamic => macAddress ++ " dynamic"
  | .none => macAddress

def setAddress (lsp : LogicalSwitchPort) (macAddress : String) (ipAddress : IpConfiguration) :
    Prog Unit := do
  if containsStr lsp.addresses macAddress then return ()
  else
    let ls ← LogicalSwitch.findLspOwner lsp
    match (← (getByMac ls macAddress).attempt) with
    | .ok _ => .fail (.ovnConflict macAddress)
    | .error _ =>
      let _ ← transact [.update typeLogicalSwitchPort lsp.uuid
        [("addresses", .strings [addressString macAddress ipAddress])]]

def setDhcpOptions (lsp : LogicalSwitchPort) (cidr : String) : Prog Unit := do
  let dhcpOptions ← DhcpOptions.getByCidr cidr
  let _ ← transact [.update typeLogicalSwitchPort lsp.uuid
    [("dhcpv4_options", .refs [.uuid dhcpOptions.uuid])]]

/-- The second word of the dynamic addresses. -/
def dynamicIp (lsp : LogicalSwitchPort) : Option String := (splitChar ' ' lsp.dynamicAddresses)[1]?

/-- All ports of the database with the dynamic IP. -/
def getByIp (ip : String) : Prog (List LogicalSwitchPort) := do
  let ports ← ovnList LogicalSwitchPort
  return ports.filter fun port => port.dynamicIp.getD "" = ip

end LogicalSwitchPort

/-! ## Routers, their ports and static routes -/

structure StaticRoute where
  uuid : String
  ipPrefix : String
  nexthop : String

instance : OvnCommon StaticRoute where
  uuid := StaticRoute.uuid
  ovnType := typeLogicalRouterStaticRoute
  deserialize := fun value => do
    let object ← deserializeObject value
    let uuid ← deserializeUuid object
    let ipPrefix ← deserializeString object "ip_prefix"
    let nexthop ← deserializeString object "nexthop"
    return ⟨uuid, ipPrefix, nexthop⟩

structure LogicalRouter where
  uuid : String
  name : String
  staticRouteUuids : List String

/-- The parser of `static_routes` within `LogicalRouter::deserialize` -/
def deserializeRouteSet (object : Fields) : Prog (List String) := do
  let routeSet ← orDeserializationFailed do
    let a ← object.lookup "static_routes"
    let a ← a.asArray
    a[1]?
  match routeSet with
  | .str uuid => return [uuid]
  | .arr uuidsArrays => Program.collect uuidsArrays fun item => do
      let row ← expect item.asArray "Row was not an array like ['uuid', uuid]"
      let u ← expect row[1]? "index out of bounds"
      expect u.asStr "UUID was not a string"
  | _ => .abort "Unexpected data type"

instance : OvnNamed LogicalRouter where
  uuid := LogicalRouter.uuid
  ovnType := typeLogicalRouter
  deserialize := fun value => do
    let object ← deserializeObject value
    let routeUuids ← deserializeRouteSet object
    let uuid ← deserializeUuid object
    let name ← deserializeString object "name"
    return ⟨uuid, name, routeUuids⟩
  name := LogicalRouter.name

structure LogicalRouterPort where
  uuid : String
  name : String

instance : OvnNamed LogicalRouterPort where
  uuid := LogicalRouterPort.uuid
  ovnType := typeLogicalRouterPort
  deserialize := fun value => do
    let object ← deserializeObject value
    let uuid ← deserializeUuid object
    let name ← deserializeString object "name"
    return ⟨uuid, name⟩
  name := LogicalRouterPort.name

namespace LogicalRouter

def getRoutes (lr : LogicalRouter) : Prog (List StaticRoute) := do
  let allRoutes ← ovnList StaticRoute
  Program.collect lr.staticRouteUuids fun uuid =>
    expect (allRoutes.find? fun item => item.uuid = uuid)
      ("Unable to find static route " ++ uuid ++ " for " ++ lr.name)

/-- The inserts for routes to add, numbered from `i`, and the references to them. -/
def addRoutes : List Route → UInt8 → List Operation × List Ref
  | [], _ => ([], [])
  | route :: routes, i =>
    let id := "new_route_" ++ toString i.toNat
    let (operations, toAdd) := addRoutes routes (i + 1)
    (.insert typeLogicalRouterStaticRoute
        [("ip_prefix", .strings [route.cidr]), ("nexthop", .strings [route.nexthop])] (some id)
      :: operations, .named id :: toAdd)

def setRoutes (lr : LogicalRouter) (newRoutes : List Route) : Prog Unit := do
  let oldRoutes ← getRoutes lr
  let missing := newRoutes.filter fun newRoute => !oldRoutes.any fun oldRoute =>
    oldRoute.ipPrefix = newRoute.cidr && oldRoute.nexthop = newRoute.nexthop
  let (operations, toAdd) := addRoutes missing 0
  let obsolete := oldRoutes.filter fun oldRoute => !newRoutes.any fun newRoute =>
    newRoute.cidr = oldRoute.ipPrefix && newRoute.nexthop = oldRoute.nexthop
  let toRemove := obsolete.map fun oldRoute => Ref.uuid oldRoute.uuid
  let update : Operation := .mutate typeLogicalRouter lr.uuid
    [⟨"static_routes", true, toAdd⟩, ⟨"static_routes", false, toRemove⟩]
  let _ ← transact (operations ++ [update])

end LogicalRouter

namespace LogicalRouterPort

/-- `LogicalRouterPortBuilder::create` -/
def create (lr : LogicalRouter) (lrpName networks : String) : Prog LogicalRouterPort := do
  let _ ← transact [
    .insert typeLogicalRouterPort [("name", .strings [lrpName]),
      ("mac", .strings ["02:00:00:00:00:01"]), ("networks", .strings [networks])] (some "new_lrp"),
    .mutate typeLogicalRouter lr.uuid [⟨"ports", true, [.named "new_lrp"]⟩]]
  getByName LogicalRouterPort lrpName

/-- `LogicalRouterPortBuilder::create_if_missing` -/
def createIfMissing (lr : LogicalRouter) (lrpName networks : String) : Prog LogicalRouterPort :=
  orCreate (getByName LogicalRouterPort lrpName) (create lr lrpName networks)

def update (lrp : LogicalRouterPort) (networks : String) : Prog Unit := do
  let _ ← transact [.update typeLogicalRouterPort lrp.uuid [("name", .strings [lrp.name]),
    ("mac", .strings ["02:00:00:00:00:01"]), ("networks", .strings [networks])]]

end LogicalRouterPort

/-- Link a router and a switch by a port on each side. -/
def connectRouterToLs (router : LogicalRouter) (switch : LogicalSwitch) (address : String) :
    Prog Unit := do
  let lrpName := "lr_" ++ router.name ++ "_ls_" ++ switch.name
  let lrp ← LogicalRouterPort.createIfMissing router lrpName address
  lrp.update address
  let lspName := "ls_" ++ switch.name ++ "_lr_" ++ router.name
  let _ ← LogicalSwitchPort.createIfMissing switch lspName
    [("type", .strings ["router"]), ("addresses", .strings ["router"]),
      ("options", .map [("router-port", lrpName)])]

end ClusterController
