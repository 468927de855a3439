import MetalBond.State

namespace MetalBond

open Collections

inductive AddressFamily
  | unspec
  | inet
  | inet6
  | other (code : UInt8)
  deriving DecidableEq

structure RouteProtocol where
  code : UInt8
  deriving DecidableEq

inductive RouteScope
  | universe
  | other (code : UInt8)
  deriving DecidableEq

inductive RouteType
  | unspec
  | unicast
  | other (code : UInt8)
  deriving DecidableEq

inductive RouteAttribute
  | destination (addr : IpAddr)
  | oif (index : UInt32)
  | gateway (addr : IpAddr)
  | other (kind : UInt16) (value : List UInt8)
  deriving DecidableEq

structure RouteHeader where
  addressFamily : AddressFamily
  destinationPrefixLength : UInt8
  sourcePrefixLength : UInt8
  tos : UInt8
  table : UInt8
  protocol : RouteProtocol
  scope : RouteScope
  kind : RouteType
  flags : UInt32
  deriving DecidableEq

structure RouteMessage where
  header : RouteHeader
  attributes : List RouteAttribute
  deriving DecidableEq

instance : Inhabited RouteMessage :=
  ⟨⟨.unspec, 0, 0, 0, 0, ⟨0⟩, .universe, .unspec, 0⟩, []⟩

def metalbondRtProto : UInt8 := 254

def RouteAttribute.outputInterface : RouteAttribute → Option UInt32
  | oif index => some index
  | _ => none

def RouteMessage.outputInterface (route : RouteMessage) : Option UInt32 :=
  route.attributes.findSome? RouteAttribute.outputInterface

/-- Octet `i` of the netmask of a prefix. -/
def maskOctet (prefixLen i : ℕ) : UInt8 := .ofNat (256 - 2 ^ (8 - (prefixLen - 8 * i)))

def networkOctets {n : ℕ} (octets : List.Vector UInt8 n) (prefixLen : UInt8) :
    List.Vector UInt8 n :=
  .ofFn fun i ↦ octets.get i &&& maskOctet prefixLen.toNat i

def Ipv4Net.network (net : Ipv4Net) : Ipv4Addr := ⟨networkOctets net.addr.octets net.prefixLen⟩

def Ipv6Net.network (net : Ipv6Net) : Ipv6Addr := ⟨networkOctets net.addr.octets net.prefixLen⟩

def IpNet.network : IpNet → IpAddr
  | v4 net => .v4 net.network
  | v6 net => .v6 net.network

inductive RtnetlinkError
  | netlinkError (code : Option Int32)
  | unexpectedMessage (msg : String)
  | requestFailed
  | namespaceError (err : String)
  | other (err : String)
  deriving DecidableEq

/-- What a kernel in a state answers to the requests of a client. -/
structure Rtnetlink (σ : Type) where
  link : String → σ → Except RtnetlinkError (Option UInt32)
  /-- The routes that a dump yields, and how its stream ends. -/
  get : IpVersion → σ → List RouteMessage × Except RtnetlinkError Unit
  add : RouteMessage → σ → Except RtnetlinkError Unit × σ
  del : RouteMessage → σ → Except RtnetlinkError Unit × σ

inductive NetlinkError
  | linkQuery (e : RtnetlinkError)
  | linkNotFound (name : String)
  | noRouteTable (vni : Vni)
  | invalidTableId (tableId : Int32) (vni : Vni)
  | dump (e : RtnetlinkError)
  | delete (version : IpVersion) (e : RtnetlinkError)
  | clear (vni : Vni) (tableId : Int32) (cause : NetlinkError)
  | add (dest : Destination) (tableId : Int32) (e : RtnetlinkError)
  | remove (dest : Destination) (tableId : Int32) (e : RtnetlinkError)
  | unexpectedMessage (msg : String)
  | requestFailed (dest : Destination)
  | namespaceError (err : String)
  | unhandled (dest : Destination) (e : RtnetlinkError)
  deriving DecidableEq

structure NetlinkClientConfig where
  vniTableMap : HashMap Vni Int32
  linkName : String
  ipv4Only : Bool

structure NetlinkClient where
  config : NetlinkClientConfig
  tunIndex : UInt32

namespace NetlinkClient

variable {σ : Type} (net : Rtnetlink σ)

def clearable (tableId linkIndex : UInt32) (route : RouteMessage) : Bool :=
  route.header.table = tableId.toUInt8
    ∧ route.header.protocol = ⟨metalbondRtProto⟩
    ∧ route.outputInterface = some linkIndex

def clearDumped (version : IpVersion) (tableId linkIndex : UInt32)
    (rest : Except RtnetlinkError Unit) : List RouteMessage → σ → Except NetlinkError Unit × σ
  | [], k => (rest.mapError .dump, k)
  | route :: routes, k =>
    if clearable tableId linkIndex route then
      match net.del route k with
      | (.ok _, k) => clearDumped version tableId linkIndex rest routes k
      | (.error e, k) => (.error (.delete version e), k)
    else clearDumped version tableId linkIndex rest routes k

def clearMetalbondRoutes (tableId linkIndex : UInt32) (k : σ) : Except NetlinkError Unit × σ :=
  let routesV4 := net.get .v4 k
  let routesV6 := net.get .v6 k
  match clearDumped net .v4 tableId linkIndex routesV4.2 routesV4.1 k with
  | (.error e, k) => (.error e, k)
  | (.ok _, k) => clearDumped net .v6 tableId linkIndex routesV6.2 routesV6.1 k

def clearEntry (tunIndex : UInt32) (vni : Vni) (tableId : Int32) (k : σ) :
    Except NetlinkError Unit × σ :=
  if tableId ≤ 0 then (.ok (), k)
  else
    match clearMetalbondRoutes net tableId.toUInt32 tunIndex k with
    | (.ok _, k) => (.ok (), k)
    | (.error e, k) => (.error (.clear vni tableId e), k)

def clearEntries (tunIndex : UInt32) (map : HashMap Vni Int32) :
    List Vni → σ → Except NetlinkError Unit × σ
  | [], k => (.ok (), k)
  | vni :: vnis, k =>
    match clearEntry net tunIndex vni ((map.lookup vni).getD 0) k with
    | (.ok _, k) => clearEntries tunIndex map vnis k
    | (.error e, k) => (.error e, k)

def new (ord : HashOrder) (config : NetlinkClientConfig) (k : σ) :
    Except NetlinkError NetlinkClient × σ :=
  match net.link config.linkName k with
  | .error e => (.error (.linkQuery e), k)
  | .ok none => (.error (.linkNotFound config.linkName), k)
  | .ok (some tunIndex) =>
    match clearEntries net tunIndex config.vniTableMap (ord.list config.vniTableMap.keys) k with
    | (.ok _, k) => (.ok ⟨config, tunIndex⟩, k)
    | (.error e, k) => (.error e, k)

variable (self : NetlinkClient)

def addressFamily (dest : Destination) : AddressFamily :=
  match dest.ipVersion with
  | .v4 => .inet
  | .v6 => .inet6

def gateway : IpAddr → List RouteAttribute
  | .v4 _ => []
  | .v6 addr => [.gateway (.v6 addr)]

def buildRouteMessage (tableId : Int32) (dest : Destination) (nexthopIp : IpAddr) :
    RouteMessage where
  header := {
    (default : RouteMessage).header with
    addressFamily := addressFamily dest
    destinationPrefixLength := dest.net.prefixLen
    table := tableId.toInt8.toUInt8
    protocol := ⟨metalbondRtProto⟩
    scope := .universe
    kind := .unicast }
  attributes := [.destination dest.net.network, .oif self.tunIndex] ++ gateway nexthopIp

/-- The checks that begin every call for a VNI. -/
def tableOf (vni : Vni) : Except NetlinkError Int32 :=
  match self.config.vniTableMap.lookup vni with
  | none => .error (.noRouteTable vni)
  | some tableId => if tableId ≤ 0 then .error (.invalidTableId tableId vni) else .ok tableId

/-- The table and the message of a call for a route, or `none` where the call skips it. -/
def request (vni : Vni) (dest : Destination) (nexthop : NextHop) :
    Except NetlinkError (Option (Int32 × RouteMessage)) :=
  if self.config.ipv4Only ∧ dest.ipVersion ≠ .v4 then .ok none
  else
    match self.tableOf vni with
    | .error e => .error e
    | .ok tableId =>
      if nexthop.hopType ≠ .standard then .ok none
      else .ok (some (tableId, self.buildRouteMessage tableId dest nexthop.targetAddress))

def addRoute (vni : Vni) (dest : Destination) (nexthop : NextHop) (k : σ) :
    Except NetlinkError Unit × σ :=
  match self.request vni dest nexthop with
  | .error e => (.error e, k)
  | .ok none => (.ok (), k)
  | .ok (some (tableId, routeMessage)) =>
    let reply := net.add routeMessage k
    (reply.1.mapError (.add dest tableId), reply.2)

def enoent : Int32 := 2

def removalResult (dest : Destination) (tableId : Int32) :
    Except RtnetlinkError Unit → Except NetlinkError Unit
  | .ok _ => .ok ()
  | .error (.netlinkError code) =>
    if code = some enoent then .ok () else .error (.remove dest tableId (.netlinkError code))
  | .error (.unexpectedMessage msg) => .error (.unexpectedMessage msg)
  | .error .requestFailed => .error (.requestFailed dest)
  | .error (.namespaceError err) => .error (.namespaceError err)
  | .error e => .error (.unhandled dest e)

def removeRoute (vni : Vni) (dest : Destination) (nexthop : NextHop) (k : σ) :
    Except NetlinkError Unit × σ :=
  match self.request vni dest nexthop with
  | .error e => (.error e, k)
  | .ok none => (.ok (), k)
  | .ok (some (tableId, routeMessage)) =>
    let reply := net.del routeMessage k
    (removalResult dest tableId reply.1, reply.2)

def clearRoutesForVni (vni : Vni) (k : σ) : Except NetlinkError Unit × σ :=
  match self.tableOf vni with
  | .error e => (.error e, k)
  | .ok tableId =>
    match clearMetalbondRoutes net tableId.toUInt32 self.tunIndex k with
    | (.ok _, k) => (.ok (), k)
    | (.error e, k) => (.error (.clear vni tableId e), k)

def handle : ClientCall → σ → Except NetlinkError Unit × σ
  | .addRoute vni dest nh => self.addRoute net vni dest nh
  | .removeRoute vni dest nh => self.removeRoute net vni dest nh
  | .clearRoutesForVni vni => self.clearRoutesForVni net vni

def kernelAfter (calls : List ClientCall) (k : σ) : σ :=
  calls.foldl (fun k call ↦ (self.handle net call k).2) k

/-- The client as the node sees it, over a kernel that starts in the state `k`. -/
def toClient (k : σ) : Client where
  calls := []
  succeeds calls call := (self.handle net call (self.kernelAfter net calls k)).1.isOk

end NetlinkClient

inductive MappingError
  | malformed (mapping : String)
  | vni (part : List Char)
  | tableId (part : List Char)
  | invalidTableId (tableId : Int32) (mapping : String)
  deriving DecidableEq

def digitsToNat (digits : List Char) : Option ℕ :=
  if digits ≠ [] ∧ digits.all Char.isDigit then
    some (digits.foldl (fun n c ↦ 10 * n + (c.toNat - '0'.toNat)) 0)
  else none

def vniFromStr : List Char → Option Vni
  | '+' :: digits => checked digits
  | digits => checked digits
where
  checked (digits : List Char) : Option Vni :=
    (digitsToNat digits).bind fun n ↦ if n < UInt32.size then some (.ofNat n) else none

def i32FromStr : List Char → Option Int32
  | '+' :: digits => checked 1 digits
  | '-' :: digits => checked (-1) digits
  | digits => checked 1 digits
where
  checked (sign : ℤ) (digits : List Char) : Option Int32 :=
    (digitsToNat digits).bind fun n ↦
      if Int32.minValue.toInt ≤ sign * n ∧ sign * n ≤ Int32.maxValue.toInt then
        some (.ofInt (sign * n))
      else none

def parseMapping (mapping : String) : Except MappingError (Vni × Int32) :=
  match mapping.toList.splitOn '#' with
  | [first, second] =>
    match vniFromStr first, i32FromStr second with
    | none, _ => .error (.vni first)
    | some _, none => .error (.tableId second)
    | some vni, some tableId =>
      if tableId ≤ 0 then .error (.invalidTableId tableId mapping) else .ok (vni, tableId)
  | _ => .error (.malformed mapping)

def installRoutes (vniTableMap : HashMap Vni Int32) :
    List String → Except MappingError (HashMap Vni Int32)
  | [] => .ok vniTableMap
  | mapping :: mappings => do
    let (vni, tableId) ← parseMapping mapping
    installRoutes (vniTableMap.insert vni tableId) mappings

end MetalBond
