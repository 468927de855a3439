import Mathlib.Data.Vector.Basic

namespace MetalBond

abbrev Vni := UInt32

inductive IpVersion
  | v4
  | v6
  deriving DecidableEq

structure Ipv4Addr where
  octets : List.Vector UInt8 4
  deriving DecidableEq

structure Ipv6Addr where
  octets : List.Vector UInt8 16
  deriving DecidableEq

inductive IpAddr
  | v4 (addr : Ipv4Addr)
  | v6 (addr : Ipv6Addr)
  deriving DecidableEq

structure Ipv4Net where
  addr : Ipv4Addr
  prefixLen : UInt8
  prefixLen_le : prefixLen ≤ 32
  deriving DecidableEq

structure Ipv6Net where
  addr : Ipv6Addr
  prefixLen : UInt8
  prefixLen_le : prefixLen ≤ 128
  deriving DecidableEq

inductive IpNet
  | v4 (net : Ipv4Net)
  | v6 (net : Ipv6Net)
  deriving DecidableEq

def IpNet.addr : IpNet → IpAddr
  | v4 net => .v4 net.addr
  | v6 net => .v6 net.addr

def IpNet.prefixLen : IpNet → UInt8
  | v4 net => net.prefixLen
  | v6 net => net.prefixLen

/-- The address of a socket; flow label and scope take part in its equality. -/
inductive SocketAddr
  | v4 (ip : Ipv4Addr) (port : UInt16)
  | v6 (ip : Ipv6Addr) (port : UInt16) (flowinfo scopeId : UInt32)
  deriving DecidableEq

structure Destination where
  net : IpNet
  deriving DecidableEq

def Destination.ipVersion (dest : Destination) : IpVersion :=
  match dest.net with
  | .v4 _ => .v4
  | .v6 _ => .v6

inductive NextHopType
  | standard
  | nat
  | loadbalancerTarget
  deriving DecidableEq

structure NextHop where
  targetAddress : IpAddr
  targetVni : UInt32
  hopType : NextHopType
  natPortRangeFrom : UInt16
  natPortRangeTo : UInt16
  deriving DecidableEq

inductive ConnectionDirection
  | incoming
  | outgoing
  deriving DecidableEq

inductive ConnectionState
  | connecting
  | helloSent
  | helloReceived
  | established
  | retry
  | closed
  deriving DecidableEq

inductive UpdateAction
  | add
  | remove
  deriving DecidableEq

/-- A span of time in nanoseconds; its whole seconds fit a `u64`. -/
structure Duration where
  nanos : ℕ
  nanos_lt : nanos < 2 ^ 64 * 10 ^ 9
  deriving DecidableEq

namespace Duration

def fromSecs (secs : UInt64) : Duration :=
  ⟨secs.toNat * 10 ^ 9, Nat.mul_lt_mul_of_pos_right secs.toNat_lt (by decide)⟩

def asSecs (d : Duration) : UInt64 := .ofNat (d.nanos / 10 ^ 9)

/-- Multiplication panics on overflow. -/
def mul (d : Duration) (k : ℕ) : Option Duration :=
  if h : d.nanos * k < 2 ^ 64 * 10 ^ 9 then some ⟨d.nanos * k, h⟩ else none

def div (d : Duration) (k : ℕ) : Duration :=
  ⟨d.nanos / k, (Nat.div_le_self _ _).trans_lt d.nanos_lt⟩

end Duration

structure Config where
  keepaliveInterval : Duration
  retryIntervalMin : Duration
  retryIntervalMax : Duration

instance : Inhabited Config := ⟨.fromSecs 5, .fromSecs 5, .fromSecs 10⟩

/-- A route as it travels between the tasks of one node. -/
structure InternalUpdate where
  action : UpdateAction
  vni : Vni
  destination : Destination
  nextHop : NextHop
  sourcePeer : Option SocketAddr
  deriving DecidableEq

inductive Error
  | vniNotFound (vni : Vni)
  | destinationNotFound (dest : Destination) (vni : Vni)
  | nextHopNotFound (nh : NextHop) (dest : Destination)
  | peerNotFound (receivedFrom : Option SocketAddr) (nh : NextHop)
  | invalidAddressLength (len : ℕ)
  | prefixLen
  | unknownEnumValue (value : Int32)
  | missingDestination
  | missingNextHop
  | txChannelFull
  | txChannelClosed
  | zeroKeepaliveInterval
  | keepaliveInWrongState
  | invalidServerAddress (addr : String)
  | invalidPeerAddress (addr : String)
  | addPeerInServerMode
  | alreadyAdded (addr : SocketAddr)
  | subscribeInServerMode
  | unsubscribeInServerMode
  | announcementNotSent
  | withdrawalNotSent
  | client
  /-- An error with the context that a caller added to it. -/
  | context (message : String) (cause : Error)
  deriving DecidableEq

def withContext {α : Type} (message : String) : Except Error α → Except Error α
  | .ok a => .ok a
  | .error e => .error (.context message e)

end MetalBond
