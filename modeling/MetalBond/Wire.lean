import MetalBond.Types

namespace MetalBond

namespace Pb

structure Hello where
  keepaliveInterval : UInt32
  isServer : Bool
  deriving DecidableEq

structure Subscription where
  vni : UInt32
  deriving DecidableEq

structure Destination where
  ipVersion : Int32
  prefixBytes : List UInt8
  prefixLength : UInt32
  deriving DecidableEq

structure NextHop where
  targetAddress : List UInt8
  targetVni : UInt32
  type : Int32
  natPortRangeFrom : UInt32
  natPortRangeTo : UInt32
  deriving DecidableEq

structure Update where
  action : Int32
  vni : UInt32
  destination : Option Destination
  nextHop : Option NextHop
  deriving DecidableEq

end Pb

inductive GeneratedMessage
  | hello (msg : Pb.Hello)
  | keepalive
  | subscribe (msg : Pb.Subscription)
  | unsubscribe (msg : Pb.Subscription)
  | update (msg : Pb.Update)
  deriving DecidableEq

def UpdateAction.toI32 : UpdateAction → Int32
  | add => 0
  | remove => 1

def UpdateAction.tryFrom (value : Int32) : Except Error UpdateAction :=
  if value = 0 then .ok .add
  else if value = 1 then .ok .remove
  else .error (.unknownEnumValue value)

def NextHopType.toI32 : NextHopType → Int32
  | standard => 0
  | nat => 1
  | loadbalancerTarget => 2

def NextHopType.tryFrom (value : Int32) : Except Error NextHopType :=
  if value = 0 then .ok .standard
  else if value = 1 then .ok .nat
  else if value = 2 then .ok .loadbalancerTarget
  else .error (.unknownEnumValue value)

def IpVersion.toI32 : IpVersion → Int32
  | v4 => 0
  | v6 => 1

@[simp] theorem UpdateAction.tryFrom_toI32 (a : UpdateAction) : tryFrom a.toI32 = .ok a := by
  cases a <;> rfl

@[simp] theorem NextHopType.tryFrom_toI32 (t : NextHopType) : tryFrom t.toI32 = .ok t := by
  cases t <;> rfl

def IpAddr.addrBytesVec : IpAddr → List UInt8
  | v4 addr => addr.octets.toList
  | v6 addr => addr.octets.toList

def IpAddr.fromSlice (slice : List UInt8) : Except Error IpAddr :=
  if h : slice.length = 4 then .ok (.v4 ⟨⟨slice, h⟩⟩)
  else if h : slice.length = 16 then .ok (.v6 ⟨⟨slice, h⟩⟩)
  else .error (.invalidAddressLength slice.length)

@[simp] theorem IpAddr.fromSlice_addrBytesVec (a : IpAddr) : fromSlice a.addrBytesVec = .ok a := by
  rcases a with ⟨⟨o, h⟩⟩ | ⟨⟨o, h⟩⟩
  · simp [fromSlice, addrBytesVec, List.Vector.toList, h]
  · simp [fromSlice, addrBytesVec, List.Vector.toList, h]

theorem IpAddr.length_addrBytesVec_le (a : IpAddr) : a.addrBytesVec.length ≤ 16 := by
  rcases a with ⟨⟨o, h⟩⟩ | ⟨⟨o, h⟩⟩
  · exact h.le.trans (by omega)
  · exact h.le

def IpNet.new (addr : IpAddr) (len : UInt8) : Except Error IpNet :=
  match addr with
  | .v4 addr => if h : len ≤ 32 then .ok (.v4 ⟨addr, len, h⟩) else .error .prefixLen
  | .v6 addr => if h : len ≤ 128 then .ok (.v6 ⟨addr, len, h⟩) else .error .prefixLen

@[simp] theorem IpNet.new_addr_prefixLen (net : IpNet) : new net.addr net.prefixLen = .ok net := by
  rcases net with ⟨a, l, h⟩ | ⟨a, l, h⟩
  · simp [new, addr, prefixLen, h]
  · simp [new, addr, prefixLen, h]

def Destination.tryFrom (pb : Pb.Destination) : Except Error Destination := do
  let addr ← IpAddr.fromSlice pb.prefixBytes
  let len := pb.prefixLength.toUInt8
  let net ← IpNet.new addr len
  return ⟨net⟩

def Destination.toPb (dest : Destination) : Pb.Destination where
  ipVersion := dest.ipVersion.toI32
  prefixBytes := dest.net.addr.addrBytesVec
  prefixLength := dest.net.prefixLen.toUInt32

/-- An unknown hop type is read as a standard one. -/
def NextHop.tryFrom (pb : Pb.NextHop) : Except Error NextHop := do
  let targetAddress ← IpAddr.fromSlice pb.targetAddress
  let hopType := match NextHopType.tryFrom pb.type with
    | .ok t => t
    | .error _ => .standard
  return {
    targetAddress := targetAddress
    targetVni := pb.targetVni
    hopType := hopType
    natPortRangeFrom := pb.natPortRangeFrom.toUInt16
    natPortRangeTo := pb.natPortRangeTo.toUInt16 }

def NextHop.toPb (nh : NextHop) : Pb.NextHop where
  targetAddress := nh.targetAddress.addrBytesVec
  targetVni := nh.targetVni
  type := nh.hopType.toI32
  natPortRangeFrom := nh.natPortRangeFrom.toUInt32
  natPortRangeTo := nh.natPortRangeTo.toUInt32

@[simp] theorem Destination.tryFrom_toPb (dest : Destination) : tryFrom dest.toPb = .ok dest := by
  simp [tryFrom, toPb, pure, Except.pure, bind, Except.bind]

@[simp] theorem NextHop.tryFrom_toPb (nh : NextHop) : tryFrom nh.toPb = .ok nh := by
  simp [tryFrom, toPb, pure, Except.pure, bind, Except.bind]

def updateMessage (action : UpdateAction) (vni : Vni) (dest : Destination) (nh : NextHop) :
    GeneratedMessage :=
  .update {
    action := action.toI32
    vni := vni
    destination := some dest.toPb
    nextHop := some nh.toPb }

/-- What `process_update` reads off a message before it looks at any table. -/
def parseUpdate (update : Pb.Update) :
    Except Error (UpdateAction × Vni × Destination × NextHop) := do
  let vni := update.vni
  let action ← UpdateAction.tryFrom update.action
  let pbDest ← update.destination.elim (.error .missingDestination) .ok
  let pbNh ← update.nextHop.elim (.error .missingNextHop) .ok
  let dest ← withContext "Invalid destination format" (Destination.tryFrom pbDest)
  let nh ← withContext "Invalid nexthop format" (NextHop.tryFrom pbNh)
  return (action, vni, dest, nh)

theorem parseUpdate_updateMessage (action : UpdateAction) (vni : Vni) (dest : Destination)
    (nh : NextHop) : parseUpdate ⟨action.toI32, vni, some dest.toPb, some nh.toPb⟩ =
      .ok (action, vni, dest, nh) := by
  simp [parseUpdate, withContext, pure, Except.pure, bind, Except.bind]

def GeneratedMessage.route? : GeneratedMessage → Option (UpdateAction × Vni × Destination × NextHop)
  | update msg => (parseUpdate msg).toOption
  | _ => none

@[simp] theorem route?_updateMessage (action : UpdateAction) (vni : Vni) (dest : Destination)
    (nh : NextHop) : (updateMessage action vni dest nh).route? = some (action, vni, dest, nh) := by
  simp [GeneratedMessage.route?, updateMessage, parseUpdate_updateMessage, Except.toOption]

end MetalBond
