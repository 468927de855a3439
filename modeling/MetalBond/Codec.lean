import MetalBond.Streams.Decoder
import MetalBond.Wire

namespace MetalBond

open Streams

abbrev Bytes := List UInt8

inductive MessageType
  | hello
  | keepalive
  | subscribe
  | unsubscribe
  | update
  deriving DecidableEq

def MessageType.toU8 : MessageType → UInt8
  | hello => 1
  | keepalive => 2
  | subscribe => 3
  | unsubscribe => 4
  | update => 5

def MessageType.tryFrom (value : UInt8) : Except UInt8 MessageType :=
  if value = 1 then .ok .hello
  else if value = 2 then .ok .keepalive
  else if value = 3 then .ok .subscribe
  else if value = 4 then .ok .unsubscribe
  else if value = 5 then .ok .update
  else .error value

@[simp] theorem MessageType.tryFrom_toU8 (t : MessageType) : tryFrom t.toU8 = .ok t := by
  cases t <;> rfl

/-- How one kind of message is written and read; `ε` is what reading can fail with. -/
structure ProstMessage (ε α : Type) where
  encodeToVec : α → Bytes
  decode : Bytes → Except ε α

/-- The code that is generated for the messages of `metalbond.proto`. -/
structure Prost (ε : Type) where
  hello : ProstMessage ε Pb.Hello
  subscription : ProstMessage ε Pb.Subscription
  update : ProstMessage ε Pb.Update

/-- The most bytes that a vector holds. -/
def maxVecLen : ℕ := 2 ^ 63 - 1

structure Prost.Lawful {ε : Type} (p : Prost ε) : Prop where
  hello : ∀ m, (p.hello.encodeToVec m).length ≤ maxVecLen →
    p.hello.decode (p.hello.encodeToVec m) = .ok m
  subscription : ∀ m, (p.subscription.encodeToVec m).length ≤ maxVecLen →
    p.subscription.decode (p.subscription.encodeToVec m) = .ok m
  update : ∀ m, (p.update.encodeToVec m).length ≤ maxVecLen →
    p.update.decode (p.update.encodeToVec m) = .ok m

/-- An update whose addresses are no longer than sixteen bytes takes few bytes: in the
protocol buffers encoding each of its numbers has its maximal length. -/
def Prost.Compact {ε : Type} (p : Prost ε) : Prop :=
  ∀ u d nh, u.destination = some d → u.nextHop = some nh → d.prefixBytes.length ≤ 16 →
    nh.targetAddress.length ≤ 16 → (p.update.encodeToVec u).length ≤ 103

/-- So do a HELLO and a subscription, which have a number each, and a flag. -/
structure Prost.Short {ε : Type} (p : Prost ε) : Prop where
  hello : ∀ m, (p.hello.encodeToVec m).length ≤ 8
  subscription : ∀ m, (p.subscription.encodeToVec m).length ≤ 6

variable {ε : Type} (p : Prost ε)

def GeneratedMessage.fromBytes (msgType : MessageType) (bytes : Bytes) :
    Except ε GeneratedMessage :=
  match msgType with
  | .hello => (p.hello.decode bytes).map .hello
  | .keepalive => .ok .keepalive
  | .subscribe => (p.subscription.decode bytes).map .subscribe
  | .unsubscribe => (p.subscription.decode bytes).map .unsubscribe
  | .update => (p.update.decode bytes).map .update

def GeneratedMessage.intoTypedBytes : GeneratedMessage → MessageType × Bytes
  | hello msg => (.hello, p.hello.encodeToVec msg)
  | keepalive => (.keepalive, [])
  | subscribe msg => (.subscribe, p.subscription.encodeToVec msg)
  | unsubscribe msg => (.unsubscribe, p.subscription.encodeToVec msg)
  | update msg => (.update, p.update.encodeToVec msg)

theorem GeneratedMessage.fromBytes_intoTypedBytes {p : Prost ε} (hp : p.Lawful)
    {m : GeneratedMessage} (hlen : (m.intoTypedBytes p).2.length ≤ maxVecLen) :
    fromBytes p (m.intoTypedBytes p).1 (m.intoTypedBytes p).2 = .ok m := by
  cases m with
  | hello msg => exact congrArg (Except.map _) (hp.hello msg hlen)
  | keepalive => rfl
  | subscribe msg => exact congrArg (Except.map _) (hp.subscription msg hlen)
  | unsubscribe msg => exact congrArg (Except.map _) (hp.subscription msg hlen)
  | update msg => exact congrArg (Except.map _) (hp.update msg hlen)

namespace MetalBondCodec

def metalbondVersion : UInt8 := 1

def maxMessageLen : ℕ := 1188

inductive CodecError (ε : Type)
  | messageTooLong (len max : ℕ)
  | incompatibleVersion (version : UInt8)
  | invalidMessageType (byte : UInt8)
  | decode (cause : ε)
  deriving DecidableEq

inductive Fault (ε : Type)
  | panic
  | error (e : CodecError ε)
  deriving DecidableEq

abbrev OnBuffer (ε α : Type) := ExceptT (Fault ε) (StateM Bytes) α

def OnBuffer.on {α : Type} (code : OnBuffer ε α) (buf : Bytes) : Except (Fault ε) α × Bytes :=
  StateT.run (ExceptT.run code) buf

section On

variable {α β : Type} (buf : Bytes)

theorem on_pure (a : α) : (pure a : OnBuffer ε α).on buf = (.ok a, buf) := rfl

theorem on_throw (e : Fault ε) : (throw e : OnBuffer ε α).on buf = (.error e, buf) := rfl

theorem on_get : (get : OnBuffer ε Bytes).on buf = (.ok buf, buf) := rfl

theorem on_set (buf' : Bytes) : (set buf' : OnBuffer ε PUnit).on buf = (.ok ⟨⟩, buf') := rfl

theorem on_bind (x : OnBuffer ε α) (f : α → OnBuffer ε β) :
    (x >>= f).on buf = match x.on buf with
      | (.ok a, buf') => (f a).on buf'
      | (.error e, buf') => (.error e, buf') := by
  have hrun : (x >>= f).on buf = StateT.run (ExceptT.bindCont f (x.on buf).1) (x.on buf).2 := rfl
  rw [hrun]
  match x.on buf with
  | (.ok a, buf') => rfl
  | (.error e, buf') => rfl

end On

def extendFromSlice (bytes : Bytes) : OnBuffer ε Unit := modify (· ++ bytes)

def byteAt (i : ℕ) : OnBuffer ε UInt8 := do
  match (← get)[i]? with
  | some b => return b
  | none => throw .panic

def splitTo (n : ℕ) : OnBuffer ε Bytes := do
  let src ← get
  if n ≤ src.length then
    set (src.drop n)
    return src.take n
  else
    throw .panic

/-- Make room for a number of bytes; computing that number must not underflow. -/
def reserveDifference (needed len : ℕ) : OnBuffer ε Unit :=
  if len ≤ needed then return () else throw .panic

def encode (item : GeneratedMessage) : OnBuffer ε Unit := do
  let (msgType, msgBytes) := item.intoTypedBytes p
  let msgLen := msgBytes.length
  if msgLen > maxMessageLen then
    throw (.error (.messageTooLong msgLen maxMessageLen))
  else
    extendFromSlice
      [metalbondVersion, (msgLen >>> 8).toUInt8, (msgLen &&& 0xFF).toUInt8, msgType.toU8]
    extendFromSlice msgBytes

def decode : OnBuffer ε (Option GeneratedMessage) := do
  let len := (← get).length
  if len < 4 then
    return none
  else
    let version ← byteAt 0
    if version ≠ metalbondVersion then
      throw (.error (.incompatibleVersion version))
    else
      let high ← byteAt 1
      let low ← byteAt 2
      let msgLen := high.toNat <<< 8 ||| low.toNat
      let msgTypeByte ← byteAt 3
      if len < 4 + msgLen then
        reserveDifference (4 + msgLen) len
        return none
      else
        let _header ← splitTo 4
        let msgBytes ← splitTo msgLen
        match MessageType.tryFrom msgTypeByte with
        | .error byte => throw (.error (.invalidMessageType byte))
        | .ok msgType =>
          match GeneratedMessage.fromBytes p msgType msgBytes with
          | .error e => throw (.error (.decode e))
          | .ok msg => return some msg

def announced (high low : UInt8) : ℕ := high.toNat * 256 + low.toNat

theorem announced_eq (high low : UInt8) : high.toNat <<< 8 ||| low.toNat = announced high low := by
  rw [announced, ← Nat.shiftLeft_add_eq_or_of_lt low.toNat_lt, Nat.shiftLeft_eq]

def frameResult (typeByte : UInt8) (body : Bytes) :
    Except (Fault ε) (Option GeneratedMessage) :=
  match MessageType.tryFrom typeByte with
  | .error byte => .error (.error (.invalidMessageType byte))
  | .ok msgType =>
    match GeneratedMessage.fromBytes p msgType body with
    | .error e => .error (.error (.decode e))
    | .ok msg => .ok (some msg)

theorem frameResult_ne_none (typeByte : UInt8) (body : Bytes) :
    frameResult p typeByte body ≠ .ok none := by
  unfold frameResult
  split
  · nofun
  · split <;> nofun

theorem encode_on (item : GeneratedMessage) (dst : Bytes) :
    (encode p item).on dst =
      if (item.intoTypedBytes p).2.length > maxMessageLen then
        (.error (.error (.messageTooLong (item.intoTypedBytes p).2.length maxMessageLen)), dst)
      else (.ok (), dst ++ [metalbondVersion, ((item.intoTypedBytes p).2.length >>> 8).toUInt8,
        ((item.intoTypedBytes p).2.length &&& 0xFF).toUInt8, (item.intoTypedBytes p).1.toU8] ++
          (item.intoTypedBytes p).2) := by
  by_cases h : (item.intoTypedBytes p).2.length > maxMessageLen
  · simp only [encode, h, if_true]
    rfl
  · simp only [encode, h, if_false]
    rfl

theorem on_byteAt {src : Bytes} {i : ℕ} {b : UInt8} (h : src[i]? = some b) :
    (byteAt i : OnBuffer ε UInt8).on src = (.ok b, src) := by
  simp only [byteAt, on_bind, on_get, h, on_pure]

theorem on_splitTo {src : Bytes} {n : ℕ} (h : n ≤ src.length) :
    (splitTo n : OnBuffer ε Bytes).on src = (.ok (src.take n), src.drop n) := by
  simp only [splitTo, on_bind, on_get, h, if_true, on_set, on_pure]

theorem on_reserveDifference {src : Bytes} {needed len : ℕ} (h : len ≤ needed) :
    (reserveDifference needed len : OnBuffer ε Unit).on src = (.ok (), src) := by
  simp only [reserveDifference, h, if_true, on_pure]

theorem decode_short {src : Bytes} (h : src.length < 4) : (decode p).on src = (.ok none, src) := by
  simp only [decode, on_bind, on_get, h, if_true, on_pure]

theorem decode_header (version high low typeByte : UInt8) (rest : Bytes) :
    (decode p).on (version :: high :: low :: typeByte :: rest) =
      if version ≠ metalbondVersion then
        (.error (.error (.incompatibleVersion version)),
          version :: high :: low :: typeByte :: rest)
      else if rest.length < announced high low then
        (.ok none, version :: high :: low :: typeByte :: rest)
      else (frameResult p typeByte (rest.take (announced high low)),
        rest.drop (announced high low)) := by
  have hlong : ¬ (version :: high :: low :: typeByte :: rest).length < 4 := by simp
  have hbyte₀ : (byteAt 0 : OnBuffer ε UInt8).on (version :: high :: low :: typeByte :: rest) =
      (.ok version, version :: high :: low :: typeByte :: rest) := on_byteAt rfl
  have hbyte₁ : (byteAt 1 : OnBuffer ε UInt8).on (version :: high :: low :: typeByte :: rest) =
      (.ok high, version :: high :: low :: typeByte :: rest) := on_byteAt rfl
  have hbyte₂ : (byteAt 2 : OnBuffer ε UInt8).on (version :: high :: low :: typeByte :: rest) =
      (.ok low, version :: high :: low :: typeByte :: rest) := on_byteAt rfl
  have hbyte₃ : (byteAt 3 : OnBuffer ε UInt8).on (version :: high :: low :: typeByte :: rest) =
      (.ok typeByte, version :: high :: low :: typeByte :: rest) := on_byteAt rfl
  simp only [decode, on_bind, on_get, hlong, if_false, hbyte₀]
  by_cases hversion : version = metalbondVersion
  · subst hversion
    simp only [ne_eq, not_true, if_false, on_bind, hbyte₁, hbyte₂, hbyte₃, announced_eq]
    by_cases hwait : rest.length < announced high low
    · have hlen : (metalbondVersion :: high :: low :: typeByte :: rest).length <
          4 + announced high low := by
        simp only [List.length_cons]
        omega
      simp only [hlen, hwait, if_true, on_bind, on_reserveDifference hlen.le, on_pure]
    · have hlen : ¬ (metalbondVersion :: high :: low :: typeByte :: rest).length <
          4 + announced high low := by
        simp only [List.length_cons]
        omega
      have hheader : 4 ≤ (metalbondVersion :: high :: low :: typeByte :: rest).length := by simp
      simp only [hlen, hwait, if_false, on_bind, on_splitTo hheader, List.drop_succ_cons,
        List.drop_zero, on_splitTo (Nat.not_lt.mp hwait), frameResult]
      cases MessageType.tryFrom typeByte with
      | error byte => rfl
      | ok msgType =>
        simp only
        cases GeneratedMessage.fromBytes p msgType (rest.take (announced high low)) with
        | error e => rfl
        | ok msg => rfl
  · simp only [hversion, ne_eq, not_false_eq_true, if_true, on_throw]

end MetalBondCodec

end MetalBond
