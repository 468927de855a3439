import MetalBond.ProtobufMessages
import MetalBond.State

namespace MetalBond.MetalBondCodec

open Streams

variable {ε : Type} (p : Prost ε)

theorem short_or_header (src : Bytes) : src.length < 4 ∨
    ∃ version high low typeByte rest, src = version :: high :: low :: typeByte :: rest := by
  match src with
  | [] | [_] | [_, _] | [_, _, _] => exact Or.inl (by simp)
  | version :: high :: low :: typeByte :: rest => exact Or.inr ⟨_, _, _, _, _, rfl⟩

section Exits

variable {p} {src rest : Bytes}

theorem decode_none (h : (decode p).on src = (.ok none, rest)) : rest = src := by
  rcases short_or_header src with hshort | ⟨version, high, low, typeByte, after, rfl⟩
  · rw [decode_short p hshort] at h
    cases h
    rfl
  · rw [decode_header] at h
    split at h
    · cases h
    · split at h
      · cases h
        rfl
      · exact absurd (congrArg Prod.fst h) (frameResult_ne_none p _ _)

theorem decode_some {m : GeneratedMessage} (h : (decode p).on src = (.ok (some m), rest)) :
    ∃ high low typeByte body, src = metalbondVersion :: high :: low :: typeByte :: (body ++ rest) ∧
      body.length = announced high low ∧ frameResult p typeByte body = .ok (some m) := by
  rcases short_or_header src with hshort | ⟨version, high, low, typeByte, after, rfl⟩
  · rw [decode_short p hshort] at h
    cases h
  · rw [decode_header] at h
    split at h
    · cases h
    · next hversion =>
      split at h
      · cases h
      · next hlen =>
        obtain ⟨hresult, rfl⟩ := Prod.mk.inj h
        refine ⟨high, low, typeByte, after.take (announced high low), ?_, ?_, hresult⟩
        · rw [List.take_append_drop, not_not.mp hversion]
        · exact List.length_take_of_le (Nat.not_lt.mp hlen)

theorem decode_error {e : Fault ε} (h : (decode p).on src = (.error e, rest)) :
    (∃ version high low typeByte after, version ≠ metalbondVersion ∧
        src = version :: high :: low :: typeByte :: after ∧
        e = .error (.incompatibleVersion version) ∧ rest = src) ∨
      ∃ high low typeByte body,
        src = metalbondVersion :: high :: low :: typeByte :: (body ++ rest) ∧
        body.length = announced high low ∧ frameResult p typeByte body = .error e := by
  rcases short_or_header src with hshort | ⟨version, high, low, typeByte, after, rfl⟩
  · rw [decode_short p hshort] at h
    cases h
  · rw [decode_header] at h
    split at h
    · next hversion =>
      cases h
      exact Or.inl ⟨version, high, low, typeByte, after, hversion, rfl, rfl, rfl⟩
    · next hversion =>
      split at h
      · cases h
      · next hlen =>
        obtain ⟨hresult, rfl⟩ := Prod.mk.inj h
        refine Or.inr ⟨high, low, typeByte, after.take (announced high low), ?_, ?_, hresult⟩
        · rw [List.take_append_drop, not_not.mp hversion]
        · exact List.length_take_of_le (Nat.not_lt.mp hlen)

end Exits

theorem decode_frame_append {high low typeByte : UInt8} {body : Bytes}
    (h : body.length = announced high low) (rest : Bytes) :
    (decode p).on (metalbondVersion :: high :: low :: typeByte :: (body ++ rest)) =
      (frameResult p typeByte body, rest) := by
  have hlen : ¬ (body ++ rest).length < announced high low := by
    rw [List.length_append, h]
    omega
  rw [decode_header, if_neg (not_not.mpr rfl), if_neg hlen, ← h, List.take_left, List.drop_left]

def codec : Decoder UInt8 GeneratedMessage (Fault ε) where
  step src := (decode p).on src
  waits h := decode_none h
  shrinks h := by
    obtain ⟨high, low, typeByte, body, rfl, -, -⟩ := decode_some h
    simp only [List.length_cons, List.length_append]
    omega
  takes h more := by
    obtain ⟨high, low, typeByte, body, rfl, hlen, hresult⟩ := decode_some h
    simp only [List.cons_append, List.append_assoc]
    rw [decode_frame_append p hlen, hresult]
  fails h more := by
    rcases decode_error h with ⟨version, high, low, typeByte, after, hversion, rfl, rfl, rfl⟩ |
      ⟨high, low, typeByte, body, rfl, hlen, hresult⟩
    · simp only [List.cons_append]
      rw [decode_header, if_pos hversion]
    · simp only [List.cons_append, List.append_assoc]
      rw [decode_frame_append p hlen, hresult]

theorem decode_ne_panic (src : Bytes) : ((decode p).on src).1 ≠ .error .panic := by
  intro h
  have hboth : (decode p).on src = (.error .panic, ((decode p).on src).2) := by rw [← h]
  rcases decode_error hboth with ⟨version, high, low, typeByte, after, -, -, he, -⟩ |
    ⟨high, low, typeByte, body, -, -, hresult⟩
  · cases he
  · unfold frameResult at hresult
    split at hresult
    · cases hresult
    · split at hresult <;> cases hresult

theorem length_drain (src : Bytes) :
    4 * ((codec p).drain src).messages.length + ((codec p).drain src).rest.length ≤ src.length := by
  induction hn : src.length using Nat.strongRecOn generalizing src with
  | ind n ih =>
    subst hn
    match h : (codec p).step src with
    | (.ok (some m), rest) =>
      have hrest := ih rest.length ((codec p).shrinks h) rest rfl
      obtain ⟨high, low, typeByte, body, rfl, -, -⟩ := decode_some h
      rw [Decoder.drain_take h]
      simp only [Drained.prepend, List.length_append, List.length_cons, List.length_nil]
      omega
    | (.ok none, rest) =>
      rw [Decoder.drain_wait h]
      simp
    | (.error e, rest) =>
      rw [Decoder.drain_fail h]
      rcases decode_error h with ⟨version, high, low, typeByte, after, -, -, -, rfl⟩ |
        ⟨high, low, typeByte, body, rfl, -, -⟩
      · simp
      · simp only [List.length_nil, List.length_cons, List.length_append]
        omega

theorem fragmentation_invariant :
    (∀ chunks chunks' : List Bytes, chunks.flatten = chunks'.flatten →
      (codec p).feed [] chunks = (codec p).feed [] chunks') ∧
    (∀ src, ((decode p).on src).1 ≠ .error .panic) ∧
    (∀ src rest, (decode p).on src = (.ok none, rest) → rest = src) ∧
    (∀ src m rest, (decode p).on src = (.ok (some m), rest) → ∃ version high low typeByte body,
      src = version :: high :: low :: typeByte :: (body ++ rest) ∧
        body.length = announced high low) ∧
    ∀ src, 4 * ((codec p).drain src).messages.length + ((codec p).drain src).rest.length ≤
      src.length := by
  refine ⟨fun chunks chunks' hflatten ↦ ?_, decode_ne_panic p, fun src rest ↦ decode_none, ?_,
    length_drain p⟩
  · have hempty : (codec p).drain [] = ⟨[], none, []⟩ :=
      Decoder.drain_wait (decode_short p (by simp))
    rw [Decoder.feed_eq_drain hempty, Decoder.feed_eq_drain hempty, hflatten]
  · intro src m rest h
    obtain ⟨high, low, typeByte, body, hsrc, hlen, -⟩ := decode_some h
    exact ⟨_, high, low, typeByte, body, hsrc, hlen⟩

def frame (m : GeneratedMessage) : Bytes :=
  let (msgType, msgBytes) := m.intoTypedBytes p
  [metalbondVersion, (msgBytes.length >>> 8).toUInt8, (msgBytes.length &&& 0xFF).toUInt8,
    msgType.toU8] ++ msgBytes

def Fits (m : GeneratedMessage) : Prop := (m.intoTypedBytes p).2.length ≤ maxMessageLen

def encodeAll : List GeneratedMessage → OnBuffer ε Unit
  | [] => return ()
  | m :: ms => do
    encode p m
    encodeAll ms

variable {p} {m : GeneratedMessage}

theorem encode_of_fits (h : Fits p m) (dst : Bytes) :
    (encode p m).on dst = (.ok (), dst ++ frame p m) := by
  rw [encode_on, if_neg (Nat.not_lt.mpr h), List.append_assoc]
  rfl

theorem encode_of_not_fits (h : ¬ Fits p m) (dst : Bytes) :
    (encode p m).on dst =
      (.error (.error (.messageTooLong (m.intoTypedBytes p).2.length maxMessageLen)), dst) := by
  rw [encode_on, if_pos (Nat.not_le.mp h)]

theorem announced_length {n : ℕ} (h : n ≤ maxMessageLen) :
    announced (n >>> 8).toUInt8 (n &&& 0xFF).toUInt8 = n := by
  have hmax : maxMessageLen = 1188 := rfl
  have hmask : n &&& 0xFF = n % 256 := Nat.and_two_pow_sub_one_eq_mod n 8
  rw [announced, hmask, Nat.shiftRight_eq_div_pow]
  simp only [Nat.toUInt8_eq, UInt8.toNat_ofNat']
  omega

theorem decode_frame (hp : p.Lawful) (h : Fits p m) (rest : Bytes) :
    (decode p).on (frame p m ++ rest) = (.ok (some m), rest) := by
  have hbody := GeneratedMessage.fromBytes_intoTypedBytes hp (h.trans (by decide))
  have hframe := @decode_frame_append ε p _ _ (m.intoTypedBytes p).1.toU8 _
    (announced_length h).symm rest
  simp only [frame, List.cons_append, List.nil_append]
  rw [hframe, frameResult, MessageType.tryFrom_toU8]
  simp only [hbody]

theorem encodeAll_of_fits {msgs : List GeneratedMessage} (h : ∀ m ∈ msgs, Fits p m) (dst : Bytes) :
    (encodeAll p msgs).on dst = (.ok (), dst ++ msgs.flatMap (frame p)) := by
  induction msgs generalizing dst with
  | nil => simp [encodeAll, on_pure]
  | cons m ms ih =>
    have hm := h m List.mem_cons_self
    have hms := ih fun m' hm' ↦ h m' (List.mem_cons_of_mem m hm')
    simp only [encodeAll, on_bind, encode_of_fits hm, hms, List.flatMap_cons, List.append_assoc]

theorem drain_frames (hp : p.Lawful) {msgs : List GeneratedMessage} (h : ∀ m ∈ msgs, Fits p m) :
    (codec p).drain (msgs.flatMap (frame p)) = ⟨msgs, none, []⟩ := by
  induction msgs with
  | nil => exact Decoder.drain_wait (decode_short p (by simp))
  | cons m ms ih =>
    have hstep : (codec p).step ((m :: ms).flatMap (frame p)) =
        (.ok (some m), ms.flatMap (frame p)) := decode_frame hp (h m List.mem_cons_self) _
    rw [Decoder.drain_take hstep, ih fun m' hm' ↦ h m' (List.mem_cons_of_mem m hm')]
    rfl

theorem framing_round_trip (hp : p.Lawful) (msgs : List GeneratedMessage)
    (hfits : ∀ m ∈ msgs, Fits p m) :
    ∃ buf, (encodeAll p msgs).on [] = (.ok (), buf) ∧ (codec p).drain buf = ⟨msgs, none, []⟩ ∧
      (∀ sent m waiting, msgs = sent ++ m :: waiting → ∃ before after rest,
        (encodeAll p sent).on [] = (.ok (), before) ∧
        (encodeAll p (m :: waiting)).on [] = (.ok (), after) ∧
        (encodeAll p waiting).on [] = (.ok (), rest) ∧
        buf = before ++ after ∧ (decode p).on after = (.ok (some m), rest)) ∧
      ∀ m dst, maxMessageLen < (m.intoTypedBytes p).2.length → (encode p m).on dst =
        (.error (.error (.messageTooLong (m.intoTypedBytes p).2.length maxMessageLen)), dst) := by
  refine ⟨msgs.flatMap (frame p), encodeAll_of_fits hfits [], drain_frames hp hfits, ?_,
    fun m dst hlong ↦ encode_of_not_fits (Nat.not_le.mpr hlong) dst⟩
  rintro sent m waiting rfl
  have hsent : ∀ m' ∈ sent, Fits p m' := fun m' hm' ↦ hfits m' (List.mem_append_left _ hm')
  have hrest : ∀ m' ∈ m :: waiting, Fits p m' := fun m' hm' ↦ hfits m' (List.mem_append_right _ hm')
  have hwaiting : ∀ m' ∈ waiting, Fits p m' := fun m' hm' ↦ hrest m' (List.mem_cons_of_mem m hm')
  exact ⟨_, _, _, encodeAll_of_fits hsent [], encodeAll_of_fits hrest [],
    encodeAll_of_fits hwaiting [], List.flatMap_append,
    decode_frame hp (hrest m List.mem_cons_self) _⟩

theorem framing_round_trip_sample :
    ∃ buf, (encodeAll protobuf [.subscribe ⟨100⟩, .keepalive, .unsubscribe ⟨100⟩]).on [] =
        (.ok (), buf) ∧
      (codec protobuf).drain buf = ⟨[.subscribe ⟨100⟩, .keepalive, .unsubscribe ⟨100⟩], none, []⟩ := by
  have hmax : maxMessageLen = 1188 := rfl
  have hbody : (protobuf.subscription.encodeToVec ⟨100⟩).length ≤ maxMessageLen :=
    (Protobuf.length_uint32Field (by omega : 1 < 15) 100).trans (by omega)
  have hfits : ∀ m ∈ [.subscribe ⟨100⟩, .keepalive, .unsubscribe ⟨100⟩], Fits protobuf m := by
    intro m hm
    simp only [List.mem_cons, List.not_mem_nil, or_false] at hm
    rcases hm with rfl | rfl | rfl
    · exact hbody
    · exact Nat.zero_le _
    · exact hbody
  obtain ⟨buf, hencode, hdrain, -⟩ := framing_round_trip lawful_protobuf _ hfits
  exact ⟨buf, hencode, hdrain⟩

theorem fits_updateMessage (hcompact : p.Compact) (action : UpdateAction) (vni : Vni)
    (dest : Destination) (nh : NextHop) : Fits p (updateMessage action vni dest nh) := by
  have hmax : maxMessageLen = 1188 := rfl
  have hlen := hcompact ⟨action.toI32, vni, some dest.toPb, some nh.toPb⟩ dest.toPb nh.toPb rfl rfl
    (IpAddr.length_addrBytesVec_le _) (IpAddr.length_addrBytesVec_le _)
  exact hlen.trans (by omega)

theorem update_round_trip (hp : p.Lawful) (hcompact : p.Compact) (action : UpdateAction) (vni : Vni)
    (dest : Destination) (nh : NextHop) (rest : Bytes) :
    ∃ msg buf, updateMessage action vni dest nh = .update msg ∧
      (encode p (.update msg)).on [] = (.ok (), buf) ∧
      (decode p).on (buf ++ rest) = (.ok (some (.update msg)), rest) ∧
      parseUpdate msg = .ok (action, vni, dest, nh) := by
  have hfits := fits_updateMessage hcompact action vni dest nh
  exact ⟨_, _, rfl, encode_of_fits hfits [], decode_frame hp hfits rest,
    parseUpdate_updateMessage action vni dest nh⟩

theorem update_round_trip_sample :
    ∃ msg buf, updateMessage .add 100 Sample.destination Sample.nextHop = .update msg ∧
      (encode protobuf (.update msg)).on [] = (.ok (), buf) ∧
      (decode protobuf).on (buf ++ []) = (.ok (some (.update msg)), []) ∧
      parseUpdate msg = .ok (.add, 100, Sample.destination, Sample.nextHop) :=
  update_round_trip lawful_protobuf compact_protobuf _ _ _ _ []

end MetalBond.MetalBondCodec
