import MetalBond.Framing

namespace MetalBond.MetalBondCodec

open Streams

/-- A frame as it may stand in a stream, of any type and with any body that its header announces. -/
structure RawFrame where
  high : UInt8
  low : UInt8
  typeByte : UInt8
  body : Bytes
  announces : body.length = announced high low

def RawFrame.bytes (f : RawFrame) : Bytes :=
  metalbondVersion :: f.high :: f.low :: f.typeByte :: f.body

/-- Less than a header, or less than the frame that the header announces. -/
def Incomplete (tail : Bytes) : Prop :=
  tail.length < 4 ∨ ∃ high low typeByte body,
    tail = metalbondVersion :: high :: low :: typeByte :: body ∧ body.length < announced high low

variable {ε : Type} (p : Prost ε)

/-- Where the decoder stops, with which error, and what it leaves: a bad version stays in front of
the buffer, a bad frame is gone. -/
inductive Stops : Bytes → Option (Fault ε) → Bytes → Prop
  | incomplete (tail : Bytes) : Incomplete tail → Stops tail none tail
  | version (version high low typeByte : UInt8) (after : Bytes) : version ≠ metalbondVersion →
    Stops (version :: high :: low :: typeByte :: after)
      (some (.error (.incompatibleVersion version)))
      (version :: high :: low :: typeByte :: after)
  | frame (f : RawFrame) (after : Bytes) (e : Fault ε) :
    frameResult p f.typeByte f.body = .error e → Stops (f.bytes ++ after) (some e) after

/-- The stream is the frames of the messages, up to where the decoder stops. -/
def Reads (stream : Bytes) (d : Streams.Drained UInt8 GeneratedMessage (Fault ε)) : Prop :=
  ∃ frames tail, stream = List.flatMap RawFrame.bytes frames ++ tail ∧
    List.Forall₂ (fun f m ↦ frameResult p f.typeByte f.body = .ok (some m)) frames d.messages ∧
    Stops p tail d.error d.rest

variable {p}

theorem length_of_incomplete {tail : Bytes} (h : Incomplete tail) : tail.length < 4 + 2 ^ 16 := by
  rcases h with h | ⟨high, low, typeByte, body, rfl, hlen⟩
  · omega
  · have hhigh := high.toNat_lt
    have hlow := low.toNat_lt
    rw [announced] at hlen
    simp only [List.length_cons]
    omega

theorem decode_bytes (f : RawFrame) (rest : Bytes) :
    (decode p).on (f.bytes ++ rest) = (frameResult p f.typeByte f.body, rest) :=
  decode_frame_append p f.announces rest

theorem decode_incomplete {tail : Bytes} (h : Incomplete tail) :
    (decode p).on tail = (.ok none, tail) := by
  rcases h with h | ⟨high, low, typeByte, body, rfl, hlen⟩
  · exact decode_short p h
  · rw [decode_header, if_neg (not_not.mpr rfl), if_pos hlen]

theorem incomplete_of_decode {src rest : Bytes} (h : (decode p).on src = (.ok none, rest)) :
    Incomplete src := by
  rcases short_or_header src with hshort | ⟨version, high, low, typeByte, after, rfl⟩
  · exact .inl hshort
  · rw [decode_header] at h
    split at h
    · cases h
    · next hversion =>
      split at h
      · next hlen =>
        rw [not_not.mp hversion]
        exact .inr ⟨high, low, typeByte, after, rfl, hlen⟩
      · exact absurd (congrArg Prod.fst h) (frameResult_ne_none p _ _)

theorem stops_of_decode {src rest : Bytes} {e : Fault ε}
    (h : (decode p).on src = (.error e, rest)) : Stops p src (some e) rest := by
  rcases decode_error h with ⟨version, high, low, typeByte, after, hversion, rfl, rfl, rfl⟩ |
    ⟨high, low, typeByte, body, rfl, hlen, hresult⟩
  · exact .version version high low typeByte after hversion
  · exact .frame ⟨high, low, typeByte, body, hlen⟩ rest e hresult

theorem Stops.drain {tail rest : Bytes} {error : Option (Fault ε)}
    (h : Stops p tail error rest) : (codec p).drain tail = ⟨[], error, rest⟩ := by
  cases h with
  | incomplete _ h => exact Decoder.drain_wait (decode_incomplete h)
  | version version high low typeByte after hversion =>
    refine Decoder.drain_fail ?_
    exact (decode_header p version high low typeByte after).trans (if_pos hversion)
  | frame f _ e hresult => exact Decoder.drain_fail ((decode_bytes f rest).trans (by rw [hresult]))

theorem reads_drain (src : Bytes) : Reads p src ((codec p).drain src) := by
  induction hn : src.length using Nat.strongRecOn generalizing src with
  | ind n ih =>
    subst hn
    match h : (codec p).step src with
    | (.ok (some m), rest) =>
      rw [Decoder.drain_take h]
      obtain ⟨high, low, typeByte, body, hsrc, hlen, hresult⟩ := decode_some h
      obtain ⟨frames, tail, hrest, hmessages, hstops⟩ :=
        ih rest.length ((codec p).shrinks h) rest rfl
      refine ⟨⟨high, low, typeByte, body, hlen⟩ :: frames, tail, ?_,
        .cons hresult hmessages, hstops⟩
      rw [List.flatMap_cons, List.append_assoc, ← hrest, hsrc]
      rfl
    | (.ok none, rest) =>
      rw [Decoder.drain_wait h]
      exact ⟨[], src, rfl, .nil, .incomplete src (incomplete_of_decode h)⟩
    | (.error e, rest) =>
      rw [Decoder.drain_fail h]
      exact ⟨[], src, rfl, .nil, stops_of_decode h⟩

theorem drain_of_reads {src : Bytes} {d : Streams.Drained UInt8 GeneratedMessage (Fault ε)}
    (h : Reads p src d) : (codec p).drain src = d := by
  obtain ⟨msgs, error, rest⟩ := d
  obtain ⟨frames, tail, rfl, hmessages, hstops⟩ := h
  simp only at hmessages hstops
  induction hmessages with
  | nil => exact hstops.drain
  | @cons f m frames msgs hresult _ ih =>
    have hstep : (codec p).step ((f :: frames).flatMap RawFrame.bytes ++ tail) =
        (.ok (some m), frames.flatMap RawFrame.bytes ++ tail) := by
      rw [List.flatMap_cons, List.append_assoc]
      exact (decode_bytes f _).trans (by rw [hresult])
    rw [Decoder.drain_take hstep, ih]
    rfl

/-- What the decoder makes of a stream, however it comes in: it is the frames of the messages one
after the other, followed by what cannot be a frame yet or ever. So it never holds back more than
one frame. -/
theorem feed_eq_iff (chunks : List Bytes) (d : Streams.Drained UInt8 GeneratedMessage (Fault ε)) :
    ((codec p).feed [] chunks = d ↔ Reads p chunks.flatten d) ∧
      (((codec p).feed [] chunks).error = none →
        ((codec p).feed [] chunks).rest.length < 4 + 2 ^ 16) := by
  have hempty : (codec p).drain [] = ⟨[], none, []⟩ := Decoder.drain_wait (decode_short p (by simp))
  rw [Decoder.feed_eq_drain hempty, List.nil_append]
  refine ⟨⟨fun h ↦ h ▸ reads_drain _, drain_of_reads⟩, fun hnone ↦ ?_⟩
  obtain ⟨frames, tail, -, -, hstops⟩ := reads_drain (p := p) chunks.flatten
  rw [hnone] at hstops
  cases hstops with
  | incomplete _ h => exact length_of_incomplete h

end MetalBond.MetalBondCodec
