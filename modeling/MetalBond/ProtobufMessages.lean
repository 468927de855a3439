import MetalBond.Codec
import MetalBond.Streams.Protobuf

namespace MetalBond

open Streams.Protobuf

namespace Pb

def Hello.format : Format Hello where
  fields m := uint32Field 1 m.keepaliveInterval ++ boolField 2 m.isServer
  blank := ⟨0, false⟩
  mergeField limit m
    | 1, v => (asVarint v).map fun n ↦ { m with keepaliveInterval := .ofNat n }
    | 2, v => (asVarint v).map fun n ↦ { m with isServer := decide (n ≠ 0) }
    | _, _ => ignored limit m
  valid m := valid_append (valid_uint32Field (by decide) (by decide) _)
    (valid_boolField (by decide) (by decide) _)

def Subscription.format : Format Subscription where
  fields m := uint32Field 1 m.vni
  blank := ⟨0⟩
  mergeField limit m
    | 1, v => (asVarint v).map fun n ↦ { m with vni := .ofNat n }
    | _, _ => ignored limit m
  valid m := valid_uint32Field (by decide) (by decide) _

def Destination.format : Format Destination where
  fields m := int32Field 1 m.ipVersion ++ bytesField 2 m.prefixBytes ++ uint32Field 3 m.prefixLength
  blank := ⟨0, [], 0⟩
  mergeField limit m
    | 1, v => (asVarint v).map fun n ↦ { m with ipVersion := readInt32 n }
    | 2, v => (asBytes v).map fun bs ↦ { m with prefixBytes := bs }
    | 3, v => (asVarint v).map fun n ↦ { m with prefixLength := .ofNat n }
    | _, _ => ignored limit m
  valid m := valid_append (valid_append (valid_int32Field (by decide) (by decide) _)
    (valid_bytesField (by decide) (by decide) _)) (valid_uint32Field (by decide) (by decide) _)

def NextHop.format : Format NextHop where
  fields m := bytesField 1 m.targetAddress ++ uint32Field 2 m.targetVni ++ int32Field 3 m.type ++
    uint32Field 4 m.natPortRangeFrom ++ uint32Field 5 m.natPortRangeTo
  blank := ⟨[], 0, 0, 0, 0⟩
  mergeField limit m
    | 1, v => (asBytes v).map fun bs ↦ { m with targetAddress := bs }
    | 2, v => (asVarint v).map fun n ↦ { m with targetVni := .ofNat n }
    | 3, v => (asVarint v).map fun n ↦ { m with type := readInt32 n }
    | 4, v => (asVarint v).map fun n ↦ { m with natPortRangeFrom := .ofNat n }
    | 5, v => (asVarint v).map fun n ↦ { m with natPortRangeTo := .ofNat n }
    | _, _ => ignored limit m
  valid m := valid_append (valid_append (valid_append (valid_append
    (valid_bytesField (by decide) (by decide) _) (valid_uint32Field (by decide) (by decide) _))
    (valid_int32Field (by decide) (by decide) _)) (valid_uint32Field (by decide) (by decide) _))
    (valid_uint32Field (by decide) (by decide) _)

def Update.format : Format Update where
  fields m := int32Field 1 m.action ++ uint32Field 2 m.vni ++
    messageField Destination.format 3 m.destination ++ messageField NextHop.format 4 m.nextHop
  blank := ⟨0, 0, none, none⟩
  mergeField limit m
    | 1, v => (asVarint v).map fun n ↦ { m with action := readInt32 n }
    | 2, v => (asVarint v).map fun n ↦ { m with vni := .ofNat n }
    | 3, v => do
      let d ← Destination.format.mergeMessage limit m.destination (← asBytes v)
      return { m with destination := some d }
    | 4, v => do
      let nh ← NextHop.format.mergeMessage limit m.nextHop (← asBytes v)
      return { m with nextHop := some nh }
    | _, _ => ignored limit m
  valid m := valid_append (valid_append (valid_append
    (valid_int32Field (by decide) (by decide) _) (valid_uint32Field (by decide) (by decide) _))
    (valid_messageField (by decide) (by decide) _ _)) (valid_messageField (by decide) (by decide) _ _)

section Read

variable (limit : ℕ)

theorem Hello.merge_fields (m : Hello) :
    (format.fields m).foldlM (format.put limit) format.blank = some m := by
  have hinterval : (uint32Field 1 m.keepaliveInterval).foldlM (format.put limit) format.blank =
      some ⟨m.keepaliveInterval, false⟩ :=
    foldlM_uint32Field (fun h ↦ by rw [h]; rfl) (by simp [format])
  have hserver : (boolField 2 m.isServer).foldlM (format.put limit) ⟨m.keepaliveInterval, false⟩ =
      some m :=
    foldlM_boolField (fun h ↦ by rw [← h]) fun h ↦ by simp [format, ← h]
  exact foldlM_append_of hinterval hserver

theorem Subscription.merge_fields (m : Subscription) :
    (format.fields m).foldlM (format.put limit) format.blank = some m :=
  foldlM_uint32Field (fun h ↦ by rw [format, ← h]) (by simp [format])

theorem Destination.merge_fields (m : Destination) :
    (format.fields m).foldlM (format.put limit) format.blank = some m := by
  have hversion : (int32Field 1 m.ipVersion).foldlM (format.put limit) format.blank =
      some ⟨m.ipVersion, [], 0⟩ :=
    foldlM_int32Field (fun h ↦ by rw [h]; rfl) (by simp [format])
  have hnet : (bytesField 2 m.prefixBytes).foldlM (format.put limit) ⟨m.ipVersion, [], 0⟩ =
      some ⟨m.ipVersion, m.prefixBytes, 0⟩ :=
    foldlM_bytesField (fun h ↦ by rw [h]) (by simp [format])
  have hlength : (uint32Field 3 m.prefixLength).foldlM (format.put limit)
      ⟨m.ipVersion, m.prefixBytes, 0⟩ = some m :=
    foldlM_uint32Field (fun h ↦ by rw [← h]) (by simp [format])
  exact foldlM_append_of (foldlM_append_of hversion hnet) hlength

theorem NextHop.merge_fields (m : NextHop) :
    (format.fields m).foldlM (format.put limit) format.blank = some m := by
  have haddress : (bytesField 1 m.targetAddress).foldlM (format.put limit) format.blank =
      some ⟨m.targetAddress, 0, 0, 0, 0⟩ :=
    foldlM_bytesField (fun h ↦ by rw [h]; rfl) (by simp [format])
  have hvni : (uint32Field 2 m.targetVni).foldlM (format.put limit)
      ⟨m.targetAddress, 0, 0, 0, 0⟩ = some ⟨m.targetAddress, m.targetVni, 0, 0, 0⟩ :=
    foldlM_uint32Field (fun h ↦ by rw [h]) (by simp [format])
  have htype : (int32Field 3 m.type).foldlM (format.put limit)
      ⟨m.targetAddress, m.targetVni, 0, 0, 0⟩ =
      some ⟨m.targetAddress, m.targetVni, m.type, 0, 0⟩ :=
    foldlM_int32Field (fun h ↦ by rw [h]) (by simp [format])
  have hfrom : (uint32Field 4 m.natPortRangeFrom).foldlM (format.put limit)
      ⟨m.targetAddress, m.targetVni, m.type, 0, 0⟩ =
      some ⟨m.targetAddress, m.targetVni, m.type, m.natPortRangeFrom, 0⟩ :=
    foldlM_uint32Field (fun h ↦ by rw [h]) (by simp [format])
  have hto : (uint32Field 5 m.natPortRangeTo).foldlM (format.put limit)
      ⟨m.targetAddress, m.targetVni, m.type, m.natPortRangeFrom, 0⟩ = some m :=
    foldlM_uint32Field (fun h ↦ by rw [← h]) (by simp [format])
  exact foldlM_append_of (foldlM_append_of (foldlM_append_of
    (foldlM_append_of haddress hvni) htype) hfrom) hto

theorem Update.merge_fields {m : Update} (hlen : (format.encode m).length < 2 ^ 64) :
    (format.fields m).foldlM (format.put (limit + 1)) format.blank = some m := by
  have haction : (int32Field 1 m.action).foldlM (format.put (limit + 1)) format.blank =
      some ⟨m.action, 0, none, none⟩ :=
    foldlM_int32Field (fun h ↦ by rw [h]; rfl) (by simp [format])
  have hvni : (uint32Field 2 m.vni).foldlM (format.put (limit + 1)) ⟨m.action, 0, none, none⟩ =
      some ⟨m.action, m.vni, none, none⟩ :=
    foldlM_uint32Field (fun h ↦ by rw [h]) (by simp [format])
  have hparts : (encodeFields (messageField Destination.format 3 m.destination)).length < 2 ^ 64 ∧
      (encodeFields (messageField NextHop.format 4 m.nextHop)).length < 2 ^ 64 := by
    simp only [Format.encode, format, encodeFields_append, List.length_append] at hlen
    omega
  have hdest : (messageField Destination.format 3 m.destination).foldlM (format.put (limit + 1))
      ⟨m.action, m.vni, none, none⟩ = some ⟨m.action, m.vni, m.destination, none⟩ := by
    refine foldlM_messageField (fun h ↦ by rw [h]) fun d h ↦ ?_
    have hread : Destination.format.mergeMessage (limit + 1) none (Destination.format.encode d) =
        some d := Destination.format.merge_encode
      ((length_le_messageField _ d).trans_lt (h ▸ hparts.1)) (Destination.merge_fields limit d)
    simp [format, hread, h]
  have hhop : (messageField NextHop.format 4 m.nextHop).foldlM (format.put (limit + 1))
      ⟨m.action, m.vni, m.destination, none⟩ = some m := by
    refine foldlM_messageField (fun h ↦ by rw [← h]) fun nh h ↦ ?_
    have hread : NextHop.format.mergeMessage (limit + 1) none (NextHop.format.encode nh) =
        some nh := NextHop.format.merge_encode
      ((length_le_messageField _ nh).trans_lt (h ▸ hparts.2)) (NextHop.merge_fields limit nh)
    simp only [format, Format.put, asBytes, hread, Option.bind_eq_bind, Option.bind_some,
      Option.pure_def]
    rw [← h]
  exact foldlM_append_of (foldlM_append_of (foldlM_append_of haction hvni) hdest) hhop

end Read

theorem length_encode_hello (m : Hello) : (Hello.format.encode m).length ≤ 8 := by
  have hinterval := length_uint32Field (by omega : 1 < 15) m.keepaliveInterval
  have hserver := length_boolField (by omega : 2 < 15) m.isServer
  simp only [Format.encode, Hello.format, encodeFields_append, List.length_append]
  omega

theorem length_encode_subscription (m : Subscription) :
    (Subscription.format.encode m).length ≤ 6 :=
  length_uint32Field (by omega : 1 < 15) m.vni

theorem length_encode_destination {m : Destination} (h : m.prefixBytes.length ≤ 16) :
    (Destination.format.encode m).length ≤ 35 := by
  have hversion := length_int32Field (by omega : 1 < 15) m.ipVersion
  have hbytes := length_bytesField (by omega : 2 < 15) (h.trans_lt (by omega))
  have hlength := length_uint32Field (by omega : 3 < 15) m.prefixLength
  simp only [Format.encode, Destination.format, encodeFields_append, List.length_append]
  omega

theorem length_encode_nextHop {m : NextHop} (h : m.targetAddress.length ≤ 16) :
    (NextHop.format.encode m).length ≤ 47 := by
  have hbytes := length_bytesField (by omega : 1 < 15) (h.trans_lt (by omega))
  have hvni := length_uint32Field (by omega : 2 < 15) m.targetVni
  have htype := length_int32Field (by omega : 3 < 15) m.type
  have hfrom := length_uint32Field (by omega : 4 < 15) m.natPortRangeFrom
  have hto := length_uint32Field (by omega : 5 < 15) m.natPortRangeTo
  simp only [Format.encode, NextHop.format, encodeFields_append, List.length_append]
  omega

theorem length_encode_update {m : Update} {d : Destination} {nh : NextHop}
    (hd : m.destination = some d) (hnh : m.nextHop = some nh) (hnet : d.prefixBytes.length ≤ 16)
    (htarget : nh.targetAddress.length ≤ 16) : (Update.format.encode m).length ≤ 103 := by
  have hdest := length_encode_destination hnet
  have hhop := length_encode_nextHop htarget
  have haction := length_int32Field (by omega : 1 < 15) m.action
  have hvni := length_uint32Field (by omega : 2 < 15) m.vni
  have hdestField := length_messageField (by omega : 3 < 15) (hdest.trans_lt (by omega))
  have hhopField := length_messageField (by omega : 4 < 15) (hhop.trans_lt (by omega))
  simp only [Format.encode, Update.format, encodeFields_append, List.length_append, hd, hnh]
  simp only [Format.encode] at hdest hhop hdestField hhopField
  omega

end Pb

/-- The code that is generated from `metalbond.proto`, up to the texts of its errors. -/
def protobuf : Prost Unit where
  hello := ⟨Pb.Hello.format.encode, fun bs ↦ (Pb.Hello.format.decode bs).elim (.error ()) .ok⟩
  subscription :=
    ⟨Pb.Subscription.format.encode, fun bs ↦ (Pb.Subscription.format.decode bs).elim (.error ()) .ok⟩
  update := ⟨Pb.Update.format.encode, fun bs ↦ (Pb.Update.format.decode bs).elim (.error ()) .ok⟩

theorem lawful_protobuf : protobuf.Lawful where
  hello m hlen := by
    have hread : Pb.Hello.format.decode (Pb.Hello.format.encode m) = some m :=
      Pb.Hello.format.merge_encode (hlen.trans_lt (by decide)) (Pb.Hello.merge_fields _ m)
    simp [protobuf, hread]
  subscription m hlen := by
    have hread : Pb.Subscription.format.decode (Pb.Subscription.format.encode m) = some m :=
      Pb.Subscription.format.merge_encode (hlen.trans_lt (by decide))
        (Pb.Subscription.merge_fields _ m)
    simp [protobuf, hread]
  update m hlen := by
    have hlen : (Pb.Update.format.encode m).length < 2 ^ 64 := hlen.trans_lt (by decide)
    have hread : Pb.Update.format.decode (Pb.Update.format.encode m) = some m :=
      Pb.Update.format.merge_encode hlen (Pb.Update.merge_fields 99 hlen)
    simp [protobuf, hread]

theorem compact_protobuf : protobuf.Compact := fun _ _ _ ↦ Pb.length_encode_update

theorem short_protobuf : protobuf.Short := ⟨Pb.length_encode_hello, Pb.length_encode_subscription⟩

end MetalBond
