import MetalBond.State

namespace MetalBond.Received

theorem addrBytesVec_of_fromSlice {bytes : List UInt8} {addr : IpAddr}
    (h : IpAddr.fromSlice bytes = .ok addr) : addr.addrBytesVec = bytes := by
  unfold IpAddr.fromSlice at h
  split at h
  · cases h
    rfl
  · split at h
    · cases h
      rfl
    · cases h

theorem fromSlice_eq_ok {bytes : List UInt8} {addr : IpAddr} (h : IpAddr.fromSlice bytes = .ok addr) :
    (∃ ip, addr = .v4 ip ∧ bytes.length = 4) ∨ ∃ ip, addr = .v6 ip ∧ bytes.length = 16 := by
  unfold IpAddr.fromSlice at h
  split at h
  · next hlen =>
    cases h
    exact Or.inl ⟨_, rfl, hlen⟩
  · split at h
    · next hlen =>
      cases h
      exact Or.inr ⟨_, rfl, hlen⟩
    · cases h

theorem new_eq_ok {addr : IpAddr} {len : UInt8} {net : IpNet} (h : IpNet.new addr len = .ok net) :
    net.addr = addr ∧ net.prefixLen = len := by
  cases addr with
  | v4 ip =>
    simp only [IpNet.new] at h
    split at h
    · cases h
      exact ⟨rfl, rfl⟩
    · cases h
  | v6 ip =>
    simp only [IpNet.new] at h
    split at h
    · cases h
      exact ⟨rfl, rfl⟩
    · cases h

theorem toI32_of_tryFrom {value : Int32} {action : UpdateAction}
    (h : UpdateAction.tryFrom value = .ok action) : action.toI32 = value := by
  unfold UpdateAction.tryFrom at h
  split at h
  · next hv =>
    cases h
    exact hv.symm
  · split at h
    · next hv =>
      cases h
      exact hv.symm
    · cases h

theorem exists_of_bind_eq_ok {ε α β : Type} {x : Except ε α} {f : α → Except ε β} {b : β}
    (h : (x >>= f) = .ok b) : ∃ a, x = .ok a ∧ f a = .ok b := by
  cases x with
  | error e => cases h
  | ok a => exact ⟨a, rfl, h⟩

/-- The IP version that the length of a received address stands for. -/
def versionOf (bytes : List UInt8) : IpVersion := if bytes.length = 4 then .v4 else .v6

def hopTypeOf (type : Int32) : NextHopType :=
  if type = 1 then .nat else if type = 2 then .loadbalancerTarget else .standard

theorem ipVersion_of_fromSlice {bytes : List UInt8} {addr : IpAddr} {net : IpNet}
    (h : IpAddr.fromSlice bytes = .ok addr) (hnet : net.addr = addr) :
    (Destination.mk net).ipVersion = versionOf bytes := by
  rcases fromSlice_eq_ok h with ⟨ip, rfl, hlen⟩ | ⟨ip, rfl, hlen⟩
  · cases net with
    | v4 net => simp [Destination.ipVersion, versionOf, hlen]
    | v6 net => cases hnet
  · cases net with
    | v4 net => cases hnet
    | v6 net => simp [Destination.ipVersion, versionOf, hlen]

/-- All but the IP version is kept, the length of the prefix up to its low byte. -/
theorem toPb_of_destination {pb : Pb.Destination} {dest : Destination}
    (h : Destination.tryFrom pb = .ok dest) :
    dest.toPb = ⟨(versionOf pb.prefixBytes).toI32, pb.prefixBytes,
      pb.prefixLength.toUInt8.toUInt32⟩ := by
  obtain ⟨addr, haddr, h⟩ := exists_of_bind_eq_ok h
  obtain ⟨net, hnew, h⟩ := exists_of_bind_eq_ok h
  obtain rfl : (⟨net⟩ : Destination) = dest := Except.ok.inj h
  obtain ⟨hnet, hlen⟩ := new_eq_ok hnew
  simp only [Destination.toPb, ipVersion_of_fromSlice haddr hnet, hnet, hlen,
    addrBytesVec_of_fromSlice haddr]

theorem toPb_of_nextHop {pb : Pb.NextHop} {nh : NextHop} (h : NextHop.tryFrom pb = .ok nh) :
    nh.toPb = ⟨pb.targetAddress, pb.targetVni, (hopTypeOf pb.type).toI32,
      pb.natPortRangeFrom.toUInt16.toUInt32, pb.natPortRangeTo.toUInt16.toUInt32⟩ := by
  obtain ⟨addr, haddr, h⟩ := exists_of_bind_eq_ok h
  have hnh := (Except.ok.inj h).symm
  have htype : nh.hopType = hopTypeOf pb.type := by
    rw [hnh]
    simp only [NextHopType.tryFrom, hopTypeOf]
    split_ifs <;> simp_all
  simp only [NextHop.toPb, htype]
  rw [hnh]
  simp only [addrBytesVec_of_fromSlice haddr]

/-- The numbers of the message fit the fields that they are kept in. -/
structure InRange (d : Pb.Destination) (h : Pb.NextHop) : Prop where
  prefixLength : d.prefixLength < 256
  portFrom : h.natPortRangeFrom < 65536
  portTo : h.natPortRangeTo < 65536

theorem eq_some_of_elim {α : Type} {o : Option α} {e : Error} {a : α}
    (h : o.elim (.error e) .ok = Except.ok a) : o = some a := by
  cases o with
  | none => cases h
  | some b => exact congrArg some (Except.ok.inj h)

theorem ok_of_withContext {α : Type} {text : String} {x : Except Error α} {a : α}
    (h : withContext text x = .ok a) : x = .ok a := by
  cases x with
  | error e => cases h
  | ok b => exact h

theorem parts_of_parse {msg : Pb.Update} {action : UpdateAction} {vni : Vni} {dest : Destination}
    {nh : NextHop} (h : parseUpdate msg = .ok (action, vni, dest, nh)) :
    ∃ d hop, msg.destination = some d ∧ msg.nextHop = some hop ∧
      UpdateAction.tryFrom msg.action = .ok action ∧ vni = msg.vni ∧
      Destination.tryFrom d = .ok dest ∧ NextHop.tryFrom hop = .ok nh := by
  obtain ⟨action', haction, h⟩ := exists_of_bind_eq_ok h
  obtain ⟨d, hd, h⟩ := exists_of_bind_eq_ok h
  obtain ⟨hop, hhop, h⟩ := exists_of_bind_eq_ok h
  obtain ⟨dest', hdest, h⟩ := exists_of_bind_eq_ok h
  obtain ⟨nh', hnh, h⟩ := exists_of_bind_eq_ok h
  cases Except.ok.inj h
  exact ⟨d, hop, eq_some_of_elim hd, eq_some_of_elim hhop, haction, rfl, ok_of_withContext hdest,
    ok_of_withContext hnh⟩

theorem relayed_of_parse {msg : Pb.Update} {d : Pb.Destination} {hop : Pb.NextHop}
    (hd : msg.destination = some d) (hhop : msg.nextHop = some hop) (hrange : InRange d hop)
    {action : UpdateAction} {vni : Vni} {dest : Destination} {nh : NextHop}
    (h : parseUpdate msg = .ok (action, vni, dest, nh)) :
    action.toI32 = msg.action ∧ vni = msg.vni ∧
      dest.toPb = { d with ipVersion := (versionOf d.prefixBytes).toI32 } ∧
      nh.toPb = { hop with type := (hopTypeOf hop.type).toI32 } := by
  obtain ⟨d', hop', hd', hhop', haction, hvni, hdest, hnh⟩ := parts_of_parse h
  cases hd.symm.trans hd'
  cases hhop.symm.trans hhop'
  have hlength : d.prefixLength.toUInt8.toUInt32 = d.prefixLength := by
    rw [UInt32.toUInt32_toUInt8, UInt32.mod_eq_of_lt hrange.prefixLength]
  have hports : ∀ port : UInt32, port < 65536 → port.toUInt16.toUInt32 = port := by
    intro port hport
    rw [UInt32.toUInt32_toUInt16, UInt32.mod_eq_of_lt hport]
  rw [toPb_of_destination hdest, toPb_of_nextHop hnh, hlength, hports _ hrange.portFrom,
    hports _ hrange.portTo]
  exact ⟨toI32_of_tryFrom haction, hvni, rfl, rfl⟩

theorem relayed_of_parse_sample :
    (Sample.update .add).nextHop = some Sample.nextHop.toPb ∧
      Sample.nextHop.toPb =
        { Sample.nextHop.toPb with type := (hopTypeOf Sample.nextHop.toPb.type).toI32 } :=
  ⟨rfl, (@relayed_of_parse (Sample.update .add) _ _ rfl rfl
    ⟨by decide, by decide, by decide⟩ _ _ _ _ (parseUpdate_updateMessage ..)).2.2.2⟩

theorem altered_hop_type : ¬ ∀ msg action vni dest nh, parseUpdate msg = .ok (action, vni, dest, nh) →
    msg.destination = some dest.toPb ∧ msg.nextHop = some nh.toPb := by
  intro hkept
  have hparse := hkept { Sample.update .add with
    nextHop := some { Sample.nextHop.toPb with type := 7 } }
    .add 100 Sample.destination Sample.nextHop rfl
  exact absurd hparse.2 (by decide)

end MetalBond.Received
