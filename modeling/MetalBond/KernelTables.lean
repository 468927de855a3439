import MetalBond.Netlink

namespace MetalBond

open Collections

def RouteMessage.version (route : RouteMessage) : Option IpVersion :=
  match route.header.addressFamily with
  | .inet => some .v4
  | .inet6 => some .v6
  | _ => none

namespace Rtnetlink

variable {σ : Type} (net : Rtnetlink σ)

def routes (k : σ) : Set RouteMessage := {route | ∃ version, route ∈ (net.get version k).1}

/-- What is documented of the place of a route: a message that names no table is for the main
table, any other for the table that it names. The route that it asks for is dumped as `shown`. -/
structure Files (shown : RouteMessage → RouteMessage) : Prop where
  unspec : ∀ route, route.header.table = 0 → (shown route).header.table = 254
  table : ∀ route, route.header.table ≠ 0 → (shown route).header.table = route.header.table
  protocol : ∀ route, (shown route).header.protocol = route.header.protocol
  outputInterface : ∀ route, (shown route).outputInterface = route.outputInterface
  added : ∀ route k, (net.add route k).1 = .ok () → shown route ∈ net.routes (net.add route k).2

/-- The same kernel, with the routes that it was asked to delete. -/
def recording : Rtnetlink (σ × List RouteMessage) where
  link name k := net.link name k.1
  get version k := net.get version k.1
  add route k := ((net.add route k.1).1, (net.add route k.1).2, k.2)
  del route k := ((net.del route k.1).1, (net.del route k.1).2, k.2 ++ [route])

end Rtnetlink

namespace NetlinkClient

variable (self : NetlinkClient)

section Clearing

variable {σ : Type} {net : Rtnetlink σ} {tableId linkIndex : UInt32} {version : IpVersion}
  {route : RouteMessage}

theorem clearable_of_dumped {rest : Except RtnetlinkError Unit} {routes : List RouteMessage}
    {k : σ × List RouteMessage} (hk : ∀ r ∈ k.2, clearable tableId linkIndex r)
    (h : route ∈ (clearDumped net.recording version tableId linkIndex rest routes k).2.2) :
    clearable tableId linkIndex route := by
  induction routes generalizing k with
  | nil => exact hk route h
  | cons r routes ih =>
    rw [clearDumped] at h
    split at h
    · next hsel =>
      have hasked : ∀ r' ∈ (net.recording.del r k).2.2, clearable tableId linkIndex r' := by
        intro r' hr'
        rcases List.mem_append.mp hr' with hr' | hr'
        · exact hk r' hr'
        · rw [List.mem_singleton.mp hr']
          exact hsel
      split at h
      · next hdel =>
        rw [hdel] at hasked
        exact ih hasked h
      · next hdel =>
        rw [hdel] at hasked
        exact hasked route h
    · exact ih hk h

theorem clearable_of_cleared {k : σ}
    (h : route ∈ (clearMetalbondRoutes net.recording tableId linkIndex (k, [])).2.2) :
    clearable tableId linkIndex route := by
  have hnone : ∀ r ∈ ((k, []) : σ × List RouteMessage).2, clearable tableId linkIndex r := nofun
  have hfirst : ∀ r ∈ (clearDumped net.recording .v4 tableId linkIndex (net.get .v4 k).2
      (net.get .v4 k).1 (k, [])).2.2, clearable tableId linkIndex r :=
    fun r hr ↦ clearable_of_dumped hnone hr
  rw [clearMetalbondRoutes] at h
  split at h
  · next hv4 => exact hfirst route (hv4 ▸ h)
  · next hv4 =>
    refine clearable_of_dumped (fun r hr ↦ hfirst r ?_) h
    exact (congrArg (fun x ↦ r ∈ x.2.2) hv4).mpr hr

end Clearing

section Messages

variable {tableId : Int32} {dest dest' : Destination} {nexthop nexthop' : NextHop}
  {ip ip' : IpAddr}

/-- The two ways in which the code cuts a table id down to a byte. -/
theorem toUInt8_toInt8 (tableId : Int32) : tableId.toInt8.toUInt8 = tableId.toUInt32.toUInt8 := by
  apply UInt8.toBitVec_inj.mp
  simpa using BitVec.signExtend_eq_setWidth_of_le tableId.toBitVec (by decide)

theorem toNat_toUInt8 (tableId : Int32) :
    (tableId.toUInt32.toUInt8.toNat : ℤ) = tableId.toInt % 256 := by
  rw [UInt32.toNat_toUInt8, ← Int32.toNat_toBitVec, ← Int32.toInt_toBitVec,
    BitVec.toInt_eq_toNat_bmod, Int.bmod_def]
  omega

@[simp] theorem buildRouteMessage_table :
    (self.buildRouteMessage tableId dest ip).header.table = tableId.toUInt32.toUInt8 :=
  toUInt8_toInt8 tableId

@[simp] theorem buildRouteMessage_outputInterface :
    (self.buildRouteMessage tableId dest ip).outputInterface = some self.tunIndex := rfl

theorem buildRouteMessage_version :
    (self.buildRouteMessage tableId dest ip).version = some dest.ipVersion := by
  cases hv : dest.ipVersion <;>
    simp [RouteMessage.version, buildRouteMessage, addressFamily, hv]

theorem gateway_inj : gateway ip = gateway ip' ↔
    (∀ addr, ip = .v6 addr ↔ ip' = .v6 addr) := by
  cases ip <;> cases ip' <;> simp [gateway, eq_comm]

/-- Does the kernel see one route? It gets neither the host bits of the prefix, nor an
IPv4 next hop, nor the VNI and the ports of a next hop. -/
def SameRoute (p q : Destination × NextHop) : Prop :=
  p.1.net.prefixLen = q.1.net.prefixLen ∧ p.1.net.network = q.1.net.network ∧
    ∀ addr, p.2.targetAddress = .v6 addr ↔ q.2.targetAddress = .v6 addr

theorem ipVersion_eq_of_network_eq (h : dest.net.network = dest'.net.network) :
    dest.ipVersion = dest'.ipVersion := by
  rcases dest with ⟨_ | _⟩ <;> rcases dest' with ⟨_ | _⟩ <;>
    simp_all [IpNet.network, Destination.ipVersion]

theorem buildRouteMessage_eq_iff :
    self.buildRouteMessage tableId dest nexthop.targetAddress =
        self.buildRouteMessage tableId dest' nexthop'.targetAddress ↔
      SameRoute (dest, nexthop) (dest', nexthop') := by
  rw [SameRoute, ← gateway_inj]
  constructor
  · intro h
    simp only [buildRouteMessage, RouteMessage.mk.injEq, RouteHeader.mk.injEq,
      List.cons_append, List.nil_append, List.cons.injEq, RouteAttribute.destination.injEq] at h
    exact ⟨h.1.2.1, h.2.1, h.2.2.2⟩
  · rintro ⟨hlen, hnet, hgate⟩
    simp only at hlen hnet hgate
    have hversion := ipVersion_eq_of_network_eq hnet
    simp only [buildRouteMessage, addressFamily, hlen, hnet, hgate, hversion]

end Messages

section Requests

variable {tableId : Int32} {vni : Vni} {dest : Destination} {nexthop : NextHop}
  {route : RouteMessage}

def Installs (p : Destination × NextHop) : Prop :=
  p.2.hopType = .standard ∧ (self.config.ipv4Only → p.1.ipVersion = .v4)

instance (p : Destination × NextHop) : Decidable (self.Installs p) :=
  inferInstanceAs (Decidable (_ ∧ _))

theorem tableOf_eq_ok : self.tableOf vni = .ok tableId ↔
    self.config.vniTableMap.lookup vni = some tableId ∧ 0 < tableId := by
  unfold tableOf
  cases self.config.vniTableMap.lookup vni with
  | none => simp
  | some t =>
    by_cases ht : t ≤ 0
    · have hlt : ¬0 < t := by simpa using ht
      simp only [ht, if_true, reduceCtorEq, Option.some.injEq, false_iff]
      exact fun h ↦ hlt (h.1 ▸ h.2)
    · have hlt : 0 < t := by simpa using ht
      simp only [ht, if_false, Except.ok.injEq, Option.some.injEq]
      exact ⟨fun h ↦ ⟨h, h ▸ hlt⟩, And.left⟩

theorem request_of_installs (ht : self.tableOf vni = .ok tableId)
    (h : self.Installs (dest, nexthop)) :
    self.request vni dest nexthop =
      .ok (some (tableId, self.buildRouteMessage tableId dest nexthop.targetAddress)) := by
  have hv4 : ¬(self.config.ipv4Only = true ∧ dest.ipVersion ≠ .v4) :=
    fun hskip ↦ hskip.2 (h.2 hskip.1)
  have hhop : nexthop.hopType = .standard := h.1
  simp [request, hv4, ht, hhop]

theorem request_of_not_installs (ht : self.tableOf vni = .ok tableId)
    (h : ¬self.Installs (dest, nexthop)) : self.request vni dest nexthop = .ok none := by
  unfold request
  split
  · rfl
  · next hv4 =>
    have hhop : nexthop.hopType ≠ .standard := fun hhop ↦
      h ⟨hhop, fun hv ↦ by_contra fun hne ↦ hv4 ⟨hv, hne⟩⟩
    simp [ht, hhop]

theorem request_eq_some (h : self.request vni dest nexthop = .ok (some (tableId, route))) :
    self.tableOf vni = .ok tableId ∧
      route = self.buildRouteMessage tableId dest nexthop.targetAddress := by
  unfold request at h
  split at h
  · simp at h
  · split at h
    · simp at h
    · next t ht =>
      split at h
      · simp at h
      · simp only [Except.ok.injEq, Option.some.injEq, Prod.mk.injEq] at h
        obtain ⟨rfl, rfl⟩ := h
        exact ⟨ht, rfl⟩

end Requests

section Isolation

variable {σ : Type}

/-- The client keeps the table of `vni` apart from `tableId'`, the table of `vni'`, in a kernel
that shows its routes so. -/
structure Isolated (client : NetlinkClient) (net : Rtnetlink σ) (shown : RouteMessage → RouteMessage)
    (vni vni' : Vni) (tableId tableId' : Int32) : Prop where
  names : ∀ dest nexthop t route, client.request vni dest nexthop = .ok (some (t, route)) →
    ((shown route).header.table.toNat : ℤ) ≠ tableId'.toInt
  apart : ∀ dest nexthop t route dest' nexthop' t' route',
    client.request vni dest nexthop = .ok (some (t, route)) →
    client.request vni' dest' nexthop' = .ok (some (t', route')) →
    (shown route).header.table ≠ (shown route').header.table
  clear : ∀ k dest nexthop t' route, client.request vni' dest nexthop = .ok (some (t', route)) →
    shown route ∉ (client.clearRoutesForVni net.recording vni (k, [])).2.2
  startUp : ∀ k dest nexthop t' route, client.request vni' dest nexthop = .ok (some (t', route)) →
    shown route ∉ (clearEntry net.recording client.tunIndex vni tableId (k, [])).2.2

/-- The ids stand for two tables: the kernel knows them by their last byte, and by 0 it knows
the main table, which is 254. -/
def Separate (tableId tableId' : Int32) : Prop :=
  tableId.toInt % 256 ≠ tableId'.toInt % 256 ∧
    ¬(tableId.toInt % 256 = 0 ∧ tableId'.toInt % 256 = 254) ∧
    ¬(tableId.toInt % 256 = 254 ∧ tableId'.toInt % 256 = 0)

instance (tableId tableId' : Int32) : Decidable (Separate tableId tableId') :=
  inferInstanceAs (Decidable (_ ∧ _ ∧ _))

variable {self} {net : Rtnetlink σ} {shown : RouteMessage → RouteMessage} {vni vni' : Vni}
  {tableId tableId' : Int32} {dest : Destination} {nexthop : NextHop} {ip : IpAddr} {k : σ}

theorem toInt_pos (h : 0 < tableId) : 0 < tableId.toInt := by
  simpa using Int32.lt_iff_toInt_lt.mp h

theorem shown_table (hfiles : net.Files shown) :
    ((shown (self.buildRouteMessage tableId dest ip)).header.table.toNat : ℤ) =
      if tableId.toInt % 256 = 0 then 254 else tableId.toInt % 256 := by
  have hbyte := toNat_toUInt8 tableId
  have hzero : tableId.toUInt32.toUInt8 = 0 ↔ tableId.toInt % 256 = 0 := by
    rw [← hbyte, ← UInt8.toNat_inj]
    exact Int.natCast_eq_zero.symm
  by_cases h : tableId.toInt % 256 = 0
  · rw [if_pos h, hfiles.unspec _ (self.buildRouteMessage_table.trans (hzero.mpr h))]
    rfl
  · have htable : (self.buildRouteMessage tableId dest ip).header.table = tableId.toUInt32.toUInt8 :=
      self.buildRouteMessage_table
    rw [if_neg h, hfiles.table _ (fun h0 ↦ h (hzero.mp (htable.symm.trans h0))), htable, hbyte]

theorem clearRoutesForVni_asked (ht : self.tableOf vni = .ok tableId) :
    (self.clearRoutesForVni net.recording vni (k, [])).2.2 =
      (clearMetalbondRoutes net.recording tableId.toUInt32 self.tunIndex (k, [])).2.2 := by
  simp only [clearRoutesForVni, ht]
  split <;> next h => rw [h]

theorem clearEntry_asked (hpos : 0 < tableId) :
    (clearEntry net.recording self.tunIndex vni tableId (k, [])).2.2 =
      (clearMetalbondRoutes net.recording tableId.toUInt32 self.tunIndex (k, [])).2.2 := by
  have hle : ¬tableId ≤ 0 := by simpa using hpos
  simp only [clearEntry, hle, if_false]
  split <;> next h => rw [h]

/-- Clearing does not select the routes of a table that is another one to the kernel. -/
theorem not_cleared_of_separate (hfiles : net.Files shown) (h : Separate tableId tableId') :
    shown (self.buildRouteMessage tableId' dest ip) ∉
      (clearMetalbondRoutes net.recording tableId.toUInt32 self.tunIndex (k, [])).2.2 := by
  intro hasked
  have hclearable := clearable_of_cleared hasked
  have htable := @shown_table self σ net shown tableId' dest ip hfiles
  have hbyte := toNat_toUInt8 tableId
  simp only [clearable, decide_eq_true_eq] at hclearable
  rw [hclearable.1, hbyte] at htable
  obtain ⟨hne, -, hmain⟩ := h
  split at htable
  · next hzero => exact hmain ⟨htable, hzero⟩
  · exact hne htable

theorem isolated_iff_of_tableOf (hfiles : net.Files shown) (ht : self.tableOf vni = .ok tableId)
    (ht' : self.tableOf vni' = .ok tableId') :
    self.Isolated net shown vni vni' tableId tableId' ↔ Separate tableId tableId' := by
  have hpos := toInt_pos (self.tableOf_eq_ok.mp ht').2
  have hshown : ∀ {tableId dest ip},
      ((shown (self.buildRouteMessage tableId dest ip)).header.table.toNat : ℤ) =
        if tableId.toInt % 256 = 0 then 254 else tableId.toInt % 256 := shown_table hfiles
  have hbuilt : ∀ {vni tableId dest nexthop t route}, self.tableOf vni = .ok tableId →
      self.request vni dest nexthop = .ok (some (t, route)) →
      route = self.buildRouteMessage tableId dest nexthop.targetAddress := by
    intro vni tableId dest nexthop t route ht hr
    obtain ⟨hto, rfl⟩ := self.request_eq_some hr
    rw [Except.ok.inj (ht.symm.trans hto)]
  constructor
  · intro h
    have hinstalls : self.Installs (Sample.destination, Sample.nextHop) := ⟨rfl, fun _ ↦ rfl⟩
    have hapart := h.apart _ _ _ _ _ _ _ _ (self.request_of_installs ht hinstalls)
      (self.request_of_installs ht' hinstalls)
    rw [← UInt8.toNat_inj.ne, ← Int.natCast_inj.ne, hshown, hshown] at hapart
    refine ⟨fun hmod ↦ ?_, fun hmain ↦ ?_, fun hmain ↦ ?_⟩ <;>
      split at hapart <;> split at hapart <;> omega
  · intro hseparate
    obtain ⟨hne, hmain, hmain'⟩ := hseparate
    refine ⟨?_, ?_, ?_, ?_⟩
    · intro dest nexthop t route hr hname
      rw [hbuilt ht hr, hshown] at hname
      split at hname <;> omega
    · intro dest nexthop t route dest' nexthop' t' route' hr hr' heq
      have hname := congrArg (fun b : UInt8 ↦ (b.toNat : ℤ)) heq
      simp only [hbuilt ht hr, hbuilt ht' hr', hshown] at hname
      split at hname <;> split at hname <;> omega
    · intro k dest nexthop t' route hr
      rw [clearRoutesForVni_asked ht, hbuilt ht' hr]
      exact not_cleared_of_separate hfiles ⟨hne, hmain, hmain'⟩
    · intro k dest nexthop t' route hr
      rw [clearEntry_asked (self.tableOf_eq_ok.mp ht).2, hbuilt ht' hr]
      exact not_cleared_of_separate hfiles ⟨hne, hmain, hmain'⟩

end Isolation

end NetlinkClient

theorem pos_of_parseMapping {mapping : String} {vni : Vni} {tableId : Int32}
    (h : parseMapping mapping = .ok (vni, tableId)) : 0 < tableId := by
  unfold parseMapping at h
  split at h
  · split at h
    · simp at h
    · simp at h
    · split at h
      · simp at h
      · next hle =>
        obtain ⟨-, rfl⟩ := Prod.mk.inj (Except.ok.inj h)
        simpa using hle
  · simp at h

theorem pos_of_installRoutes {mappings : List String} {map₀ map : HashMap Vni Int32}
    (hmap₀ : ∀ vni tableId, map₀.lookup vni = some tableId → 0 < tableId)
    (h : installRoutes map₀ mappings = .ok map) {vni : Vni} {tableId : Int32}
    (ht : map.lookup vni = some tableId) : 0 < tableId := by
  induction mappings generalizing map₀ with
  | nil =>
    obtain rfl := Except.ok.inj h
    exact hmap₀ _ _ ht
  | cons mapping mappings ih =>
    rw [installRoutes] at h
    cases hp : parseMapping mapping with
    | error e => rw [hp] at h; cases h
    | ok entry =>
      obtain ⟨vni', tableId'⟩ := entry
      rw [hp] at h
      refine ih ?_ h
      intro vni'' t'' hlookup
      by_cases hv : vni'' = vni'
      · subst hv
        rw [Finmap.lookup_insert] at hlookup
        exact Option.some.inj hlookup ▸ pos_of_parseMapping hp
      · rw [Finmap.lookup_insert_of_ne _ hv] at hlookup
        exact hmap₀ _ _ hlookup

/-- The table field of a message is a byte, and the builder and the matcher both cut the table
id down to it: the tables of two VNIs are kept apart exactly when the kernel tells the bytes of
their ids apart. -/
theorem isolated_iff {σ : Type} {net : Rtnetlink σ} {shown : RouteMessage → RouteMessage}
    (hfiles : net.Files shown) {mappings : List String} {map : HashMap Vni Int32}
    (h : installRoutes ∅ mappings = .ok map) (self : NetlinkClient)
    (hself : self.config.vniTableMap = map) {vni vni' : Vni} {tableId tableId' : Int32}
    (ht : map.lookup vni = some tableId) (ht' : map.lookup vni' = some tableId') :
    self.Isolated net shown vni vni' tableId tableId' ↔
      NetlinkClient.Separate tableId tableId' := by
  have hpos : ∀ {vni tableId}, map.lookup vni = some tableId → 0 < tableId :=
    pos_of_installRoutes (by simp) h
  exact NetlinkClient.isolated_iff_of_tableOf hfiles
    (self.tableOf_eq_ok.mpr ⟨hself ▸ ht, hpos ht⟩) (self.tableOf_eq_ok.mpr ⟨hself ▸ ht', hpos ht'⟩)

namespace Sample

def shown (route : RouteMessage) : RouteMessage :=
  { route with header := { route.header with
      table := if route.header.table = 0 then 254 else route.header.table } }

def destinationOf : RouteAttribute → Option IpAddr
  | .destination addr => some addr
  | _ => none

/-- What there is at most one route of in a kernel: the table and the destination. -/
def routeKey (route : RouteMessage) : UInt8 × AddressFamily × UInt8 × Option IpAddr :=
  (route.header.table, route.header.addressFamily, route.header.destinationPrefixLength,
    route.attributes.findSome? destinationOf)

/-- A kernel whose state is the set of its routes. It answers `EAFNOSUPPORT`, `EEXIST` and
`ESRCH` as Linux does. -/
def kernel (ord : HashOrder) (links : String → Option UInt32) :
    Rtnetlink (Finset RouteMessage) where
  link name _ := .ok (links name)
  get version k := (ord.list (k.filter fun route ↦ route.version = some version), .ok ())
  add route k :=
    if route.version = none then (.error (.netlinkError (some (-97))), k)
    else if ∃ r ∈ k, routeKey r = routeKey (shown route) then
      (.error (.netlinkError (some (-17))), k)
    else (.ok (), insert (shown route) k)
  del route k :=
    if shown route ∈ k then (.ok (), k.erase (shown route))
    else (.error (.netlinkError (some (-3))), k)

variable {ord : HashOrder} {links : String → Option UInt32}

theorem mem_routes_kernel {route : RouteMessage} {k : Finset RouteMessage} :
    route ∈ (kernel ord links).routes k ↔ route ∈ k ∧ route.version ≠ none := by
  simp [Rtnetlink.routes, kernel, Option.ne_none_iff_exists', exists_and_left]

theorem files_kernel : (kernel ord links).Files shown where
  unspec route h := if_pos h
  table route h := if_neg h
  protocol _ := rfl
  outputInterface _ := rfl
  added route k h := by
    rw [mem_routes_kernel]
    simp only [kernel] at h ⊢
    split at h
    · cases h
    · next hversion =>
      split at h
      · cases h
      · next hfree =>
        rw [if_neg hversion, if_neg hfree]
        exact ⟨Finset.mem_insert_self _ _, hversion⟩

end Sample

/-- Table 257 is table 1 to the kernel. -/
theorem not_isolated_of_congruent : ∃ map, installRoutes ∅ ["1#1", "2#257"] = .ok map ∧
    map.lookup 1 = some 1 ∧ map.lookup 2 = some 257 ∧
    ¬(⟨⟨map, "ip6tnl0", false⟩, 7⟩ : NetlinkClient).Isolated
      (Sample.kernel default fun _ ↦ none) Sample.shown 2 1 257 1 := by
  refine ⟨((∅ : HashMap Vni Int32).insert 1 1).insert 2 257, rfl, rfl, rfl, fun h ↦ ?_⟩
  exact h.names Sample.destination Sample.nextHop _ _ rfl rfl

theorem isolated_mod_256 : ∃ map, installRoutes ∅ ["1#1", "2#258"] = .ok map ∧
    (⟨⟨map, "ip6tnl0", false⟩, 7⟩ : NetlinkClient).Isolated
      (Sample.kernel default fun _ ↦ none) Sample.shown 1 2 1 258 := by
  have hmap : installRoutes ∅ ["1#1", "2#258"] =
      .ok (((∅ : HashMap Vni Int32).insert 1 1).insert 2 258) := rfl
  exact ⟨_, hmap, (isolated_iff Sample.files_kernel hmap _ rfl rfl rfl).mpr (by decide)⟩

end MetalBond
