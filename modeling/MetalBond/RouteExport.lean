import MetalBond.Collections.Sorted
import MetalBond.RouteViews
import MetalBond.State
import Mathlib.Data.String.Basic

namespace MetalBond

open Collections HashMap

instance : Ord Ipv4Addr := ⟨compareOn fun addr ↦ addr.octets.toList⟩

instance : Ord Ipv6Addr := ⟨compareOn fun addr ↦ addr.octets.toList⟩

/-- Every IPv4 address comes before every IPv6 address. -/
def IpAddr.cmp : IpAddr → IpAddr → Ordering
  | v4 a, v4 b => compare a b
  | v4 _, v6 _ => .lt
  | v6 _, v4 _ => .gt
  | v6 a, v6 b => compare a b

instance : Ord IpAddr := ⟨IpAddr.cmp⟩

def Destination.cmp (dest other : Destination) : Ordering :=
  (compare dest.net.addr other.net.addr).then (compare dest.net.prefixLen other.net.prefixLen)

instance : Ord Destination := ⟨Destination.cmp⟩

namespace IpAddr

def family : IpAddr → ℕ
  | v4 _ => 4
  | v6 _ => 6

def bytes : IpAddr → List UInt8
  | v4 addr => addr.octets.toList
  | v6 addr => addr.octets.toList

theorem cmp_eq : cmp = compareLex (compareOn family) (compareOn bytes) := by
  funext a b
  cases a <;> cases b <;> rfl

theorem eq_of_bytes {a b : IpAddr} (hfamily : family a = family b) (hbytes : bytes a = bytes b) :
    a = b := by
  cases a with
  | v4 a =>
    cases b with
    | v4 b => exact congrArg v4 (congrArg Ipv4Addr.mk (Subtype.ext hbytes))
    | v6 b => cases hfamily
  | v6 a =>
    cases b with
    | v4 b => cases hfamily
    | v6 b => exact congrArg v6 (congrArg Ipv6Addr.mk (Subtype.ext hbytes))

end IpAddr

instance : Std.TransOrd IpAddr := by
  change Std.TransCmp IpAddr.cmp
  rw [IpAddr.cmp_eq]
  infer_instance

instance : Std.LawfulEqOrd IpAddr where
  eq_of_compare {a b} h := by
    change IpAddr.cmp a b = .eq at h
    rw [IpAddr.cmp_eq, compareLex_eq_eq] at h
    exact IpAddr.eq_of_bytes (Std.LawfulEqOrd.eq_of_compare h.1) (Std.LawfulEqOrd.eq_of_compare h.2)
  compare_self := Std.ReflCmp.compare_self

instance : Std.TransOrd Destination := inferInstanceAs (Std.TransCmp (compareLex
  (compareOn fun dest : Destination ↦ dest.net.addr) (compareOn fun dest ↦ dest.net.prefixLen)))

/-- The comparison of destinations, unlike the one of texts of next hops, leaves none out. -/
instance : Std.LawfulEqOrd Destination where
  eq_of_compare {a b} h := by
    change (compare a.net.addr b.net.addr).then (compare a.net.prefixLen b.net.prefixLen) = .eq at h
    rw [Ordering.then_eq_eq] at h
    have haddr := Std.LawfulEqOrd.eq_of_compare h.1
    have hlen := Std.LawfulEqOrd.eq_of_compare h.2
    obtain ⟨⟨_, _, _⟩ | ⟨_, _, _⟩⟩ := a <;> obtain ⟨⟨_, _, _⟩ | ⟨_, _, _⟩⟩ := b
    · cases haddr
      cases hlen
      rfl
    · cases haddr
    · cases haddr
    · cases haddr
      cases hlen
      rfl
  compare_self := Std.ReflCmp.compare_self

instance : ToString Ipv4Addr := ⟨fun addr ↦ ".".intercalate (addr.octets.toList.map toString)⟩

namespace Ipv6Addr

def segmentsOf : List UInt8 → List ℕ
  | hi :: lo :: rest => (hi.toNat * 256 + lo.toNat) :: segmentsOf rest
  | _ => []

def segments (addr : Ipv6Addr) : List ℕ := segmentsOf addr.octets.toList

/-- Addresses of the form `::ffff:a.b.c.d`. -/
def toIpv4Mapped (addr : Ipv6Addr) : Option Ipv4Addr :=
  if addr.octets.toList.take 12 = .replicate 10 0 ++ [0xff, 0xff] then some ⟨addr.octets.drop 12⟩
  else none

structure Span where
  start : ℕ
  len : ℕ

/-- One step of the search for the longest run of zero segments, the first one if there are
several: the longest so far, and the current one. -/
def zeroStep (spans : Span × Span) (segment : ℕ × ℕ) : Span × Span :=
  if segment.1 = 0 then
    let start := if spans.2.len = 0 then segment.2 else spans.2.start
    let current : Span := ⟨start, spans.2.len + 1⟩
    (if current.len > spans.1.len then current else spans.1, current)
  else (spans.1, ⟨0, 0⟩)

def zeroes (segments : List ℕ) : Span :=
  (segments.zipIdx.foldl zeroStep (⟨0, 0⟩, ⟨0, 0⟩)).1

def fmtSubslice (chunk : List ℕ) : String :=
  ":".intercalate (chunk.map fun segment ↦ .ofList (Nat.toDigits 16 segment))

instance : ToString Ipv6Addr where
  toString addr :=
    match addr.toIpv4Mapped with
    | some ipv4 => "::ffff:" ++ toString ipv4
    | none =>
      let zeroes := zeroes addr.segments
      if zeroes.len > 1 then
        fmtSubslice (addr.segments.take zeroes.start) ++ "::" ++
          fmtSubslice (addr.segments.drop (zeroes.start + zeroes.len))
      else fmtSubslice addr.segments

end Ipv6Addr

instance : ToString IpAddr where
  toString
    | .v4 addr => toString addr
    | .v6 addr => toString addr

instance : ToString NextHop where
  toString nh :=
    if nh.targetVni ≠ 0 then toString nh.targetAddress ++ " (VNI: " ++ toString nh.targetVni ++ ")"
    else toString nh.targetAddress

namespace RouteExport

open RouteViews

/-- The orders in which the iterations of one call visit its hash maps. -/
structure Orders where
  vnis : HashOrder
  hops : Vni → HashOrder
  destinations : Vni → HashOrder

abbrev Vnet := BTreeMap Vni (BTreeMap Destination (List NextHop))

section Handlers

variable (orders : Orders) (routes : VniMap)

/-- The destinations of a VNI, each with its next hops sorted by their texts. -/
def sortedDestMap (vni : Vni) : BTreeMap Destination (List NextHop) :=
  let destMap := getDestinationsByVni (orders.hops vni) routes vni
  fill (fun dest ↦ (destMap.lookup dest).bind fun hops ↦ some (sortBy toString hops))
    ((orders.destinations vni).list destMap.keys)

def getRouteData : Vnet :=
  fill (fun vni ↦
    if (sortedDestMap orders routes vni).isEmpty then none
    else some (sortedDestMap orders routes vni)) (getVnis orders.vnis routes)

end Handlers

def shown (vnet : Vnet) (r : Route) : ℕ :=
  ((vnet[r.1]?.bind (·[r.2.1]?)).map (·.count r.2.2)).getD 0

/-- A view depends on the table alone, and it shows every route of the table exactly once. -/
structure Canonical (t : RouteTable) : Prop where
  same : ∀ orders orders' : Orders, getRouteData orders t.routes = getRouteData orders' t.routes
  complete : ∀ (orders : Orders) (r : Route),
    shown (getRouteData orders t.routes) r = if t.Has r then 1 else 0

/-- The texts tell the next hops of a destination apart. -/
def Distinct (t : RouteTable) : Prop := ∀ vni dest nh nh', t.Has (vni, dest, nh) →
  t.Has (vni, dest, nh') → toString nh = toString nh' → nh = nh'

section View

variable (orders : Orders) (t : RouteTable)

theorem getElem?_sortedDestMap (vni : Vni) (dest : Destination) :
    (sortedDestMap orders t.routes vni)[dest]? =
      ((valueAt t.routes vni).lookup dest).map fun nhMap ↦
        sortBy toString ((orders.hops vni).list nhMap.keys) := by
  rw [sortedDestMap, getElem?_fill_keys, getDestinationsByVni_eq, lookup_collect]
  cases (valueAt t.routes vni).lookup dest <;> rfl

theorem sortedDestMap_of_notMem {vni : Vni} (h : vni ∉ getVnis orders.vnis t.routes) :
    sortedDestMap orders t.routes vni = ∅ := by
  have hempty : valueAt t.routes vni = ∅ := by
    rw [getVnis, HashOrder.mem_list, Finmap.mem_keys, ← Finmap.lookup_eq_none] at h
    rw [valueAt, h]
    rfl
  refine Std.ExtTreeMap.ext_getElem? fun dest ↦ ?_
  rw [getElem?_sortedDestMap, hempty]
  simp

theorem getElem?_getRouteData (vni : Vni) : (getRouteData orders t.routes)[vni]? =
    if (sortedDestMap orders t.routes vni).isEmpty then none
    else some (sortedDestMap orders t.routes vni) := by
  rw [getRouteData, getElem?_fill]
  split
  · rfl
  · next h =>
    rw [sortedDestMap_of_notMem orders t h]
    simp

theorem getElem?_view (vni : Vni) (dest : Destination) :
    (getRouteData orders t.routes)[vni]?.bind (·[dest]?) =
      ((valueAt t.routes vni).lookup dest).map fun nhMap ↦
        sortBy toString ((orders.hops vni).list nhMap.keys) := by
  rw [getElem?_getRouteData, ← getElem?_sortedDestMap]
  split
  · next hempty =>
    rw [Std.ExtTreeMap.isEmpty_iff.mp hempty]
    simp
  · rfl

variable {t} in
theorem mem_keys_iff_has {vni : Vni} {dest : Destination} {nhMap : NextHopMap}
    (h : (valueAt t.routes vni).lookup dest = some nhMap) (nh : NextHop) :
    nh ∈ nhMap.keys ↔ t.Has (vni, dest, nh) := by
  have hvalue : valueAt (valueAt t.routes vni) dest = nhMap := by
    generalize valueAt t.routes vni = destMap at h ⊢
    rw [valueAt, h, Option.getD_some]
  rw [← hvalue, mem_nextHops]
  exact Finset.nonempty_iff_ne_empty

variable {t} in
theorem lookup_of_has {vni : Vni} {dest : Destination} {nh : NextHop} (h : t.Has (vni, dest, nh)) :
    ∃ nhMap, (valueAt t.routes vni).lookup dest = some nhMap := by
  rw [← Option.isSome_iff_exists, isSome_lookup_of_full (t.compact.destinations vni),
    nextHops_ne_empty]
  obtain ⟨k, hk⟩ := Finset.nonempty_iff_ne_empty.mpr h
  exact ⟨nh, k, hk⟩

variable {t} in
theorem exists_has_of_lookup {vni : Vni} {dest : Destination} {nhMap : NextHopMap}
    (h : (valueAt t.routes vni).lookup dest = some nhMap) : ∃ nh, t.Has (vni, dest, nh) := by
  have hsome : ((valueAt t.routes vni).lookup dest).isSome := by simp [h]
  rw [isSome_lookup_of_full (t.compact.destinations vni), nextHops_ne_empty] at hsome
  obtain ⟨nh, k, hk⟩ := hsome
  exact ⟨nh, Finset.nonempty_iff_ne_empty.mp ⟨k, hk⟩⟩

/-- A VNI of a view has a route, since the handler leaves those without destinations out. -/
theorem exists_has_of_getRouteData {vni : Vni} {destMap : BTreeMap Destination (List NextHop)}
    (h : (getRouteData orders t.routes)[vni]? = some destMap) :
    ∃ dest nh, t.Has (vni, dest, nh) := by
  rw [getElem?_getRouteData] at h
  split at h
  · cases h
  · next hne =>
    rw [Std.ExtTreeMap.isEmpty_iff] at hne
    obtain ⟨dest, hdest⟩ : ∃ dest, (sortedDestMap orders t.routes vni)[dest]? ≠ none := by
      by_contra hall
      push Not at hall
      refine hne (Std.ExtTreeMap.ext_getElem? fun dest ↦ ?_)
      rw [hall dest, Std.ExtTreeMap.getElem?_empty]
    rw [getElem?_sortedDestMap, Option.ne_none_iff_exists'] at hdest
    obtain ⟨hops, hhops⟩ := hdest
    obtain ⟨nhMap, hlookup, -⟩ := Option.map_eq_some_iff.mp hhops
    exact ⟨dest, exists_has_of_lookup hlookup⟩

theorem shown_getRouteData (r : Route) :
    shown (getRouteData orders t.routes) r = if t.Has r then 1 else 0 := by
  obtain ⟨vni, dest, nh⟩ := r
  rw [shown, getElem?_view]
  cases hlookup : (valueAt t.routes vni).lookup dest with
  | none =>
    have hnone : ¬ t.Has (vni, dest, nh) := fun h ↦ by
      obtain ⟨nhMap, hsome⟩ := lookup_of_has h
      cases hlookup.symm.trans hsome
    rw [if_neg hnone]
    rfl
  | some nhMap =>
    have hcount : (sortBy toString ((orders.hops vni).list nhMap.keys)).count nh =
        if nh ∈ (orders.hops vni).list nhMap.keys then 1 else 0 := by
      rw [(sortBy_perm toString).count_eq, ((orders.hops vni).nodup nhMap.keys).count]
    simp only [Option.map_some, Option.getD_some, hcount, HashOrder.mem_list,
      mem_keys_iff_has hlookup]

variable {t} in
theorem Distinct.same (h : Distinct t) (orders orders' : Orders) :
    getRouteData orders t.routes = getRouteData orders' t.routes := by
  have hsame (vni : Vni) : sortedDestMap orders t.routes vni = sortedDestMap orders' t.routes vni := by
    refine Std.ExtTreeMap.ext_getElem? fun dest ↦ ?_
    rw [getElem?_sortedDestMap, getElem?_sortedDestMap]
    cases hlookup : (valueAt t.routes vni).lookup dest with
    | none => rfl
    | some nhMap =>
      have hperm : ((orders.hops vni).list nhMap.keys).Perm ((orders'.hops vni).list nhMap.keys) :=
        (List.perm_ext_iff_of_nodup ((orders.hops vni).nodup _) ((orders'.hops vni).nodup _)).mpr
          fun nh ↦ by simp only [HashOrder.mem_list]
      refine congrArg some (sortBy_eq_of_perm toString hperm fun nh hnh nh' hnh' htext ↦ ?_)
      simp only [Set.mem_ofPred_eq, HashOrder.mem_list, mem_keys_iff_has hlookup] at hnh hnh'
      exact h vni dest nh nh' hnh hnh' htext
  refine Std.ExtTreeMap.ext_getElem? fun vni ↦ ?_
  rw [getElem?_getRouteData, getElem?_getRouteData, hsame vni]

end View

def Orders.reverse (orders : Orders) : Orders :=
  ⟨orders.vnis.reverse, fun vni ↦ (orders.hops vni).reverse,
    fun vni ↦ (orders.destinations vni).reverse⟩

/-- Two next hops with one text come in the order of the iteration. -/
theorem getRouteData_reverse_ne {t : RouteTable} {vni : Vni} {dest : Destination}
    {nh nh' : NextHop} (hhas : t.Has (vni, dest, nh)) (hhas' : t.Has (vni, dest, nh'))
    (hne : nh ≠ nh') (htext : toString nh = toString nh') (orders : Orders) :
    getRouteData orders.reverse t.routes ≠ getRouteData orders t.routes := by
  intro heq
  obtain ⟨nhMap, hlookup⟩ := lookup_of_has hhas
  have hview := congrArg (fun vnet : Vnet ↦ vnet[vni]?.bind (·[dest]?)) heq
  simp only [getElem?_view, hlookup, Option.map_some, Option.some.injEq] at hview
  have hmem {nh : NextHop} (h : t.Has (vni, dest, nh)) :
      nh ∈ (orders.hops vni).list nhMap.keys := by
    rw [HashOrder.mem_list, mem_keys_iff_has hlookup]
    exact h
  exact sortBy_reverse_ne toString ((orders.hops vni).nodup nhMap.keys) (hmem hhas) (hmem hhas') hne
    htext hview

/-- The texts leave out the type and the ports of a next hop, and the sort keeps what it cannot
tell apart in the order in which it comes. -/
theorem canonical_iff (t : RouteTable) : Canonical t ↔ Distinct t := by
  constructor
  · intro h vni dest nh nh' hhas hhas' htext
    by_contra hne
    let orders : Orders := ⟨default, fun _ ↦ default, fun _ ↦ default⟩
    exact getRouteData_reverse_ne hhas hhas' hne htext orders (h.same orders.reverse orders)
  · intro h
    exact ⟨h.same, fun orders r ↦ shown_getRouteData orders t r⟩

def natHop : NextHop :=
  { Sample.nextHop with hopType := .nat, natPortRangeFrom := 1024, natPortRangeTo := 2047 }

def twoHops : RouteTable :=
  (RouteTable.new.store (1, Sample.destination, Sample.nextHop) {none}).store
    (1, Sample.destination, natHop) {none}

theorem twoHops_ambiguous : ¬ ∀ t : RouteTable, Canonical t := by
  intro hall
  have hne : Sample.nextHop ≠ natHop := by
    intro h
    cases congrArg NextHop.hopType h
  have hhas : twoHops.Has (1, Sample.destination, Sample.nextHop) := by
    rw [RouteTable.Has, twoHops, RouteTable.sources_store, if_neg (by simp [hne]),
      RouteTable.sources_store, if_pos rfl]
    exact Finset.singleton_ne_empty none
  have hhas' : twoHops.Has (1, Sample.destination, natHop) := by
    rw [RouteTable.Has, twoHops, RouteTable.sources_store, if_pos rfl]
    exact Finset.singleton_ne_empty none
  let orders : Orders := ⟨default, fun _ ↦ default, fun _ ↦ default⟩
  exact getRouteData_reverse_ne hhas hhas' hne rfl orders
    ((hall twoHops).same orders.reverse orders)

end RouteExport

end MetalBond
