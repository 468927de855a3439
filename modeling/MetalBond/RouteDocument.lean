import MetalBond.Texts

namespace MetalBond

open Collections HashMap RouteExport

/-- What a serializer is told; an object has its fields in order. -/
inductive Json
  | num (n : ℕ)
  | str (text : String)
  | arr (elems : List Json)
  | obj (fields : List (String × Json))

namespace Json

def field (key : String) : Json → Option Json
  | obj fields => fields.lookup key
  | _ => none

inductive Proper : Json → Prop
  | num (n : ℕ) : Proper (.num n)
  | str (text : String) : Proper (.str text)
  | arr (elems : List Json) : (∀ elem ∈ elems, Proper elem) → Proper (.arr elems)
  | obj (fields : List (String × Json)) : (fields.map Prod.fst).Nodup →
    (∀ f ∈ fields, Proper f.2) → Proper (.obj fields)

end Json

def NextHopType.serialize : NextHopType → Json
  | standard => .str "Standard"
  | nat => .str "Nat"
  | loadbalancerTarget => .str "LoadbalancerTarget"

def NextHop.serialize (nh : NextHop) : Json :=
  .obj [
    ("target_address", .str (toString nh.targetAddress)),
    ("target_vni", .num nh.targetVni.toNat),
    ("hop_type", nh.hopType.serialize),
    ("nat_port_range_from", .num nh.natPortRangeFrom.toNat),
    ("nat_port_range_to", .num nh.natPortRangeTo.toNat)]

namespace RouteDocument

def serializeDestMap (destMap : BTreeMap Destination (List NextHop)) : Json :=
  .obj (entries toString (fun hops ↦ .arr (hops.map NextHop.serialize)) destMap)

def serializeVnetMap (map : Vnet) : Json := .obj (entries toString serializeDestMap map)

structure JsonRoutes where
  date : String
  vnet : Vnet
  metalbondVersion : String

def JsonRoutes.serialize (routes : JsonRoutes) : Json :=
  .obj [
    ("date", .str routes.date),
    ("vnet", serializeVnetMap routes.vnet),
    ("metalbond_version", .str routes.metalbondVersion)]

/-- What the document has under the texts of a VNI and of a destination. -/
def hopsAt (doc : Json) (vni dest : String) : Option Json :=
  ((doc.field "vnet").bind (·.field vni)).bind (·.field dest)

/-- The document has a value under the keys of a VNI and a destination. -/
def Lists (doc : Json) (vni dest : String) (hop : Json) : Prop :=
  ∃ hops, hopsAt doc vni dest = some (.arr hops) ∧ hop ∈ hops

/-- The routes can be read off the document, and it says nothing else of them. -/
structure Lossless (doc : Json) (t : RouteTable) : Prop where
  proper : doc.Proper
  /-- No VNI is left without destinations, and no destination without next hops. -/
  filled : (∀ vni dests, (doc.field "vnet").bind (·.field vni) = some dests →
      ∃ dest hop, Lists doc vni dest hop) ∧
    ∀ vni dest hops, hopsAt doc vni dest = some hops → ∃ hop, Lists doc vni dest hop
  once : ∀ vni dest hops, hopsAt doc vni dest = some (.arr hops) → hops.Nodup
  lists : ∀ r : Route,
    Lists doc (toString r.1) (toString r.2.1) r.2.2.serialize ↔ t.Has r
  only : ∀ vni dest hop, Lists doc vni dest hop → ∃ r : Route, t.Has r ∧
    vni = toString r.1 ∧ dest = toString r.2.1 ∧ hop = r.2.2.serialize

theorem vni_injective : Function.Injective fun vni : Vni ↦ toString vni :=
  fun _ _ ↦ toString_uint32_inj

theorem destination_injective : Function.Injective fun dest : Destination ↦ toString dest :=
  fun _ _ ↦ Destination.toString_inj

theorem hopType_injective : Function.Injective NextHopType.serialize := by
  intro a b h
  cases a <;> cases b
  all_goals first
    | rfl
    | exact absurd (Json.str.inj h) (by decide)

theorem nextHop_injective : Function.Injective NextHop.serialize := by
  intro a b h
  simp only [NextHop.serialize, Json.obj.injEq, List.cons.injEq, Prod.mk.injEq, Json.str.injEq,
    Json.num.injEq, true_and, and_true] at h
  obtain ⟨haddr, hvni, htype, hfrom, hto⟩ := h
  have haddr := IpAddr.toString_inj haddr
  have hvni := UInt32.toNat_inj.mp hvni
  have htype := hopType_injective htype
  have hfrom := UInt16.toNat_inj.mp hfrom
  have hto := UInt16.toNat_inj.mp hto
  cases a
  cases b
  simp_all

theorem hops_injective :
    Function.Injective fun hops : List NextHop ↦ Json.arr (hops.map NextHop.serialize) :=
  fun _ _ h ↦ List.map_injective_iff.mpr nextHop_injective (Json.arr.inj h)

theorem serializeDestMap_injective : Function.Injective serializeDestMap :=
  fun _ _ h ↦ entries_inj destination_injective hops_injective (Json.obj.inj h)

theorem serializeVnetMap_injective : Function.Injective serializeVnetMap :=
  fun _ _ h ↦ entries_inj vni_injective serializeDestMap_injective (Json.obj.inj h)

section Fields

variable (routes : JsonRoutes)

theorem proper_nextHop (nh : NextHop) : nh.serialize.Proper := by
  have hkeys : ["target_address", "target_vni", "hop_type", "nat_port_range_from",
      "nat_port_range_to"].Nodup := by decide
  refine .obj _ hkeys fun f hf ↦ ?_
  simp only [List.mem_cons, List.not_mem_nil, or_false] at hf
  rcases hf with rfl | rfl | rfl | rfl | rfl
  · exact .str _
  · exact .num _
  · cases nh.hopType <;> exact .str _
  · exact .num _
  · exact .num _

theorem proper_serialize : routes.serialize.Proper := by
  have hhops (hops : List NextHop) : (Json.arr (hops.map NextHop.serialize)).Proper := by
    refine .arr _ fun elem helem ↦ ?_
    obtain ⟨nh, -, rfl⟩ := List.mem_map.mp helem
    exact proper_nextHop nh
  have hdestMap (destMap : BTreeMap Destination (List NextHop)) :
      (serializeDestMap destMap).Proper := by
    refine .obj _ (nodup_entries destination_injective destMap) fun f hf ↦ ?_
    obtain ⟨dest, hops, -, rfl⟩ := mem_entries.mp hf
    exact hhops hops
  have hvnet : (serializeVnetMap routes.vnet).Proper := by
    refine .obj _ (nodup_entries vni_injective routes.vnet) fun f hf ↦ ?_
    obtain ⟨vni, destMap, -, rfl⟩ := mem_entries.mp hf
    exact hdestMap destMap
  have hkeys : ["date", "vnet", "metalbond_version"].Nodup := by decide
  refine .obj _ hkeys fun f hf ↦ ?_
  simp only [List.mem_cons, List.not_mem_nil, or_false] at hf
  rcases hf with rfl | rfl | rfl
  · exact .str _
  · exact hvnet
  · exact .str _

theorem field_vnet : routes.serialize.field "vnet" = some (serializeVnetMap routes.vnet) := rfl

theorem hopsAt_serialize (vni : Vni) (dest : Destination) :
    hopsAt routes.serialize (toString vni) (toString dest) =
      (routes.vnet[vni]?.bind (·[dest]?)).map fun hops ↦ .arr (hops.map NextHop.serialize) := by
  have hvni : (serializeVnetMap routes.vnet).field (toString vni) =
      routes.vnet[vni]?.map serializeDestMap := lookup_entries vni_injective routes.vnet vni
  rw [hopsAt, field_vnet, Option.bind_some, hvni]
  cases routes.vnet[vni]? with
  | none => rfl
  | some destMap => exact lookup_entries destination_injective destMap dest

theorem exists_of_field {vni : String} {dests : Json}
    (h : (routes.serialize.field "vnet").bind (·.field vni) = some dests) :
    ∃ (k : Vni) (destMap : BTreeMap Destination (List NextHop)),
      routes.vnet[k]? = some destMap ∧ vni = toString k ∧ dests = serializeDestMap destMap := by
  rw [field_vnet, Option.bind_some] at h
  have hmem := (lookup_eq_some_iff_mem (nodup_entries vni_injective routes.vnet)).mp h
  obtain ⟨k, destMap, hget, heq⟩ := mem_entries.mp hmem
  obtain ⟨htext, hvalue⟩ := Prod.mk.inj heq
  exact ⟨k, destMap, hget, htext, hvalue⟩

/-- There is nothing under the keys that are texts of no VNI or of no destination. -/
theorem exists_of_hopsAt {vni dest : String} {hops : Json}
    (h : hopsAt routes.serialize vni dest = some hops) :
    ∃ (k : Vni) (k' : Destination) (nhs : List NextHop),
      routes.vnet[k]?.bind (·[k']?) = some nhs ∧ vni = toString k ∧ dest = toString k' ∧
        hops = .arr (nhs.map NextHop.serialize) := by
  obtain ⟨dests, hvni, hdest⟩ := Option.bind_eq_some_iff.mp h
  obtain ⟨k, destMap, hget, rfl, rfl⟩ := exists_of_field routes hvni
  have hmem := (lookup_eq_some_iff_mem (nodup_entries destination_injective destMap)).mp hdest
  obtain ⟨k', nhs, hget', heq⟩ := mem_entries.mp hmem
  obtain ⟨htext, hvalue⟩ := Prod.mk.inj heq
  exact ⟨k, k', nhs, by rw [hget, Option.bind_some, hget'], rfl, htext, hvalue⟩

theorem lists_iff_shown (r : Route) :
    Lists routes.serialize (toString r.1) (toString r.2.1) r.2.2.serialize ↔
      shown routes.vnet r ≠ 0 := by
  obtain ⟨vni, dest, nh⟩ := r
  rw [Lists, hopsAt_serialize, shown]
  cases routes.vnet[vni]?.bind (·[dest]?) with
  | none => simp
  | some hops =>
    simp only [Option.map_some, Option.some.injEq, Option.getD_some, ne_eq,
      List.count_eq_zero, not_not]
    constructor
    · rintro ⟨_, heq, hmem⟩
      rw [← Json.arr.inj heq] at hmem
      exact (List.mem_map_of_injective nextHop_injective).mp hmem
    · intro hmem
      exact ⟨_, rfl, List.mem_map_of_mem hmem⟩

theorem exists_of_lists {vni dest : String} {hop : Json} (h : Lists routes.serialize vni dest hop) :
    ∃ r : Route, shown routes.vnet r ≠ 0 ∧ vni = toString r.1 ∧ dest = toString r.2.1 ∧
      hop = r.2.2.serialize := by
  obtain ⟨hops, hat, hmem⟩ := h
  obtain ⟨k, k', nhs, -, rfl, rfl, heq⟩ := exists_of_hopsAt routes hat
  rw [Json.arr.inj heq] at hmem hat
  obtain ⟨nh, hnh, rfl⟩ := List.mem_map.mp hmem
  exact ⟨(k, k', nh), (lists_iff_shown routes (k, k', nh)).mp ⟨_, hat, hmem⟩, rfl, rfl, rfl⟩

theorem nodup_of_shown (hshown : ∀ r, shown routes.vnet r ≤ 1) {vni dest : String}
    {hops : List Json} (h : hopsAt routes.serialize vni dest = some (.arr hops)) : hops.Nodup := by
  obtain ⟨k, k', nhs, hview, -, -, heq⟩ := exists_of_hopsAt routes h
  rw [Json.arr.inj heq]
  refine List.Nodup.map nextHop_injective (List.nodup_iff_count_le_one.mpr fun nh ↦ ?_)
  have hcount := hshown (k, k', nh)
  rwa [shown, hview] at hcount

end Fields

section Documents

variable (t : RouteTable) (date version : String)

def documentOf (orders : Orders) : Json :=
  JsonRoutes.serialize ⟨date, RouteExport.getRouteData orders t.routes, version⟩

/-- Texts of addresses tell them apart, the shortened ones of IPv6 too, so every table can be read
off its document. -/
theorem document_lossless (orders : Orders) :
    Lossless (documentOf t date version orders) t := by
  have hshown := shown_getRouteData orders t
  have hlists {r : Route} (h : t.Has r) : Lists (documentOf t date version orders)
      (toString r.1) (toString r.2.1) r.2.2.serialize := by
    rw [documentOf, lists_iff_shown, hshown, if_pos h]
    exact one_ne_zero
  refine ⟨proper_serialize _, ⟨?_, ?_⟩, ?_, fun r ↦ ?_, ?_⟩
  · intro vni dests hfield
    obtain ⟨k, destMap, hget, rfl, -⟩ := exists_of_field _ hfield
    obtain ⟨dest, nh, hhas⟩ := exists_has_of_getRouteData orders t hget
    exact ⟨_, _, hlists hhas⟩
  · intro vni dest hops hat
    obtain ⟨k, k', nhs, hview, rfl, rfl, -⟩ := exists_of_hopsAt _ hat
    rw [getElem?_view] at hview
    obtain ⟨nhMap, hlookup, -⟩ := Option.map_eq_some_iff.mp hview
    obtain ⟨nh, hhas⟩ := exists_has_of_lookup hlookup
    exact ⟨_, hlists hhas⟩
  · intro vni dest hops hat
    refine nodup_of_shown _ (fun r ↦ ?_) hat
    rw [hshown]
    split <;> omega
  · rw [documentOf, lists_iff_shown, hshown]
    simp
  · intro vni dest hop h
    obtain ⟨r, hr, htexts⟩ := exists_of_lists _ h
    refine ⟨r, ?_, htexts⟩
    rw [hshown] at hr
    simpa using hr

/-- One table has one document, whatever the orders of the iterations, if and only if no
destination has two next hops at one address with one VNI, such as a plain one and one behind
a NAT. -/
theorem same_document_iff :
    (∀ orders orders', documentOf t date version orders = documentOf t date version orders') ↔
      ∀ vni dest nh nh', t.Has (vni, dest, nh) → t.Has (vni, dest, nh') →
        nh.targetAddress = nh'.targetAddress → nh.targetVni = nh'.targetVni → nh = nh' := by
  constructor
  · intro hsame vni dest nh nh' hhas hhas' haddr hvni
    by_contra hne
    let orders : Orders := ⟨default, fun _ ↦ default, fun _ ↦ default⟩
    have hroutes := hsame orders.reverse orders
    simp only [documentOf, JsonRoutes.serialize, Json.obj.injEq, List.cons.injEq, Prod.mk.injEq,
      true_and, and_true] at hroutes
    exact getRouteData_reverse_ne hhas hhas' hne (NextHop.toString_eq_iff.mpr ⟨haddr, hvni⟩) orders
      (serializeVnetMap_injective hroutes)
  · intro htwo orders orders'
    have hdistinct : Distinct t := by
      intro vni dest nh nh' hhas hhas' htext
      obtain ⟨haddr, hvni⟩ := NextHop.toString_eq_iff.mp htext
      exact htwo vni dest nh nh' hhas hhas' haddr hvni
    rw [documentOf, hdistinct.same orders orders', documentOf]

end Documents

end RouteDocument

end MetalBond
