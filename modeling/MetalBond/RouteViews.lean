import MetalBond.RouteMaps

namespace MetalBond.RouteViews

open Collections HashMap RouteMaps

section Readers

variable (ord : HashOrder) (routes : VniMap)

def getVnis : List Vni := ord.list routes.keys

def getDestinationsByVni (vni : Vni) : HashMap Destination (List NextHop) :=
  match routes.lookup vni with
  | none => ∅
  | some destMap => collect ord (fun _ nhMap ↦ some (ord.list nhMap.keys)) destMap

def getDestinationsByVniWithPeer (vni : Vni) :
    HashMap Destination (HashMap NextHop (List PeerKey)) :=
  match routes.lookup vni with
  | none => ∅
  | some destMap =>
    collect ord (fun _ nhMap ↦ some (collect ord (fun _ peerSet ↦ some (ord.list peerSet)) nhMap))
      destMap

def getNextHopsByDestination (vni : Vni) (dest : Destination) : List NextHop :=
  (((routes.lookup vni).bind (·.lookup dest)).map fun nhMap ↦ ord.list nhMap.keys).getD []

def nextHopExists (vni : Vni) (dest : Destination) (nh : NextHop) (receivedFrom : PeerKey) : Bool :=
  match ((routes.lookup vni).bind (·.lookup dest)).bind (·.lookup nh) with
  | none => false
  | some peerSet => decide (receivedFrom ∈ peerSet)

def localHops (nhMap : NextHopMap) : List NextHop :=
  (ord.list nhMap.keys).filter fun nh ↦ decide (none ∈ valueAt nhMap nh)

/-- What has no local next hop is left out at both levels. -/
def getLocalAnnouncements : HashMap Vni (HashMap Destination (List NextHop)) :=
  collect ord (fun _ destMap ↦
    let vniLocalRoutes := collect ord (fun _ nhMap ↦
      let nhs := localHops ord nhMap
      if nhs = [] then none else some nhs) destMap
    if vniLocalRoutes = ∅ then none else some vniLocalRoutes) routes

end Readers

/-- An entry lists the elements of a set, each once, and there is none for the empty set. -/
structure Lists {α : Type} (entry : Option (List α)) (A : Set α) : Prop where
  nodup : (entry.getD []).Nodup
  mem : ∀ a, a ∈ entry.getD [] ↔ a ∈ A
  isSome : entry.isSome ↔ A.Nonempty

/-- The six readers agree with one set of sourced routes. -/
structure Agree (ord : HashOrder) (routes : VniMap) (S : Set SourcedRoute) : Prop where
  vnis_nodup : (getVnis ord routes).Nodup
  vnis : ∀ vni, vni ∈ getVnis ord routes ↔ ∃ dest nh k, (vni, dest, nh, k) ∈ S
  destinations : ∀ vni dest, Lists ((getDestinationsByVni ord routes vni).lookup dest)
    {nh | ∃ k, (vni, dest, nh, k) ∈ S}
  destinationsWithPeer : ∀ vni dest,
    ((getDestinationsByVniWithPeer ord routes vni).lookup dest).isSome ↔
      ∃ nh k, (vni, dest, nh, k) ∈ S
  nextHopsWithPeer : ∀ vni dest nh,
    Lists (((getDestinationsByVniWithPeer ord routes vni).lookup dest).bind (·.lookup nh))
      {k | (vni, dest, nh, k) ∈ S}
  nextHops_nodup : ∀ vni dest, (getNextHopsByDestination ord routes vni dest).Nodup
  nextHops : ∀ vni dest nh, nh ∈ getNextHopsByDestination ord routes vni dest ↔
    ∃ k, (vni, dest, nh, k) ∈ S
  exists_iff : ∀ vni dest nh k, nextHopExists routes vni dest nh k ↔ (vni, dest, nh, k) ∈ S
  localVnis : ∀ vni, ((getLocalAnnouncements ord routes).lookup vni).isSome ↔
    ∃ dest nh, (vni, dest, nh, none) ∈ S
  localHops : ∀ vni dest,
    Lists (((getLocalAnnouncements ord routes).lookup vni).bind (·.lookup dest))
      {nh | (vni, dest, nh, none) ∈ S}

section Lookups

variable {K V : Type} [DecidableEq K] [EmptyCollection V]

theorem isSome_lookup_of_full {m : HashMap K V} (h : Full m) (k : K) :
    (m.lookup k).isSome ↔ valueAt m k ≠ ∅ := by
  rw [← h.mem_keys, Finmap.mem_keys, Finmap.lookup_isSome]

theorem ne_empty_iff {m : HashMap K V} (h : Full m) : m ≠ ∅ ↔ ∃ k, valueAt m k ≠ ∅ := by
  constructor
  · intro hne
    by_contra hall
    push Not at hall
    refine hne (h.ext full_empty fun k ↦ ?_)
    rw [hall k, valueAt_empty]
  · intro hex hempty
    obtain ⟨k, hk⟩ := hex
    exact hk (by rw [hempty, valueAt_empty])

end Lookups

variable (ord : HashOrder) (t : RouteTable)

theorem getDestinationsByVni_eq (vni : Vni) : getDestinationsByVni ord t.routes vni =
    collect ord (fun _ nhMap ↦ some (ord.list nhMap.keys)) (valueAt t.routes vni) := by
  unfold getDestinationsByVni valueAt
  cases t.routes.lookup vni with
  | none => exact (collect_empty ord _).symm
  | some destMap => rfl

theorem getDestinationsByVniWithPeer_eq (vni : Vni) :
    getDestinationsByVniWithPeer ord t.routes vni =
      collect ord (fun _ nhMap ↦
        some (collect ord (fun _ peerSet ↦ some (ord.list peerSet)) nhMap))
        (t.getDestinationsByVniWithPeer vni) := by
  unfold getDestinationsByVniWithPeer RouteTable.getDestinationsByVniWithPeer valueAt
  cases t.routes.lookup vni with
  | none => exact (collect_empty ord _).symm
  | some destMap => rfl

theorem nextHops_ne_empty (vni : Vni) (dest : Destination) :
    valueAt (valueAt t.routes vni) dest ≠ ∅ ↔ ∃ nh k, k ∈ t.sources (vni, dest, nh) := by
  rw [ne_empty_iff (t.compact.nextHops vni dest)]
  exact exists_congr fun nh ↦ Finset.nonempty_iff_ne_empty.symm

theorem destinations_ne_empty (vni : Vni) :
    valueAt t.routes vni ≠ ∅ ↔ ∃ dest nh k, k ∈ t.sources (vni, dest, nh) := by
  rw [ne_empty_iff (t.compact.destinations vni)]
  exact exists_congr fun dest ↦ nextHops_ne_empty t vni dest

theorem mem_nextHops (vni : Vni) (dest : Destination) (nh : NextHop) :
    nh ∈ (valueAt (valueAt t.routes vni) dest).keys ↔ ∃ k, k ∈ t.sources (vni, dest, nh) := by
  rw [(t.compact.nextHops vni dest).mem_keys]
  exact Finset.nonempty_iff_ne_empty.symm

theorem lists_lookup {K V α : Type} [DecidableEq K] [EmptyCollection V] {m : HashMap K V}
    (h : Full m) {k : K} {list : V → List α} {A : Set α} (hnodup : (list (valueAt m k)).Nodup)
    (hmem : ∀ a, a ∈ list (valueAt m k) ↔ a ∈ A) (hne : valueAt m k ≠ ∅ ↔ A.Nonempty) :
    Lists ((m.lookup k).map list) A := by
  cases hk : m.lookup k with
  | none =>
    have hempty : ¬ A.Nonempty := by
      rw [← hne, ← isSome_lookup_of_full h, hk]
      exact Bool.false_ne_true
    refine ⟨.nil, fun a ↦ ?_, by simpa using hempty⟩
    simpa using fun ha ↦ hempty ⟨a, ha⟩
  | some v =>
    have hv : valueAt m k = v := by rw [valueAt, hk, Option.getD_some]
    rw [hv] at hnodup hmem
    refine ⟨hnodup, hmem, ?_⟩
    rw [← hne, ← isSome_lookup_of_full h, hk]
    rfl

theorem lists_destinations (vni : Vni) (dest : Destination) :
    Lists ((getDestinationsByVni ord t.routes vni).lookup dest)
      {nh | ∃ k, k ∈ t.sources (vni, dest, nh)} := by
  have hlookup : (getDestinationsByVni ord t.routes vni).lookup dest =
      ((valueAt t.routes vni).lookup dest).map fun nhMap ↦ ord.list nhMap.keys := by
    rw [getDestinationsByVni_eq, lookup_collect, Option.map_eq_bind]
    rfl
  rw [hlookup]
  refine lists_lookup (t.compact.destinations vni) (ord.nodup _) (fun nh ↦ ?_) ?_
  · rw [ord.mem_list]
    exact mem_nextHops t vni dest nh
  · exact nextHops_ne_empty t vni dest

theorem lookup_withPeer (vni : Vni) (dest : Destination) :
    (getDestinationsByVniWithPeer ord t.routes vni).lookup dest =
      ((valueAt t.routes vni).lookup dest).map fun nhMap ↦
        collect ord (fun _ peerSet ↦ some (ord.list peerSet)) nhMap := by
  rw [getDestinationsByVniWithPeer_eq, lookup_collect, Option.map_eq_bind]
  rfl

theorem lists_withPeer (vni : Vni) (dest : Destination) (nh : NextHop) :
    Lists (((getDestinationsByVniWithPeer ord t.routes vni).lookup dest).bind (·.lookup nh))
      {k | k ∈ t.sources (vni, dest, nh)} := by
  have hlookup : ((getDestinationsByVniWithPeer ord t.routes vni).lookup dest).bind (·.lookup nh) =
      ((valueAt (valueAt t.routes vni) dest).lookup nh).map fun peerSet ↦ ord.list peerSet := by
    rw [lookup_withPeer]
    generalize valueAt t.routes vni = destMap
    rw [valueAt]
    cases destMap.lookup dest with
    | none => simp
    | some nhMap =>
      rw [Option.map_some, Option.bind_some, lookup_collect, Option.getD_some, Option.map_eq_bind]
      rfl
  rw [hlookup]
  refine lists_lookup (t.compact.nextHops vni dest) (ord.nodup _) (fun k ↦ ?_) ?_
  · rw [ord.mem_list]
    rfl
  · exact Finset.nonempty_iff_ne_empty.symm

theorem nextHopExists_iff (vni : Vni) (dest : Destination) (nh : NextHop) (k : PeerKey) :
    nextHopExists t.routes vni dest nh k ↔ k ∈ t.sources (vni, dest, nh) := by
  unfold nextHopExists RouteTable.sources valueAt
  cases t.routes.lookup vni with
  | none => simp
  | some destMap =>
    cases hd : destMap.lookup dest with
    | none => simp [hd]
    | some nhMap => cases hn : nhMap.lookup nh <;> simp [hd, hn]

theorem nextHopsByDestination_eq (vni : Vni) (dest : Destination) :
    getNextHopsByDestination ord t.routes vni dest =
      ord.list (valueAt (valueAt t.routes vni) dest).keys := by
  unfold getNextHopsByDestination valueAt
  cases t.routes.lookup vni with
  | none => simp
  | some destMap => cases hd : destMap.lookup dest <;> simp [hd]

def localDestinations (destMap : DestinationMap) : HashMap Destination (List NextHop) :=
  collect ord (fun _ nhMap ↦
    if localHops ord nhMap = [] then none else some (localHops ord nhMap)) destMap

theorem lookup_localAnnouncements (vni : Vni) :
    (getLocalAnnouncements ord t.routes).lookup vni =
      if localDestinations ord (valueAt t.routes vni) = ∅ then none
      else some (localDestinations ord (valueAt t.routes vni)) := by
  have hlookup : (getLocalAnnouncements ord t.routes).lookup vni =
      (t.routes.lookup vni).bind fun destMap ↦
        if localDestinations ord destMap = ∅ then none else some (localDestinations ord destMap) :=
    lookup_collect ..
  have hempty : localDestinations ord ∅ = ∅ := collect_empty ..
  rw [hlookup, valueAt]
  cases t.routes.lookup vni with
  | none => simp [hempty]
  | some destMap => rfl

theorem lookup_localDestinations (vni : Vni) (dest : Destination) :
    (localDestinations ord (valueAt t.routes vni)).lookup dest =
      if localHops ord (valueAt (valueAt t.routes vni) dest) = [] then none
      else some (localHops ord (valueAt (valueAt t.routes vni) dest)) := by
  have hempty : localHops ord ∅ = [] := by simp [localHops]
  rw [localDestinations, lookup_collect]
  generalize valueAt t.routes vni = destMap
  rw [valueAt]
  cases destMap.lookup dest with
  | none => simp [hempty]
  | some nhMap => rfl

theorem mem_localHops (vni : Vni) (dest : Destination) (nh : NextHop) :
    nh ∈ localHops ord (valueAt (valueAt t.routes vni) dest) ↔
      none ∈ t.sources (vni, dest, nh) := by
  rw [localHops, List.mem_filter, ord.mem_list, mem_nextHops, decide_eq_true_iff]
  exact and_iff_right_of_imp fun h ↦ ⟨none, h⟩

theorem isSome_localDestinations (vni : Vni) (dest : Destination) :
    ((localDestinations ord (valueAt t.routes vni)).lookup dest).isSome ↔
      ∃ nh, none ∈ t.sources (vni, dest, nh) := by
  rw [lookup_localDestinations]
  simp only [← mem_localHops ord]
  split
  · next hnil => simp [hnil]
  · next hne => simpa using List.exists_mem_of_ne_nil _ hne

theorem lists_localHops (vni : Vni) (dest : Destination) :
    Lists (((getLocalAnnouncements ord t.routes).lookup vni).bind (·.lookup dest))
      {nh | none ∈ t.sources (vni, dest, nh)} := by
  have hlookup : ((getLocalAnnouncements ord t.routes).lookup vni).bind (·.lookup dest) =
      (localDestinations ord (valueAt t.routes vni)).lookup dest := by
    rw [lookup_localAnnouncements]
    split
    · next hempty => simp [hempty]
    · rfl
  have hlist : ((localDestinations ord (valueAt t.routes vni)).lookup dest).getD [] =
      localHops ord (valueAt (valueAt t.routes vni) dest) := by
    rw [lookup_localDestinations]
    split
    · next hnil => rw [hnil, Option.getD_none]
    · rfl
  rw [hlookup]
  refine ⟨?_, fun nh ↦ ?_, isSome_localDestinations ord t vni dest⟩
  · rw [hlist]
    exact (ord.nodup _).filter _
  · rw [hlist]
    exact mem_localHops ord t vni dest nh

theorem isSome_localAnnouncements (vni : Vni) :
    ((getLocalAnnouncements ord t.routes).lookup vni).isSome ↔
      ∃ dest nh, none ∈ t.sources (vni, dest, nh) := by
  simp only [← isSome_localDestinations ord]
  rw [lookup_localAnnouncements]
  split
  · next hempty => simp [hempty]
  · next hne =>
    refine iff_of_true rfl ?_
    by_contra hall
    push Not at hall
    refine hne (Finmap.ext_lookup fun dest ↦ ?_)
    rw [Finmap.lookup_empty]
    exact Option.not_isSome_iff_eq_none.mp (hall dest)

theorem agree_routes : Agree ord t.routes (denoted t.routes) where
  vnis_nodup := ord.nodup _
  vnis vni := by
    rw [getVnis, ord.mem_list, t.compact.vnis.mem_keys]
    exact destinations_ne_empty t vni
  destinations vni dest := lists_destinations ord t vni dest
  destinationsWithPeer vni dest := by
    rw [lookup_withPeer, Option.isSome_map, isSome_lookup_of_full (t.compact.destinations vni)]
    exact nextHops_ne_empty t vni dest
  nextHopsWithPeer vni dest nh := lists_withPeer ord t vni dest nh
  nextHops_nodup vni dest := by
    rw [nextHopsByDestination_eq]
    exact ord.nodup _
  nextHops vni dest nh := by
    rw [nextHopsByDestination_eq, ord.mem_list]
    exact mem_nextHops t vni dest nh
  exists_iff vni dest nh k := nextHopExists_iff t vni dest nh k
  localVnis vni := isSome_localAnnouncements ord t vni
  localHops vni dest := lists_localHops ord t vni dest

/-- Whatever operations led to the table and in whatever order its maps are visited, all
readers show the same routes, those that the operations leave. -/
theorem views_agree (ops : List Op) (ord : HashOrder) :
    Agree ord (after ops) (ops.foldl Op.applySet ∅) := by
  obtain ⟨t, ht, hset⟩ := routes_after ops
  rw [ht, ← hset]
  exact agree_routes ord t

end MetalBond.RouteViews
