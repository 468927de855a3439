import MetalBond.Collections.HashMap
import MetalBond.Types

namespace MetalBond

open Collections HashMap

/-- Who announced a route; `none` is this node. -/
abbrev PeerKey := Option SocketAddr

abbrev NextHopMap := HashMap NextHop (Finset PeerKey)
abbrev DestinationMap := HashMap Destination NextHopMap
abbrev VniMap := HashMap Vni DestinationMap

abbrev Route := Vni × Destination × NextHop

/-- No level of the nested maps has an empty entry. -/
structure Compact (routes : VniMap) : Prop where
  vnis : Full routes
  destinations : ∀ vni, Full (valueAt routes vni)
  nextHops : ∀ vni dest, Full (valueAt (valueAt routes vni) dest)

/-- The routes by VNI, destination and next hop, each with the peers it came from. -/
structure RouteTable where
  routes : VniMap
  compact : Compact routes

namespace RouteTable

def new : RouteTable := ⟨∅, by constructor <;> simp [full_empty]⟩

instance : Inhabited RouteTable := ⟨new⟩

def sources (t : RouteTable) (r : Route) : Finset PeerKey :=
  valueAt (valueAt (valueAt t.routes r.1) r.2.1) r.2.2

def Has (t : RouteTable) (r : Route) : Prop := t.sources r ≠ ∅

instance (t : RouteTable) (r : Route) : Decidable (t.Has r) :=
  inferInstanceAs (Decidable (_ ≠ _))

@[simp] theorem sources_new (r : Route) : new.sources r = ∅ := by simp [new, sources]

@[ext] theorem ext_sources {t t' : RouteTable} (h : ∀ r, t.sources r = t'.sources r) : t = t' := by
  obtain ⟨m, hm⟩ := t
  obtain ⟨m', hm'⟩ := t'
  have he : m = m' := hm.vnis.ext hm'.vnis fun vni ↦
    (hm.destinations vni).ext (hm'.destinations vni) fun dest ↦
      (hm.nextHops vni dest).ext (hm'.nextHops vni dest) fun nh ↦ h (vni, dest, nh)
  subst he
  rfl

/-- Write a set of sources back through the three levels. -/
def store (t : RouteTable) (r : Route) (peers : Finset PeerKey) : RouteTable where
  routes := put t.routes r.1 (put (valueAt t.routes r.1) r.2.1
    (put (valueAt (valueAt t.routes r.1) r.2.1) r.2.2 peers))
  compact := {
    vnis := t.compact.vnis.put _ _
    destinations := fun vni ↦ by
      rw [valueAt_put]
      split
      · exact (t.compact.destinations _).put _ _
      · exact t.compact.destinations vni
    nextHops := fun vni dest ↦ by
      rw [valueAt_put]
      split
      · rw [valueAt_put]
        split
        · exact (t.compact.nextHops _ _).put _ _
        · exact t.compact.nextHops _ dest
      · exact t.compact.nextHops vni dest }

theorem sources_store (t : RouteTable) (r r' : Route) (peers : Finset PeerKey) :
    (t.store r peers).sources r' = if r' = r then peers else t.sources r' := by
  obtain ⟨vni, dest, nh⟩ := r
  obtain ⟨vni', dest', nh'⟩ := r'
  simp only [sources, store, valueAt_put, Prod.mk.injEq]
  by_cases hv : vni' = vni
  · by_cases hd : dest' = dest
    · by_cases hn : nh' = nh <;> simp [hv, hd, hn]
    · simp [hv, hd]
  · simp [hv]

def getVnis (t : RouteTable) : Finset Vni := t.routes.keys

def getDestinationsByVniWithPeer (t : RouteTable) (vni : Vni) : DestinationMap :=
  valueAt t.routes vni

/-- The next hops of each destination that this node announces itself; what has none of
them is left out. -/
def getLocalAnnouncements (t : RouteTable) : HashMap Vni (HashMap Destination (Finset NextHop)) :=
  prune (prune fun nhMap ↦ nhMap.keys.filter fun nh ↦ none ∈ valueAt nhMap nh) t.routes

/-- Adds a next hop and returns whether it was newly added. -/
def addNextHop (t : RouteTable) (vni : Vni) (dest : Destination) (nh : NextHop)
    (receivedFrom : PeerKey) : Bool × RouteTable :=
  let peers := t.sources (vni, dest, nh)
  (decide (receivedFrom ∉ peers), t.store (vni, dest, nh) (insert receivedFrom peers))

/-- Removes a next hop and returns the number of its remaining sources. -/
def removeNextHop (t : RouteTable) (vni : Vni) (dest : Destination) (nh : NextHop)
    (receivedFrom : PeerKey) : Except Error (ℕ × RouteTable) :=
  match t.routes.lookup vni with
  | none => .error (.vniNotFound vni)
  | some vniMap =>
    match vniMap.lookup dest with
    | none => .error (.destinationNotFound dest vni)
    | some destMap =>
      match destMap.lookup nh with
      | none => .error (.nextHopNotFound nh dest)
      | some peers =>
        if receivedFrom ∈ peers then
          let peers := peers.erase receivedFrom
          .ok (peers.card, t.store (vni, dest, nh) peers)
        else .error (.peerNotFound receivedFrom nh)

/-- Drop a peer from every set of sources and clean up the levels that become empty. -/
def dropPeer (t : RouteTable) (peer : SocketAddr) : RouteTable where
  routes := prune (prune (prune fun peers ↦ peers.erase (some peer))) t.routes
  compact := by
    refine ⟨full_prune _ _, fun vni ↦ ?_, fun vni dest ↦ ?_⟩
    · rw [valueAt_prune (prune_empty _)]; exact full_prune _ _
    · rw [valueAt_prune (prune_empty _), valueAt_prune (prune_empty _)]; exact full_prune _ _

/-- Removes all routes learned from a peer and returns them, in the order of the maps. -/
def removeRoutesFromPeer (ord : HashOrder) (t : RouteTable) (peer : SocketAddr) :
    List Route × RouteTable :=
  let removed := (ord.list t.routes.keys).flatMap fun vni ↦
    let destMap := valueAt t.routes vni
    (ord.list destMap.keys).flatMap fun dest ↦
      let nhMap := valueAt destMap dest
      (ord.list nhMap.keys).filterMap fun nh ↦
        if some peer ∈ valueAt nhMap nh then some (vni, dest, nh) else none
  (removed, t.dropPeer peer)

variable {t : RouteTable} {r : Route}

def allRoutes (t : RouteTable) : Finset Route :=
  t.routes.keys.biUnion fun vni ↦
    (valueAt t.routes vni).keys.biUnion fun dest ↦
      (valueAt (valueAt t.routes vni) dest).keys.image fun nh ↦ (vni, dest, nh)

theorem mem_keys_of_has {vni : Vni} {dest : Destination} {nh : NextHop} (h : t.Has (vni, dest, nh)) :
    vni ∈ t.routes.keys ∧ dest ∈ (valueAt t.routes vni).keys ∧
      nh ∈ (valueAt (valueAt t.routes vni) dest).keys := by
  have hd : valueAt (valueAt t.routes vni) dest ≠ ∅ := fun he ↦
    h (by simp only [sources, he, valueAt_empty])
  have hv : valueAt t.routes vni ≠ ∅ := fun he ↦ hd (by rw [he, valueAt_empty])
  exact ⟨(t.compact.vnis.mem_keys vni).mpr hv, ((t.compact.destinations vni).mem_keys dest).mpr hd,
    ((t.compact.nextHops vni dest).mem_keys nh).mpr h⟩

@[simp] theorem mem_allRoutes : r ∈ t.allRoutes ↔ t.Has r := by
  obtain ⟨vni, dest, nh⟩ := r
  simp only [allRoutes, Finset.mem_biUnion, Finset.mem_image, Prod.mk.injEq]
  constructor
  · intro hex
    obtain ⟨vni, -, dest, -, nh, hnh, rfl, rfl, rfl⟩ := hex
    exact ((t.compact.nextHops vni dest).mem_keys nh).mp hnh
  · intro h
    obtain ⟨hv, hd, hn⟩ := mem_keys_of_has h
    exact ⟨vni, hv, dest, hd, nh, hn, rfl, rfl, rfl⟩

theorem has_of_mem {k : PeerKey} (h : k ∈ t.sources r) : t.Has r := Finset.ne_empty_of_mem h

variable {vni : Vni} {dest : Destination} {nh : NextHop} {k : PeerKey} {peer : SocketAddr}

theorem mem_getLocalAnnouncements :
    nh ∈ valueAt (valueAt t.getLocalAnnouncements vni) dest ↔ none ∈ t.sources (vni, dest, nh) := by
  rw [getLocalAnnouncements, valueAt_prune (prune_empty _), valueAt_prune (by simp),
    Finset.mem_filter]
  exact and_iff_right_of_imp fun h ↦ (mem_keys_of_has (has_of_mem h)).2.2

theorem sources_addNextHop : (t.addNextHop vni dest nh k).2.sources r =
    if r = (vni, dest, nh) then insert k (t.sources (vni, dest, nh)) else t.sources r :=
  sources_store _ _ _ _

theorem removeNextHop_of_mem (h : k ∈ t.sources (vni, dest, nh)) :
    t.removeNextHop vni dest nh k =
      .ok (((t.sources (vni, dest, nh)).erase k).card,
        t.store (vni, dest, nh) ((t.sources (vni, dest, nh)).erase k)) := by
  unfold removeNextHop
  simp only [sources, valueAt] at h ⊢
  cases hv : t.routes.lookup vni with
  | none => simp [hv] at h
  | some vniMap =>
    cases hd : vniMap.lookup dest with
    | none => simp [hv, hd] at h
    | some destMap =>
      cases hn : destMap.lookup nh with
      | none => simp [hv, hd, hn] at h
      | some peers =>
        simp only [hv, hd, hn, Option.getD_some] at h ⊢
        rw [if_pos h]

theorem removeNextHop_of_notMem (h : k ∉ t.sources (vni, dest, nh)) :
    ∃ e, t.removeNextHop vni dest nh k = .error e := by
  unfold removeNextHop
  simp only [sources, valueAt] at h
  cases hv : t.routes.lookup vni with
  | none => exact ⟨_, rfl⟩
  | some vniMap =>
    cases hd : vniMap.lookup dest with
    | none => exact ⟨_, by simp only [hd]; rfl⟩
    | some destMap =>
      cases hn : destMap.lookup nh with
      | none => exact ⟨_, by simp only [hd, hn]; rfl⟩
      | some peers =>
        simp only [hv, hd, hn, Option.getD_some] at h
        exact ⟨_, by simp only [hd, hn, if_neg h]; rfl⟩

@[simp] theorem sources_dropPeer :
    (t.dropPeer peer).sources r = (t.sources r).erase (some peer) := by
  simp only [sources, dropPeer]
  rw [valueAt_prune (prune_empty _), valueAt_prune (prune_empty _), valueAt_prune (by simp)]

variable (ord : HashOrder)

theorem mem_removeRoutesFromPeer :
    r ∈ (t.removeRoutesFromPeer ord peer).1 ↔ some peer ∈ t.sources r := by
  obtain ⟨vni, dest, nh⟩ := r
  simp only [removeRoutesFromPeer, List.mem_flatMap, List.mem_filterMap, HashOrder.mem_list]
  constructor
  · intro hex
    obtain ⟨vni', -, dest', -, nh', -, h⟩ := hex
    split at h
    · next hmem =>
      cases h
      exact hmem
    · cases h
  · intro h
    obtain ⟨hv, hd, hn⟩ := mem_keys_of_has (has_of_mem h)
    exact ⟨vni, hv, dest, hd, nh, hn, if_pos h⟩

theorem nodup_removeRoutesFromPeer : (t.removeRoutesFromPeer ord peer).1.Nodup := by
  apply nodup_flatMap_of_tag Prod.fst (ord.nodup _)
  · intro vni
    apply nodup_flatMap_of_tag (fun r ↦ r.2.1) (ord.nodup _)
    · intro dest
      apply (ord.nodup _).filterMap
      intro nh nh' r h h'
      simp only [Option.mem_def, Option.ite_none_right_eq_some, Option.some.injEq] at h h'
      obtain ⟨-, rfl⟩ := h
      simpa using h'.2.symm
    · intro dest r hr
      simp only [List.mem_filterMap, Option.ite_none_right_eq_some, Option.some.injEq] at hr
      obtain ⟨nh, -, -, rfl⟩ := hr
      rfl
  · intro vni r hr
    simp only [List.mem_flatMap, List.mem_filterMap, Option.ite_none_right_eq_some,
      Option.some.injEq] at hr
    obtain ⟨dest, -, nh, -, -, rfl⟩ := hr
    rfl

end RouteTable

end MetalBond
