import MetalBond.Collections.Sweep
import MetalBond.RouteTable
import Mathlib.Data.Set.Card

namespace MetalBond.RouteMaps

open Collections HashMap

def addNextHop (routes : VniMap) (vni : Vni) (dest : Destination) (nh : NextHop)
    (receivedFrom : PeerKey) : Bool × VniMap :=
  let destMap := valueAt routes vni
  let nhMap := valueAt destMap dest
  let peers := valueAt nhMap nh
  (decide (receivedFrom ∉ peers),
    routes.insert vni (destMap.insert dest (nhMap.insert nh (insert receivedFrom peers))))

def removeNextHop (routes : VniMap) (vni : Vni) (dest : Destination) (nh : NextHop)
    (receivedFrom : PeerKey) : Except Error ℕ × VniMap :=
  match routes.lookup vni with
  | none => (.error (.vniNotFound vni), routes)
  | some vniMap =>
    match vniMap.lookup dest with
    | none => (.error (.destinationNotFound dest vni), routes)
    | some destMap =>
      match destMap.lookup nh with
      | none => (.error (.nextHopNotFound nh dest), routes)
      | some nhMap =>
        if receivedFrom ∈ nhMap then
          let nhMap := nhMap.erase receivedFrom
          let destMap := if nhMap = ∅ then destMap.erase nh else destMap.insert nh nhMap
          let vniMap := if destMap = ∅ then vniMap.erase dest else vniMap.insert dest destMap
          (.ok nhMap.card, if vniMap = ∅ then routes.erase vni else routes.insert vni vniMap)
        else (.error (.peerNotFound receivedFrom nh), routes)

section Loops

variable (ord : HashOrder) (peer : SocketAddr)

def dropFromPeers (vni : Vni) (dest : Destination) (nh : NextHop) (peerSet : Finset PeerKey) :
    List Route × Finset PeerKey :=
  (if some peer ∈ peerSet then [(vni, dest, nh)] else [], peerSet.erase (some peer))

def dropFromNextHops (vni : Vni) (dest : Destination) (nhMap : NextHopMap) :
    List Route × NextHopMap :=
  let s := sweep (dropFromPeers peer vni dest) (ord.list nhMap.keys) nhMap
  (s.collected, s.cleanup)

def dropFromDestinations (vni : Vni) (destMap : DestinationMap) : List Route × DestinationMap :=
  let s := sweep (dropFromNextHops ord peer vni) (ord.list destMap.keys) destMap
  (s.collected, s.cleanup)

/-- Three nested loops, each of which cleans up what the loop within it emptied. -/
def removeRoutesFromPeer (routes : VniMap) : List Route × VniMap :=
  let s := sweep (dropFromDestinations ord peer) (ord.list routes.keys) routes
  (s.collected, s.cleanup)

end Loops

variable (t : RouteTable) (vni : Vni) (dest : Destination) (nh : NextHop) (k : PeerKey)

theorem routes_addNextHop :
    addNextHop t.routes vni dest nh k =
      ((t.addNextHop vni dest nh k).1, (t.addNextHop vni dest nh k).2.routes) := by
  refine Prod.ext rfl ?_
  have hpeers : insert k (t.sources (vni, dest, nh)) ≠ ∅ := Finset.insert_ne_empty _ _
  simp only [RouteTable.addNextHop, RouteTable.store, put, if_neg hpeers,
    if_neg (insert_ne_empty _ _ _)]
  rfl

theorem routes_removeNextHop :
    removeNextHop t.routes vni dest nh k =
      match t.removeNextHop vni dest nh k with
      | .ok (n, t') => (.ok n, t'.routes)
      | .error e => (.error e, t.routes) := by
  unfold removeNextHop RouteTable.removeNextHop
  cases hv : t.routes.lookup vni with
  | none => rfl
  | some vniMap =>
    cases hd : vniMap.lookup dest with
    | none => simp [hd]
    | some destMap =>
      cases hn : destMap.lookup nh with
      | none => simp [hd, hn]
      | some nhMap =>
        simp only [hd, hn]
        split
        · simp [RouteTable.store, put, valueAt, hv, hd]
        · rfl

theorem collected_flatMap {K V R : Type} [DecidableEq K] [EmptyCollection V] [DecidableEq V]
    (ord : HashOrder) {f : K → V → List R × V} {m : HashMap K V} :
    (sweep f (ord.list m.keys) m).collected =
      (ord.list m.keys).flatMap fun k ↦ (f k (valueAt m k)).1 := by
  rw [collected_sweep (ord.nodup _)]
  refine List.flatMap_congr fun k hk ↦ ?_
  rw [ord.mem_list, Finmap.mem_keys, ← Finmap.lookup_isSome] at hk
  obtain ⟨v, hv⟩ := Option.isSome_iff_exists.mp hk
  simp [valueAt, hv]

theorem routes_removeRoutesFromPeer (ord : HashOrder) (peer : SocketAddr) :
    removeRoutesFromPeer ord peer t.routes =
      ((t.removeRoutesFromPeer ord peer).1, (t.removeRoutesFromPeer ord peer).2.routes) := by
  have hhops : ∀ vni dest nhMap, dropFromNextHops ord peer vni dest nhMap =
      ((ord.list nhMap.keys).filterMap fun nh ↦
          if some peer ∈ valueAt nhMap nh then some (vni, dest, nh) else none,
        prune (fun peers ↦ peers.erase (some peer)) nhMap) := by
    intro vni dest nhMap
    have hclean := @cleanup_sweep _ _ _ _ _ _ (dropFromPeers peer vni dest) nhMap ord
      (fun peers ↦ peers.erase (some peer)) fun _ _ ↦ rfl
    rw [dropFromNextHops, collected_flatMap, hclean]
    congr 1
    rw [List.filterMap_eq_flatMap_toList]
    refine List.flatMap_congr fun nh _ ↦ ?_
    simp only [dropFromPeers]
    split <;> rfl
  have hdests : ∀ vni destMap, dropFromDestinations ord peer vni destMap =
      ((ord.list destMap.keys).flatMap fun dest ↦
          (dropFromNextHops ord peer vni dest (valueAt destMap dest)).1,
        prune (prune fun peers ↦ peers.erase (some peer)) destMap) := by
    intro vni destMap
    have hclean := @cleanup_sweep _ _ _ _ _ _ (dropFromNextHops ord peer vni) destMap ord
      (prune fun peers ↦ peers.erase (some peer)) fun _ _ ↦ by rw [hhops]
    rw [dropFromDestinations, collected_flatMap, hclean]
  have hclean := @cleanup_sweep _ _ _ _ _ _ (dropFromDestinations ord peer) t.routes ord
    (prune (prune fun peers ↦ peers.erase (some peer))) fun _ _ ↦ by rw [hdests]
  rw [removeRoutesFromPeer, collected_flatMap, hclean]
  simp only [hdests, hhops, RouteTable.removeRoutesFromPeer, RouteTable.dropPeer]

abbrev SourcedRoute := Vni × Destination × NextHop × PeerKey

/-- The routes of the nested maps, each with one of its sources. -/
def denoted (routes : VniMap) : Set SourcedRoute :=
  {q | q.2.2.2 ∈ valueAt (valueAt (valueAt routes q.1) q.2.1) q.2.2.1}

theorem mem_denoted_routes {t : RouteTable} {r : Route} {k : PeerKey} :
    (r.1, r.2.1, r.2.2, k) ∈ denoted t.routes ↔ k ∈ t.sources r := Iff.rfl

section Denoted

variable {t : RouteTable} {vni : Vni} {dest : Destination} {nh : NextHop} {k : PeerKey}

theorem denoted_addNextHop :
    denoted (t.addNextHop vni dest nh k).2.routes = insert (vni, dest, nh, k) (denoted t.routes) := by
  ext ⟨vni', dest', nh', k'⟩
  rw [Set.mem_insert_iff, mem_denoted_routes (r := (vni', dest', nh')),
    mem_denoted_routes (r := (vni', dest', nh')), RouteTable.sources_addNextHop]
  split
  · next heq =>
    cases heq
    simp
  · next hne =>
    have hq : (vni', dest', nh', k') ≠ (vni, dest, nh, k) := fun he ↦ hne (by cases he; rfl)
    simp [hq]

theorem denoted_store_erase :
    denoted (t.store (vni, dest, nh) ((t.sources (vni, dest, nh)).erase k)).routes =
      denoted t.routes \ {(vni, dest, nh, k)} := by
  ext ⟨vni', dest', nh', k'⟩
  rw [Set.mem_sdiff, Set.mem_singleton_iff, mem_denoted_routes (r := (vni', dest', nh')),
    mem_denoted_routes (r := (vni', dest', nh')), RouteTable.sources_store]
  split
  · next heq =>
    cases heq
    simp [and_comm]
  · next hne =>
    have hq : (vni', dest', nh', k') ≠ (vni, dest, nh, k) := fun he ↦ hne (by cases he; rfl)
    simp [hq]

theorem denoted_dropPeer {peer : SocketAddr} :
    denoted (t.dropPeer peer).routes = {q ∈ denoted t.routes | q.2.2.2 ≠ some peer} := by
  ext ⟨vni', dest', nh', k'⟩
  rw [mem_denoted_routes (r := (vni', dest', nh')), RouteTable.sources_dropPeer, Finset.mem_erase]
  exact and_comm

theorem ncard_denoted :
    {k | (vni, dest, nh, k) ∈ denoted t.routes}.ncard = (t.sources (vni, dest, nh)).card :=
  Set.ncard_coe_finset (t.sources (vni, dest, nh))

end Denoted

inductive Op
  | addNextHop (vni : Vni) (dest : Destination) (nh : NextHop) (receivedFrom : PeerKey)
  | removeNextHop (vni : Vni) (dest : Destination) (nh : NextHop) (receivedFrom : PeerKey)
  | removeRoutesFromPeer (ord : HashOrder) (peer : SocketAddr)

def Op.apply (routes : VniMap) : Op → VniMap
  | addNextHop vni dest nh k => (RouteMaps.addNextHop routes vni dest nh k).2
  | removeNextHop vni dest nh k => (RouteMaps.removeNextHop routes vni dest nh k).2
  | removeRoutesFromPeer ord peer => (RouteMaps.removeRoutesFromPeer ord peer routes).2

/-- What an operation means for the set of sourced routes. -/
def Op.applySet (S : Set SourcedRoute) : Op → Set SourcedRoute
  | addNextHop vni dest nh k => insert (vni, dest, nh, k) S
  | removeNextHop vni dest nh k => S \ {(vni, dest, nh, k)}
  | removeRoutesFromPeer _ peer => {q ∈ S | q.2.2.2 ≠ some peer}

def after (ops : List Op) : VniMap := ops.foldl Op.apply RouteTable.new.routes

theorem Op.apply_routes (t : RouteTable) (op : Op) :
    ∃ t' : RouteTable, op.apply t.routes = t'.routes ∧
      denoted t'.routes = op.applySet (denoted t.routes) := by
  cases op with
  | addNextHop vni dest nh k =>
    exact ⟨_, by rw [apply, routes_addNextHop], denoted_addNextHop⟩
  | removeNextHop vni dest nh k =>
    rw [apply, routes_removeNextHop]
    by_cases hk : k ∈ t.sources (vni, dest, nh)
    · rw [RouteTable.removeNextHop_of_mem hk]
      exact ⟨_, rfl, denoted_store_erase⟩
    · obtain ⟨e, he⟩ := RouteTable.removeNextHop_of_notMem hk
      have hq : (vni, dest, nh, k) ∉ denoted t.routes := hk
      rw [he]
      exact ⟨t, rfl, (Set.sdiff_singleton_eq_self hq).symm⟩
  | removeRoutesFromPeer ord peer =>
    rw [apply, routes_removeRoutesFromPeer]
    exact ⟨t.dropPeer peer, rfl, denoted_dropPeer⟩

theorem routes_after (ops : List Op) :
    ∃ t : RouteTable, after ops = t.routes ∧ denoted t.routes = ops.foldl Op.applySet ∅ := by
  induction ops using List.reverseRecOn with
  | nil => exact ⟨.new, rfl, by ext q; simp [denoted, RouteTable.new]⟩
  | append_singleton ops op ih =>
    obtain ⟨t, ht, hset⟩ := ih
    obtain ⟨t', ht', hset'⟩ := op.apply_routes t
    refine ⟨t', ?_, ?_⟩
    · rw [after, List.foldl_append, ← after, ht]
      exact ht'
    · rw [List.foldl_append, ← hset]
      exact hset'

theorem refines_set (ops : List Op) (vni : Vni) (dest : Destination) (nh : NextHop) (k : PeerKey) :
    let S := denoted (after ops)
    let added := addNextHop (after ops) vni dest nh k
    let removed := removeNextHop (after ops) vni dest nh k
    S = ops.foldl Op.applySet ∅ ∧
      (added.1 = true ↔ (vni, dest, nh, k) ∉ S) ∧
      denoted added.2 = insert (vni, dest, nh, k) S ∧
      (∀ n, removed.1 = .ok n ↔ (vni, dest, nh, k) ∈ S ∧
        n = {k' | (vni, dest, nh, k') ∈ S \ {(vni, dest, nh, k)}}.ncard) ∧
      ((vni, dest, nh, k) ∈ S → denoted removed.2 = S \ {(vni, dest, nh, k)}) ∧
      ((∃ e, removed.1 = .error e) ↔ (vni, dest, nh, k) ∉ S) ∧
      ((vni, dest, nh, k) ∉ S → removed.2 = after ops) := by
  obtain ⟨t, ht, hset⟩ := routes_after ops
  have hmem : (vni, dest, nh, k) ∈ denoted t.routes ↔ k ∈ t.sources (vni, dest, nh) := Iff.rfl
  simp only [ht, routes_addNextHop, routes_removeNextHop]
  refine ⟨hset, ?_, denoted_addNextHop, ?_⟩
  · rw [hmem]
    exact decide_eq_true_iff
  by_cases hk : k ∈ t.sources (vni, dest, nh)
  · have hcard := @ncard_denoted (t.store (vni, dest, nh) ((t.sources (vni, dest, nh)).erase k))
      vni dest nh
    rw [denoted_store_erase, RouteTable.sources_store, if_pos rfl] at hcard
    rw [RouteTable.removeNextHop_of_mem hk]
    simp only [hmem, hk, hcard, denoted_store_erase]
    simp [eq_comm]
  · obtain ⟨e, he⟩ := RouteTable.removeNextHop_of_notMem hk
    rw [he]
    simp [hmem, hk]

/-- `remove_next_hop` with the peer as the source, on one route after the other. -/
def removeEach (peer : SocketAddr) (routes : VniMap) (l : List Route) : VniMap :=
  l.foldl (fun routes r ↦ (removeNextHop routes r.1 r.2.1 r.2.2 (some peer)).2) routes

theorem exists_removeOne (t : RouteTable) (r : Route) (peer : SocketAddr) : ∃ t' : RouteTable,
    (removeNextHop t.routes r.1 r.2.1 r.2.2 (some peer)).2 = t'.routes ∧
      ∀ r', t'.sources r' = if r' = r then (t.sources r').erase (some peer) else t.sources r' := by
  obtain ⟨vni, dest, nh⟩ := r
  rw [routes_removeNextHop]
  by_cases hpeer : some peer ∈ t.sources (vni, dest, nh)
  · rw [RouteTable.removeNextHop_of_mem hpeer]
    refine ⟨_, rfl, fun r' ↦ ?_⟩
    rw [RouteTable.sources_store]
    split
    · next hr => rw [hr]
    · rfl
  · obtain ⟨e, he⟩ := RouteTable.removeNextHop_of_notMem hpeer
    rw [he]
    refine ⟨t, rfl, fun r' ↦ ?_⟩
    split
    · next hr => rw [hr, Finset.erase_eq_of_notMem hpeer]
    · rfl

theorem exists_removeEach (t : RouteTable) (peer : SocketAddr) (l : List Route) :
    ∃ t' : RouteTable, removeEach peer t.routes l = t'.routes ∧
      ∀ r, t'.sources r = if r ∈ l then (t.sources r).erase (some peer) else t.sources r := by
  induction l generalizing t with
  | nil => exact ⟨t, rfl, fun r ↦ by simp⟩
  | cons r l ih =>
    obtain ⟨t₁, hstep, hsources₁⟩ := exists_removeOne t r peer
    obtain ⟨t₂, hrest, hsources₂⟩ := ih t₁
    refine ⟨t₂, by rw [removeEach, List.foldl_cons, hstep]; exact hrest, fun r' ↦ ?_⟩
    rw [hsources₂, hsources₁]
    by_cases hr : r' = r <;> by_cases hl : r' ∈ l <;> simp [hr, hl]

theorem removeEach_of_perm (ord : HashOrder) (t : RouteTable) (peer : SocketAddr) {l : List Route}
    (hl : l.Perm (t.removeRoutesFromPeer ord peer).1) :
    removeEach peer t.routes l = (t.dropPeer peer).routes := by
  obtain ⟨t', heach, hsources⟩ := exists_removeEach t peer l
  have hsame : t' = t.dropPeer peer := by
    ext r : 1
    have hmem : r ∈ l ↔ some peer ∈ t.sources r := by
      rw [hl.mem_iff, RouteTable.mem_removeRoutesFromPeer]
    rw [hsources, RouteTable.sources_dropPeer]
    split
    · rfl
    · next hnot => exact (Finset.erase_eq_of_notMem (mt hmem.mpr hnot)).symm
  rw [heach, hsame]

/-- Dropping a peer is removing its routes one by one, in whatever order. -/
theorem bulk_removal (ops : List Op) (ord : HashOrder) (peer : SocketAddr) :
    let S := denoted (after ops)
    let removed := removeRoutesFromPeer ord peer (after ops)
    removed.1.Nodup ∧
      (∀ vni dest nh, (vni, dest, nh) ∈ removed.1 ↔ (vni, dest, nh, some peer) ∈ S) ∧
      (∀ vni dest nh, ∀ k ≠ some peer,
        (vni, dest, nh, k) ∈ denoted removed.2 ↔ (vni, dest, nh, k) ∈ S) ∧
      (∀ l : List Route, l.Perm removed.1 → removeEach peer (after ops) l = removed.2) ∧
      Compact removed.2 := by
  obtain ⟨t, ht, -⟩ := routes_after ops
  simp only [ht, routes_removeRoutesFromPeer]
  refine ⟨t.nodup_removeRoutesFromPeer ord, fun vni dest nh ↦ t.mem_removeRoutesFromPeer ord,
    fun vni dest nh k hk ↦ ?_, fun l hl ↦ removeEach_of_perm ord t peer hl,
    (t.dropPeer peer).compact⟩
  have hset : denoted (t.removeRoutesFromPeer ord peer).2.routes =
      {q ∈ denoted t.routes | q.2.2.2 ≠ some peer} := denoted_dropPeer
  rw [hset]
  exact and_iff_left hk

end MetalBond.RouteMaps
