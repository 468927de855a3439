import MetalBond.Async.Tally
import MetalBond.KernelRoutes
import MetalBond.TwoTables

namespace MetalBond

open Async Task Collections HashMap Peer

/-- What is documented of a kernel that has at most one route under a key, when it is asked for a
route whose key nothing else has: it has the route afterwards, or no longer has it. -/
structure Rtnetlink.Keyed {σ κ : Type} (net : Rtnetlink σ) (shown : RouteMessage → RouteMessage)
    (key : RouteMessage → κ) (Accepts : RouteMessage → Prop) : Prop where
  add : ∀ route k, Accepts route →
    (∀ r ∈ net.routes k, key r = key (shown route) → r = shown route) →
      net.routes (net.add route k).2 = insert (shown route) (net.routes k)
  del : ∀ route k, (∀ r ∈ net.routes k, key r = key (shown route) → r = shown route) →
    net.routes (net.del route k).2 = net.routes k \ {shown route}

namespace NetlinkClient

variable {σ κ : Type} (self : NetlinkClient) {net : Rtnetlink σ}
  {shown : RouteMessage → RouteMessage} {key : RouteMessage → κ} {Accepts : RouteMessage → Prop}

def asks (r : Route) : Option RouteMessage :=
  match self.request r.1 r.2.1 r.2.2 with
  | .ok (some (_, routeMessage)) => some routeMessage
  | _ => none

def shows (shown : RouteMessage → RouteMessage) (r : Route) : Option RouteMessage :=
  (self.asks r).map shown

/-- The kernel accepts the routes of these updates. It tells them apart by their keys, and it has
no other route under one of these. -/
structure Installable (client : NetlinkClient) (net : Rtnetlink σ)
    (shown : RouteMessage → RouteMessage) (key : RouteMessage → κ) (Accepts : RouteMessage → Prop)
    (updates : List InternalUpdate) (k : σ) : Prop where
  accepted : ∀ u ∈ updates, ∀ route, client.asks u.route = some route → Accepts route
  distinct : ∀ u ∈ updates, ∀ u' ∈ updates, ∀ route route', client.asks u.route = some route →
    client.asks u'.route = some route' → key (shown route) = key (shown route') →
      u.route = u'.route
  free : ∀ u ∈ updates, ∀ route, client.asks u.route = some route →
    ∀ r ∈ net.routes k, key r = key (shown route) → r = shown route

variable {self}

theorem version_ne_none_of_asks {r : Route} {routeMessage : RouteMessage}
    (h : self.asks r = some routeMessage) : routeMessage.version ≠ none := by
  rcases hrequest : self.request r.1 r.2.1 r.2.2 with e | (_ | ⟨tableId, route⟩)
  · simp [asks, hrequest] at h
  · simp [asks, hrequest] at h
  · obtain rfl : route = routeMessage := by simpa [asks, hrequest] using h
    rw [(self.request_eq_some hrequest).2, buildRouteMessage_version]
    exact Option.some_ne_none _

theorem routes_handle (hkeyed : net.Keyed shown key Accepts) {u : InternalUpdate} {k : σ}
    (haccepted : ∀ route, self.asks u.route = some route → Accepts route)
    (hfree : ∀ route, self.asks u.route = some route →
      ∀ r ∈ net.routes k, key r = key (shown route) → r = shown route) :
    net.routes (self.handle net (clientCall u) k).2 =
      (u.toChange.through (self.shows shown)).elim (net.routes k) fun c ↦
        c.apply (net.routes k) := by
  obtain ⟨action, vni, dest, nh, source⟩ := u
  rcases hrequest : self.request vni dest nh with e | (_ | ⟨tableId, routeMessage⟩)
  · cases action <;> simp [InternalUpdate.toChange, changeOf, InternalUpdate.route, Change.through,
      shows, asks, clientCall, handle, addRoute, removeRoute, hrequest]
  · cases action <;> simp [InternalUpdate.toChange, changeOf, InternalUpdate.route, Change.through,
      shows, asks, clientCall, handle, addRoute, removeRoute, hrequest]
  · have hasks : self.asks (vni, dest, nh) = some routeMessage := by simp [asks, hrequest]
    have hown := hfree routeMessage hasks
    cases action with
    | add =>
      simpa [InternalUpdate.toChange, changeOf, InternalUpdate.route, Change.through, shows, hasks,
        clientCall, handle, addRoute, hrequest, Change.apply] using
        hkeyed.add routeMessage k (haccepted routeMessage hasks) hown
    | remove =>
      simpa [InternalUpdate.toChange, changeOf, InternalUpdate.route, Change.through, shows, hasks,
        clientCall, handle, removeRoute, hrequest, Change.apply] using
        hkeyed.del routeMessage k hown

theorem Installable.tail (hkeyed : net.Keyed shown key Accepts) {u : InternalUpdate}
    {updates : List InternalUpdate} {k : σ}
    (h : self.Installable net shown key Accepts (u :: updates) k) :
    self.Installable net shown key Accepts updates (self.handle net (clientCall u) k).2 where
  accepted u' hu' := h.accepted u' (List.mem_cons_of_mem u hu')
  distinct u' hu' u'' hu'' :=
    h.distinct u' (List.mem_cons_of_mem u hu') u'' (List.mem_cons_of_mem u hu'')
  free := by
    intro u' hu' route hroute r hr hkey
    have hmem := List.mem_cons_of_mem u hu'
    rw [routes_handle hkeyed (h.accepted u List.mem_cons_self) (h.free u List.mem_cons_self)] at hr
    by_cases hkept : r ∈ net.routes k
    · exact h.free u' hmem route hroute r hkept hkey
    -- what is new is what was asked for
    · have hnew : self.shows shown u.route = some r := by
        obtain ⟨action, vni, dest, nh, source⟩ := u
        cases hshows : self.shows shown (vni, dest, nh) <;> cases action <;>
          simp_all [InternalUpdate.toChange, changeOf, InternalUpdate.route, Change.through,
            Change.apply]
      obtain ⟨route', hroute', rfl⟩ := Option.map_eq_some_iff.mp hnew
      have hsame := h.distinct u List.mem_cons_self u' hmem route' route hroute' hroute hkey
      rw [hsame, hroute] at hroute'
      rw [Option.some.inj hroute']

/-- What the calls of the distributor make of the kernel's routes. -/
theorem routes_kernelAfter (hkeyed : net.Keyed shown key Accepts) {updates : List InternalUpdate}
    {k : σ} (h : self.Installable net shown key Accepts updates k) :
    net.routes (self.kernelAfter net (updates.map clientCall) k) = replay (net.routes k)
      ((updates.map (·.toChange)).filterMap (Change.through (self.shows shown))) := by
  induction updates generalizing k with
  | nil => rfl
  | cons u updates ih =>
    have hstep :=
      routes_handle hkeyed (h.accepted u List.mem_cons_self) (h.free u List.mem_cons_self)
    rw [List.map_cons, kernelAfter, List.foldl_cons, ← kernelAfter, ih (h.tail hkeyed), hstep,
      List.map_cons, List.filterMap_cons]
    cases u.toChange.through (self.shows shown) with
    | none => rfl
    | some c => rfl

theorem Installable.shows_inj {updates : List InternalUpdate} {k : σ}
    (h : self.Installable net shown key Accepts updates k) {u u' : InternalUpdate}
    (hu : u ∈ updates) (hu' : u' ∈ updates) {r : RouteMessage}
    (hshows : self.shows shown u.route = some r) (hshows' : self.shows shown u'.route = some r) :
    u.route = u'.route := by
  obtain ⟨route, hroute, hr⟩ := Option.map_eq_some_iff.mp hshows
  obtain ⟨route', hroute', hr'⟩ := Option.map_eq_some_iff.mp hshows'
  exact h.distinct u hu u' hu' route route' hroute hroute' (congrArg key (hr.trans hr'.symm))

end NetlinkClient

namespace TwoTables

variable {κ : Type}

def calls (w : World) : List ClientCall := w.client.calls

theorem follows_calls (ord : HashOrder) (u : InternalUpdate) (v : List ClientCall) :
    Follows (owner calls) (fun v' _ ↦ v' = v ++ [clientCall u]) (distribute ord u) v := by
  have hcall : Follows (owner (L := Lock) (U := InternalUpdate) calls)
      (fun v' _ ↦ v' = v ++ [clientCall u]) (callClient (clientCall u)) v :=
    .update fun s hs ↦ ⟨_, rfl, congrArg (· ++ [clientCall u]) hs⟩
  refine (quiet_owner.acquires trivial).andThen fun _ ↦ hcall.andThen fun _ ↦ ?_
  exact quiet_owner.of_confined
    (confined_notifySubscribers (R := Same calls) (fun _ _ _ ↦ rfl) ord u)

theorem confined_processUpdate (peer : Peer) (msg : Pb.Update) :
    Confined (Same calls) (peer.processUpdate msg) := by
  have hchains : Chains fun _ t ↦ Confined (Same (U := InternalUpdate) calls) (t : Code _) :=
    ⟨.ret, .bind, .acquire, .release, .gets, fun _ ↦ .sendOn fun _ ↦ rfl⟩
  refine hchains.processUpdate peer (hchains.storeUpdate peer fun action vni dest nh ↦ ?_) msg
  refine .update fun s ↦ ?_
  obtain ⟨t, ht⟩ := tableOnly_applyUpdate s action vni dest nh (some peer.remoteAddr)
  rw [Same, ht]
  rfl

theorem tallies_calls : Pool.Tallies calls (fun v u ↦ v ++ [clientCall u]) none
    (Work : Option κ → Option InternalUpdate → Code (Except Error Unit) → Prop) where
  prompted t h := by cases h
  own u t v h := by
    cases h with
    | distribute ord u => exact follows_calls ord u v
  others i o t hi h := by
    cases h with
    | announceRoute k vni dest nh =>
      exact ⟨rfl, confined_announceRoute (R := Same calls) (fun _ ↦ rfl) fun _ ↦ rfl⟩
    | withdrawRoute k vni dest nh =>
      refine ⟨rfl, confined_withdrawRoute (R := Same calls) (fun s ↦ ?_) fun _ ↦ rfl⟩
      unfold removeAnnouncement
      split <;> rfl
    | processUpdate k peer msg => exact ⟨rfl, confined_processUpdate peer msg⟩
    | distribute ord u => exact absurd rfl hi

theorem foldl_calls (updates : List InternalUpdate) (v : List ClientCall) :
    updates.foldl (fun v u ↦ v ++ [clientCall u]) v = v ++ updates.map clientCall := by
  induction updates generalizing v with
  | nil => exact (List.append_nil v).symm
  | cons u updates ih => rw [List.foldl_cons, ih, List.map_cons, List.append_assoc]; rfl

/-- When the channel is drained and no task is in the middle of a change, the kernel has exactly
the routes of the two tables that are for it, and what it had before that is none of the node's. -/
theorem kernel_mirrors [DecidableEq κ] {σ ν : Type} {net : Rtnetlink σ}
    {shown : RouteMessage → RouteMessage} {key : RouteMessage → ν} {Accepts : RouteMessage → Prop}
    (hkeyed : net.Keyed shown key Accepts) {c c' : Tasks (Option κ)} (hbegins : Begins c)
    (hnocalls : c.shared.world.client.calls = [])
    (hrun : Run (fun c c' ↦ Pool.Step Work c c' ∧ Careful c) c c')
    (hfree : ∀ i, (.metalbondState, .write) ∉ c'.held i) (hidle : c'.Idle none)
    (hdrained : c'.shared.chan.queue = []) (client : NetlinkClient) (k : σ)
    (hinstallable : client.Installable net shown key Accepts c'.shared.chan.taken k)
    (routeMessage : RouteMessage) :
    routeMessage ∈ net.routes (client.kernelAfter net c'.shared.world.client.calls k) ↔
      (∃ r, (c'.shared.world.mb.myAnnouncements.Has r ∨ c'.shared.world.mb.routeTable.Has r) ∧
        client.shows shown r = some routeMessage) ∨
      routeMessage ∈ net.routes k ∧
        ∀ u ∈ c'.shared.chan.taken, client.shows shown u.route ≠ some routeMessage := by
  have htaken : c.shared.chan.taken = [] := (List.append_eq_nil_iff.mp hbegins.history).1
  have hcalls : c'.shared.world.client.calls = c'.shared.chan.taken.map clientCall := by
    have htally := tallies_calls.run hbegins.idle htaken (hrun.mono fun _ _ h ↦ h.1) hidle
    rw [foldl_calls, calls, calls, hnocalls, List.nil_append] at htally
    exact htally
  have hreplay : replay ∅ (c'.shared.chan.history.map InternalUpdate.toChange) =
      {r | c'.shared.world.mb.myAnnouncements.Has r ∨ c'.shared.world.mb.routeTable.Has r} :=
    ((sound_of_careful hbegins hrun).2.good hfree).2
  rw [Channel.history, hdrained, List.append_nil] at hreplay
  have hsubject (u : InternalUpdate) : u.toChange.subject = u.route := subject_changeOf ..
  rw [hcalls, NetlinkClient.routes_kernelAfter hkeyed hinstallable, mem_replay_shown, hreplay]
  · simp only [List.forall_mem_map, hsubject]
    rfl
  · simp only [List.forall_mem_map, hsubject]
    exact fun u hu u' hu' _ ↦ hinstallable.shows_inj hu hu'

theorem keyed_kernel {ord : HashOrder} {links : String → Option UInt32} :
    (Sample.kernel ord links).Keyed Sample.shown Sample.routeKey fun route ↦
      route.version ≠ none where
  add route k hversion hfree := by
    have hadd : ((Sample.kernel ord links).add route k).2 = insert (Sample.shown route) k := by
      simp only [Sample.kernel, if_neg hversion]
      split
      · next htaken =>
        obtain ⟨r, hr, hkey⟩ := htaken
        have hfamily : r.header.addressFamily = route.header.addressFamily :=
          congrArg (fun x ↦ x.2.1) hkey
        have hown := hfree r (Sample.mem_routes_kernel.mpr ⟨hr, by rwa [RouteMessage.version,
          hfamily]⟩) hkey
        rw [← hown, Finset.insert_eq_of_mem hr]
      · rfl
    have hshown : (Sample.shown route).version ≠ none := hversion
    ext r
    rw [hadd, Set.mem_insert_iff, Sample.mem_routes_kernel, Sample.mem_routes_kernel,
      Finset.mem_insert, or_and_right]
    exact or_congr_left (and_iff_left_of_imp fun h ↦ h ▸ hshown)
  del route k _ := by
    have hdel : ((Sample.kernel ord links).del route k).2 = k.erase (Sample.shown route) := by
      simp only [Sample.kernel]
      split
      · rfl
      · next habsent => exact (Finset.erase_eq_of_notMem habsent).symm
    ext r
    rw [hdel, Set.mem_sdiff, Set.mem_singleton_iff, Sample.mem_routes_kernel,
      Sample.mem_routes_kernel, Finset.mem_erase, and_assoc, and_comm]

def foreignRoute : RouteMessage :=
  { Sample.netlinkClient.message 1 (Sample.destination, Sample.nextHop) with
    header.protocol := ⟨3⟩, header.destinationPrefixLength := 16 }

theorem installable_sample :
    Sample.netlinkClient.Installable (Sample.kernel default fun _ ↦ none) Sample.shown
      Sample.routeKey (fun route ↦ route.version ≠ none) keptNode.chan.history {foreignRoute} := by
  have hroute : ∀ u ∈ keptNode.chan.history, u.route = otherRoute ∨ u.route = Sample.route := by
    decide
  have hasked : ∀ u ∈ keptNode.chan.history, ∀ route,
      Sample.netlinkClient.asks u.route = some route →
        u.route = otherRoute ∧ route = Sample.netlinkClient.message 1 otherRoute.2 ∨
          u.route = Sample.route ∧ route = Sample.netlinkClient.message 1 Sample.route.2 := by
    intro u hu route hasks
    rcases hroute u hu with h | h
    · rw [h] at hasks
      exact .inl ⟨h, (Option.some.inj hasks).symm⟩
    · rw [h] at hasks
      exact .inr ⟨h, (Option.some.inj hasks).symm⟩
  refine ⟨fun u _ route ↦ NetlinkClient.version_ne_none_of_asks, ?_, ?_⟩
  · intro u hu u' hu' route route' hasks hasks' hkey
    obtain ⟨h, rfl⟩ | ⟨h, rfl⟩ := hasked u hu route hasks <;>
      obtain ⟨h', rfl⟩ | ⟨h', rfl⟩ := hasked u' hu' route' hasks'
    · exact h.trans h'.symm
    · exact absurd hkey (by decide)
    · exact absurd hkey (by decide)
    · exact h.trans h'.symm
  · intro u hu route hasks r hr hkey
    rw [Sample.mem_routes_kernel, Finset.mem_singleton] at hr
    obtain ⟨rfl, -⟩ := hr
    obtain ⟨-, rfl⟩ | ⟨-, rfl⟩ := hasked u hu route hasks <;> exact absurd hkey (by decide)

theorem kernel_mirrors_sample : ∃ s : Node, s.world.mb.routeTable.Has Sample.route ∧
    s.chan.taken = keptNode.chan.history ∧
    ∀ routeMessage, routeMessage ∈ (Sample.kernel default fun _ ↦ none).routes
        (Sample.netlinkClient.kernelAfter (Sample.kernel default fun _ ↦ none)
          s.world.client.calls {foreignRoute}) ↔
      routeMessage = Sample.netlinkClient.message 1 (Sample.destination, Sample.nextHop) ∨
        routeMessage = foreignRoute := by
  obtain ⟨c, hrun, hheld, hidle, hmb, hqueue, htaken⟩ := exists_kept
  have hfree : ∀ i, (.metalbondState, .write) ∉ c.held i := fun i ↦ by
    rw [hheld]
    exact List.not_mem_nil
  have hreplay := replay_eq_either begins_sample hrun hfree hqueue
  have hchanges : keptNode.chan.history.map InternalUpdate.toChange =
      [.add otherRoute, .add Sample.route, .remove otherRoute] := rfl
  have hne : Sample.route ≠ otherRoute := by decide
  have hhas (r : Route) : c.shared.world.mb.myAnnouncements.Has r ∨
      c.shared.world.mb.routeTable.Has r ↔ r = Sample.route := by
    rw [htaken, hchanges] at hreplay
    have hr := Set.ext_iff.mp hreplay r
    simp only [replay, List.foldl_cons, List.foldl_nil, Change.apply] at hr
    rw [← Set.mem_ofPred_eq (p := fun r ↦ c.shared.world.mb.myAnnouncements.Has r ∨
      c.shared.world.mb.routeTable.Has r), ← hr, Set.mem_sdiff, Set.mem_insert_iff,
      Set.mem_insert_iff, Set.mem_singleton_iff, Set.mem_empty_iff_false, or_false]
    exact ⟨fun h ↦ h.1.resolve_right h.2, fun h ↦ ⟨.inl h, h ▸ hne⟩⟩
  have hshows : Sample.netlinkClient.shows Sample.shown Sample.route =
      some (Sample.netlinkClient.message 1 Sample.route.2) := rfl
  refine ⟨c.shared, ?_, htaken, fun routeMessage ↦ ?_⟩
  · rw [hmb]
    decide
  · rw [kernel_mirrors keyed_kernel begins_sample rfl hrun hfree hidle hqueue
      Sample.netlinkClient {foreignRoute} (htaken ▸ installable_sample) routeMessage]
    simp only [hhas, exists_eq_left, hshows, Option.some.injEq, Sample.mem_routes_kernel,
      Finset.mem_singleton, htaken]
    refine or_congr eq_comm ⟨fun h ↦ h.1.1, ?_⟩
    rintro rfl
    exact ⟨⟨rfl, by decide⟩, by decide⟩

end TwoTables

end MetalBond
