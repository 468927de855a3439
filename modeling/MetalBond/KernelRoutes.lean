import MetalBond.KernelTables

namespace MetalBond

open Collections

/-- The kernel as a set of route messages: an add inserts the message, and a removal takes out
the equal one. It answers `ESRCH` to the removal of a route it does not have. -/
def kernelTables (ord : HashOrder) (links : String → Option UInt32) :
    Rtnetlink (Finset RouteMessage) where
  link name _ := .ok (links name)
  get version k := (ord.list (k.filter fun route ↦ route.version = some version), .ok ())
  add route k := (.ok (), insert route k)
  del route k := (if route ∈ k then .ok () else .error (.netlinkError (some (-3))), k.erase route)

abbrev RouteCall := UpdateAction × Destination × NextHop

namespace RouteCall

def toClientCall (vni : Vni) : RouteCall → ClientCall
  | (.add, dest, nh) => .addRoute vni dest nh
  | (.remove, dest, nh) => .removeRoute vni dest nh

def track (live : Finset (Destination × NextHop)) : RouteCall → Finset (Destination × NextHop)
  | (.add, p) => insert p live
  | (.remove, p) => live.erase p

def live (calls : List RouteCall) : Finset (Destination × NextHop) := calls.foldl track ∅

theorem live_append (calls : List RouteCall) (call : RouteCall) :
    live (calls ++ [call]) = track (live calls) call := by
  simp [live, List.foldl_append]

theorem mem_live {calls : List RouteCall} {p : Destination × NextHop} (h : p ∈ live calls) :
    (.add, p) ∈ calls := by
  induction calls using List.reverseRecOn with
  | nil => simp [live] at h
  | append_singleton calls call ih =>
    rw [live_append] at h
    obtain ⟨_ | _, q⟩ := call
    · rcases Finset.mem_insert.mp h with rfl | h
      · simp
      · exact List.mem_append_left _ (ih h)
    · exact List.mem_append_left _ (ih (Finset.mem_of_mem_erase h))

end RouteCall

namespace NetlinkClient

open RouteCall

variable (self : NetlinkClient) (ord : HashOrder) (links : String → Option UInt32) {vni : Vni}
  {tableId : Int32}

def message (tableId : Int32) (p : Destination × NextHop) : RouteMessage :=
  self.buildRouteMessage tableId p.1 p.2.targetAddress

theorem message_eq_iff {p q : Destination × NextHop} :
    self.message tableId p = self.message tableId q ↔ SameRoute p q :=
  self.buildRouteMessage_eq_iff

def routesAfter (vni : Vni) (calls : List RouteCall) (k : Finset RouteMessage) :
    Finset RouteMessage :=
  self.kernelAfter (kernelTables ord links) (calls.map (toClientCall vni)) k

/-- The kernel has the message of every pair that is live, and of the messages it was
given only those. -/
structure Faithful (client : NetlinkClient) (tableId : Int32) (calls : List RouteCall)
    (k : Finset RouteMessage) : Prop where
  installed : ∀ p ∈ live calls, client.Installs p → client.message tableId p ∈ k
  needed : ∀ p, (.add, p) ∈ calls → client.Installs p → client.message tableId p ∈ k →
    ∃ q ∈ live calls, client.Installs q ∧ client.message tableId q = client.message tableId p

variable {self}

theorem routesAfter_append (calls : List RouteCall) (call : RouteCall) (k : Finset RouteMessage) :
    self.routesAfter ord links vni (calls ++ [call]) k =
      (self.handle (kernelTables ord links) (toClientCall vni call)
        (self.routesAfter ord links vni calls k)).2 := by
  simp [routesAfter, kernelAfter, List.foldl_append]

theorem handle_add (ht : self.tableOf vni = .ok tableId) (p : Destination × NextHop)
    (k : Finset RouteMessage) :
    (self.handle (kernelTables ord links) (toClientCall vni (.add, p)) k).2 =
      if self.Installs p then insert (self.message tableId p) k else k := by
  obtain ⟨dest, nh⟩ := p
  by_cases h : self.Installs (dest, nh)
  · simp [toClientCall, handle, addRoute, self.request_of_installs ht h, h, kernelTables, message]
  · simp [toClientCall, handle, addRoute, self.request_of_not_installs ht h, h]

theorem handle_remove (ht : self.tableOf vni = .ok tableId) (p : Destination × NextHop)
    (k : Finset RouteMessage) :
    (self.handle (kernelTables ord links) (toClientCall vni (.remove, p)) k).2 =
      if self.Installs p then k.erase (self.message tableId p) else k := by
  obtain ⟨dest, nh⟩ := p
  by_cases h : self.Installs (dest, nh)
  · simp [toClientCall, handle, removeRoute, self.request_of_installs ht h, h, kernelTables,
      message]
  · simp [toClientCall, handle, removeRoute, self.request_of_not_installs ht h, h]

/-- Nothing is left of a route whose pairs were all removed. -/
theorem needed_routesAfter (ht : self.tableOf vni = .ok tableId) (k : Finset RouteMessage)
    (calls : List RouteCall) {p : Destination × NextHop} (hadd : (.add, p) ∈ calls)
    (hp : self.Installs p)
    (hmem : self.message tableId p ∈ self.routesAfter ord links vni calls k) :
    ∃ q ∈ live calls, self.Installs q ∧ self.message tableId q = self.message tableId p := by
  induction calls using List.reverseRecOn with
  | nil => simp at hadd
  | append_singleton calls call ih =>
    rw [routesAfter_append] at hmem
    rw [live_append]
    obtain ⟨_ | _, r⟩ := call
    · rw [handle_add ord links ht] at hmem
      by_cases hr : self.Installs r ∧ self.message tableId r = self.message tableId p
      · exact ⟨r, Finset.mem_insert_self _ _, hr⟩
      · have hadd' : (.add, p) ∈ calls := by
          rcases List.mem_append.mp hadd with hadd | hadd
          · exact hadd
          · obtain rfl : p = r := by simpa using hadd
            exact absurd ⟨hp, rfl⟩ hr
        have hmem' : self.message tableId p ∈ self.routesAfter ord links vni calls k := by
          split at hmem
          · next hinst =>
            exact (Finset.mem_insert.mp hmem).resolve_left fun he ↦ hr ⟨hinst, he.symm⟩
          · exact hmem
        obtain ⟨q, hq, hq'⟩ := ih hadd' hmem'
        exact ⟨q, Finset.mem_insert_of_mem hq, hq'⟩
    · rw [handle_remove ord links ht] at hmem
      have hadd' : (.add, p) ∈ calls := by simpa using hadd
      have hmem' : self.message tableId p ∈ self.routesAfter ord links vni calls k := by
        split at hmem
        · exact Finset.mem_of_mem_erase hmem
        · exact hmem
      obtain ⟨q, hq, hinst, heq⟩ := ih hadd' hmem'
      refine ⟨q, Finset.mem_erase.mpr ⟨?_, hq⟩, hinst, heq⟩
      rintro rfl
      rw [if_pos hinst, heq] at hmem
      exact Finset.notMem_erase _ _ hmem

/-- What a call has to leave alone: a removal never meets another live pair that the
kernel takes for the same route. -/
def Distinct (client : NetlinkClient) (calls : List RouteCall) : RouteCall → Prop
  | (.add, _) => True
  | (.remove, p) => client.Installs p →
    ∀ q ∈ live calls, client.Installs q → SameRoute p q → q = p

theorem faithful_nil (k : Finset RouteMessage) : self.Faithful tableId [] k :=
  ⟨by simp [live], by simp⟩

theorem faithful_append_iff (ht : self.tableOf vni = .ok tableId) (k : Finset RouteMessage)
    {calls : List RouteCall} (call : RouteCall)
    (h : self.Faithful tableId calls (self.routesAfter ord links vni calls k)) :
    self.Faithful tableId (calls ++ [call])
        (self.routesAfter ord links vni (calls ++ [call]) k) ↔
      self.Distinct calls call := by
  obtain ⟨_ | _, p⟩ := call
  · refine ⟨fun _ ↦ trivial, fun _ ↦ ⟨?_, fun q ↦ needed_routesAfter ord links ht k _⟩⟩
    intro q hq hinst
    rw [live_append] at hq
    rw [routesAfter_append, handle_add ord links ht]
    rcases Finset.mem_insert.mp hq with rfl | hq
    · rw [if_pos hinst]
      exact Finset.mem_insert_self _ _
    · have hmem := h.installed q hq hinst
      split
      · exact Finset.mem_insert_of_mem hmem
      · exact hmem
  · constructor
    · intro h' hp q hq hinst hsame
      by_contra hne
      have hlive : q ∈ live (calls ++ [(.remove, p)]) := by
        rw [live_append]
        exact Finset.mem_erase.mpr ⟨hne, hq⟩
      have hmem := h'.installed q hlive hinst
      rw [routesAfter_append, handle_remove ord links ht, if_pos hp,
        self.message_eq_iff.mpr hsame] at hmem
      exact Finset.notMem_erase _ _ hmem
    · intro hdistinct
      refine ⟨?_, fun q ↦ needed_routesAfter ord links ht k _⟩
      intro q hq hinst
      rw [live_append] at hq
      obtain ⟨hne, hq⟩ := Finset.mem_erase.mp hq
      have hmem := h.installed q hq hinst
      rw [routesAfter_append, handle_remove ord links ht]
      split
      · next hp =>
        refine Finset.mem_erase.mpr ⟨fun he ↦ hne ?_, hmem⟩
        exact hdistinct hp q hq hinst (self.message_eq_iff.mp he.symm)
      · exact hmem

/-- Removals leave the other routes installed exactly when each of them is of a pair that
no other live pair shares its route with. -/
theorem faithful_iff (ht : self.tableOf vni = .ok tableId) (k : Finset RouteMessage)
    (calls : List RouteCall) :
    (∀ done, done <+: calls →
        self.Faithful tableId done (self.routesAfter ord links vni done k)) ↔
      ∀ done call, done ++ [call] <+: calls → self.Distinct done call := by
  induction calls using List.reverseRecOn with
  | nil =>
    constructor
    · intro _ done call hdone
      simp at hdone
    · intro _ done hdone
      rw [List.prefix_nil.mp hdone]
      exact faithful_nil k
  | append_singleton calls call ih =>
    constructor
    · intro h done call' hdone
      exact (faithful_append_iff ord links ht k call'
        (h done ((List.prefix_append _ _).trans hdone))).mp (h _ hdone)
    · intro h done hdone
      have hih := ih.mpr fun done call' hdone ↦
        h done call' (hdone.trans (List.prefix_append _ _))
      rcases List.prefix_concat_iff.mp hdone with rfl | hdone
      · exact (faithful_append_iff ord links ht k call (hih calls List.prefix_rfl)).mpr
          (h calls call List.prefix_rfl)
      · exact hih done hdone

end NetlinkClient

namespace Sample

def netlinkClient : NetlinkClient := ⟨⟨(∅ : HashMap Vni Int32).insert 100 1, "ip6tnl0", false⟩, 7⟩

def nextHopInVni : NextHop := { nextHop with targetVni := 200 }

end Sample

open Sample in
/-- The target VNI of a next hop does not reach the kernel: with the route through one VNI
goes the route through the other. -/
theorem not_faithful_of_shared_route :
    netlinkClient.tableOf 100 = .ok 1 ∧
    ¬netlinkClient.Faithful 1
      [(.add, destination, nextHop), (.add, destination, nextHopInVni),
        (.remove, destination, nextHop)]
      (netlinkClient.routesAfter default (fun _ ↦ none) 100
        [(.add, destination, nextHop), (.add, destination, nextHopInVni),
          (.remove, destination, nextHop)] ∅) := by
  refine ⟨by decide, fun h ↦ ?_⟩
  have hlive := h.installed (destination, nextHopInVni) (by decide) (by decide)
  exact absurd hlive (by decide)

open Sample in
/-- Of two routes one is removed, and the other stays. -/
theorem faithful_add_remove :
    ∃ calls, calls = [(.add, destination, nextHop), (.add, otherDestination, nextHop),
        (.remove, destination, nextHop)] ∧
      (∀ done, done <+: calls → netlinkClient.Faithful 1 done
        (netlinkClient.routesAfter default (fun _ ↦ none) 100 done ∅)) ∧
      netlinkClient.message 1 (otherDestination, nextHop) ∈
        netlinkClient.routesAfter default (fun _ ↦ none) 100 calls ∅ := by
  have hfaithful := (NetlinkClient.faithful_iff default (fun _ ↦ none)
    (by decide : netlinkClient.tableOf 100 = .ok 1) ∅
    [(.add, destination, nextHop), (.add, otherDestination, nextHop),
      (.remove, destination, nextHop)]).mpr fun done call hdone ↦ by
    obtain ⟨_ | _, p⟩ := call
    · trivial
    · intro _ q hq _ hsame
      have hp : p = (destination, nextHop) := by
        simpa using hdone.subset (List.mem_append_right done (List.mem_singleton_self _))
      have hadded : q = (destination, nextHop) ∨ q = (otherDestination, nextHop) := by
        simpa using hdone.subset (List.mem_append_left _ (RouteCall.mem_live hq))
      subst hp
      rcases hadded with rfl | rfl
      · rfl
      · exact absurd hsame.2.1 (by decide)
  exact ⟨_, rfl, hfaithful, (hfaithful _ List.prefix_rfl).installed _ (by decide) (by decide)⟩

end MetalBond
