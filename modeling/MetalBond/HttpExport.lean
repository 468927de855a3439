import MetalBond.Async.Readers
import MetalBond.RouteExport
import MetalBond.SubscriptionRecords

namespace MetalBond.HttpExport

open Async Task Collections HashMap Peer
open Losses (dropReceiver)
open RouteExport RouteViews
open SubscriptionRecords (Actor Work)

/-- The VNIs one by one. Each look takes the lock of the table anew. -/
def collectRows (orders : Orders) : List Vni → Vnet → Code Vnet
  | [], vnetMap => return vnetMap
  | vni :: rest, vnetMap => do
    let sortedDestMap ← gets fun w ↦ sortedDestMap orders w.mb.routeTable.routes vni
    if sortedDestMap.isEmpty then collectRows orders rest vnetMap
    else collectRows orders rest (vnetMap.insert vni sortedDestMap)

def look (orders : Orders) : Code Vnet := do
  let vnis ← gets fun w ↦ getVnis orders.vnis w.mb.routeTable.routes
  collectRows orders vnis ∅

/-- The read guard of the shared state lives until the end. -/
def getRouteData (orders : Orders) : Code Vnet := underRead .metalbondState (look orders)

/-- The tasks of a node, and one that answers requests. -/
inductive Serving {ι κ : Type} (peers : ι → Peer) :
    Option (Actor ι κ) → Option InternalUpdate → Code (Option Vnet) → Prop
  | node (a : Actor ι κ) (o : Option InternalUpdate) {t : Code Unit} (h : Work peers a o t) :
    Serving peers (some a) o (do
      t
      return none)
  | request (orders : Orders) : Serving peers none none (do
      let vnetMap ← getRouteData orders
      return some vnetMap)

def table (s : Node) : RouteTable := s.world.mb.routeTable

def Shrinks (s s' : Node) : Prop := ∀ r, (table s').sources r ⊆ (table s).sources r

instance : Std.Refl Shrinks := ⟨fun _ _ ↦ Finset.Subset.refl _⟩

instance : IsTrans Node Shrinks := ⟨fun _ _ _ h h' r ↦ (h' r).trans (h r)⟩

theorem Shrinks.has {s s' : Node} (h : Shrinks s s') {r : Route} (hr : (table s').Has r) :
    (table s).Has r := by
  obtain ⟨k, hk⟩ := Finset.nonempty_iff_ne_empty.mpr hr
  exact RouteTable.has_of_mem (h r hk)

theorem shrinks_of_table {s s' : Node} (h : table s' = table s) : Shrinks s s' := fun r ↦ by rw [h]

theorem shrinks_dropPeer (ord : HashOrder) (addr : SocketAddr) (s : Node) :
    Shrinks s { s with world := s.world.modifyMb fun mb ↦
      { mb with routeTable := (mb.routeTable.removeRoutesFromPeer ord addr).2 } } := by
  intro r
  change ((table s).dropPeer addr).sources r ⊆ _
  rw [RouteTable.sources_dropPeer]
  exact Finset.erase_subset _ _

theorem shrinks_remove (q : Peer) (vni : Vni) (dest : Destination) (nh : NextHop) (s : Node) :
    Shrinks s
      { s with world := (applyUpdate .remove vni dest nh (some q.remoteAddr) s.world).2 } := by
  intro r
  rw [show (table { s with world := _ }).sources r = _ from sources_applyUpdate .remove]
  split
  · next hr => exact hr ▸ Finset.erase_subset _ _
  · exact Finset.Subset.refl _

/-- Code that only ever removes routes unless it has the write guard of the shared state. -/
abbrev Careful (α : Type) (t : Code α) : Prop :=
  ∀ held, Guarded .metalbondState Shrinks held t

theorem careful_of_confined {α : Type} {t : Code α} (h : Confined Shrinks t) : Careful α t :=
  fun _ ↦ .of_confined h

theorem chains_careful : Chains Careful where
  ret _ _ := trivial
  bind h hg held := (h held).bind fun held a ↦ hg a held
  acquire _ _ _ := trivial
  release _ _ _ := trivial
  gets f := careful_of_confined (.gets f)
  send _ := careful_of_confined (.sendOn fun _ ↦ shrinks_of_table rfl)

theorem careful_storeUpdate (q : Peer) (action : UpdateAction) (vni : Vni) (dest : Destination)
    (nh : NextHop) : Careful _ (q.storeUpdate action vni dest nh) := by
  refine fun held ↦ .updating fun held n ↦ ?_
  exact (chains_careful.bind (chains_careful.sendChange _ _ _ _ _ _) fun _ ↦
    chains_careful.bind (chains_careful.release _ _) fun _ ↦ chains_careful.ret _) held

theorem careful_modifyCell (q : Peer) (f : PeerCell → PeerCell) :
    Careful Unit (modify fun w ↦ w.modifyCell q.id f) :=
  careful_of_confined (.modify fun _ ↦ shrinks_of_table rfl)

theorem careful_dropSubscriptions (q : Peer) : Careful Unit q.dropSubscriptions := by
  refine careful_of_confined (.bind (.acquire ..) fun _ ↦ .bind (.gets _) fun remoteSubs ↦ ?_)
  split
  · exact .release ..
  · refine .bind (.acquire ..) fun _ ↦ .bind (.modify fun _ ↦ shrinks_of_table rfl) fun _ ↦ ?_
    refine .bind (.modify fun _ ↦ shrinks_of_table rfl) fun _ ↦ ?_
    exact .bind (.release ..) fun _ ↦ .release ..

theorem whole_careful (q : Peer) : q.Whole Careful where
  toChains := chains_careful
  sendMessage _ := careful_of_confined (.update fun _ ↦ shrinks_of_table rfl)
  signal _ := careful_modifyCell q _
  role _ := careful_modifyCell q _
  enter _ := careful_modifyCell q _
  removeLearned := chains_careful.removeLearned q fun vni dest nh ↦
    careful_of_confined (.update fun s ↦ shrinks_remove q vni dest nh s)
  processUpdate := chains_careful.processUpdate q (careful_storeUpdate q)
  subscribe vni k hk := by
    have hadd : Careful Bool (writing .metalbondState (addSubscriber q.remoteAddr vni)) :=
      careful_of_confined (.writing fun _ ↦ shrinks_of_table rfl)
    have hrecord : Careful Unit (writing (.subscribedVnisRemote q.id) fun w ↦
        ((), w.modifyCell q.id fun c ↦
          { c with subscribedVnisRemote := insert vni c.subscribedVnisRemote })) :=
      careful_of_confined (.writing fun _ ↦ shrinks_of_table rfl)
    exact chains_careful.bind hadd fun b ↦ chains_careful.bind hrecord fun _ ↦ hk b
  unsubscribe vni k hk := by
    have hremove : Careful Bool (writing .metalbondState (removeSubscriber q.remoteAddr vni)) := by
      refine careful_of_confined (.writing fun s ↦ shrinks_of_table ?_)
      rw [table, mb_removeSubscriber]
      rfl
    have hrecord : Careful Unit (writing (.subscribedVnisRemote q.id) fun w ↦
        ((), w.modifyCell q.id fun c ↦
          { c with subscribedVnisRemote := c.subscribedVnisRemote.erase vni })) :=
      careful_of_confined (.writing fun _ ↦ shrinks_of_table rfl)
    exact chains_careful.bind hremove fun b ↦ chains_careful.bind hrecord fun _ ↦ hk b
  removeRoutes ord := careful_of_confined (.update fun s ↦ shrinks_dropPeer ord q.remoteAddr s)
  dropSubscriptions := careful_dropSubscriptions q

theorem careful_call {t : Code (Except Error Unit)} (h : Call t) : Careful _ t := by
  refine careful_of_confined ?_
  cases h with
  | subscribe ord vni =>
    exact confined_subscribe ord (fun _ _ ↦ shrinks_of_table rfl) (fun _ _ ↦ shrinks_of_table rfl)
      (fun _ _ _ ↦ shrinks_of_table rfl) vni
  | unsubscribe ord vni =>
    exact confined_unsubscribe ord (fun _ _ ↦ shrinks_of_table rfl) (fun _ _ ↦ shrinks_of_table rfl)
      (fun _ _ _ ↦ shrinks_of_table rfl) vni
  | announceRoute vni dest nh =>
    exact confined_announceRoute (fun _ ↦ shrinks_of_table rfl) fun _ ↦ shrinks_of_table rfl
  | withdrawRoute vni dest nh =>
    refine confined_withdrawRoute (fun s ↦ shrinks_of_table ?_) fun _ ↦ shrinks_of_table rfl
    unfold removeAnnouncement
    split <;> rfl
  | addPeer parse serverAddr =>
    exact confined_addPeer parse (fun _ _ ↦ shrinks_of_table rfl) serverAddr
  | removePeer parse ord addrStr =>
    refine confined_removePeer ord parse (fun s addr ↦ shrinks_of_table ?_)
      (fun s addr ↦ shrinks_of_table ?_) (fun s addr ↦ shrinks_dropPeer ord addr s)
      (fun _ _ ↦ shrinks_of_table rfl) addrStr
    · unfold abortManager
      split <;> rfl
    · unfold shutdownPeer
      split <;> rfl

theorem careful_work {ι κ : Type} {peers : ι → Peer} {a : Actor ι κ} {o : Option InternalUpdate}
    {t : Code Unit} (h : Work peers a o t) : Careful Unit t := by
  have hdone {α : Type} {t : Code α} (ht : Careful α t) :
      Careful Unit (do let _ ← t; return () : Code Unit) :=
    chains_careful.bind ht fun _ ↦ chains_careful.ret ()
  cases h with
  | connect i ord =>
    have hinsert : Careful Unit (insertPeer (peers i)) :=
      careful_of_confined (.writing fun _ ↦ shrinks_of_table rfl)
    exact chains_careful.bind hinsert fun _ ↦ hdone ((whole_careful _).startPeer ord)
  | round i ord r t =>
    refine hdone ((whole_careful _).selectRound ord (careful_of_confined (.modify fun s ↦ ?_)) r t)
    obtain ⟨tx, htake⟩ := (peers i).takeOutgoing_eq s.world
    rw [htake]
    exact shrinks_of_table rfl
  | disconnect i =>
    have hdrop : Careful Unit (modify (dropReceiver (peers i))) := careful_modifyCell (peers i) _
    exact chains_careful.bind hdrop fun _ ↦
      careful_of_confined (.writing fun _ ↦ shrinks_of_table rfl)
  | call k h => exact hdone (careful_call h)
  | distribute ord u =>
    exact hdone (careful_of_confined (confined_distribute (R := Shrinks)
      (fun _ ↦ shrinks_of_table rfl) (fun _ _ _ ↦ shrinks_of_table rfl) ord))

/-- The view shows no route twice, none that the table lacked as the request got its guard, and
all that the table still has as it gives it back. -/
structure Between (s s' : Node) (vnet : Vnet) : Prop where
  once : ∀ r, shown vnet r ≤ 1
  sound : ∀ r, shown vnet r ≠ 0 → (table s).Has r
  complete : ∀ r, (table s').Has r → shown vnet r = 1

section Rows

variable (orders : Orders)

theorem count_sortedDestMap (t : RouteTable) (vni : Vni) (dest : Destination) (nh : NextHop) :
    ((sortedDestMap orders t.routes vni)[dest]?.map (·.count nh)).getD 0 =
      if t.Has (vni, dest, nh) then 1 else 0 := by
  rw [← shown_getRouteData orders t, shown, getElem?_getRouteData]
  split
  · next hempty =>
    rw [Std.ExtTreeMap.isEmpty_iff.mp hempty]
    simp
  · rfl

theorem shown_insert (t : RouteTable) (vni : Vni) (vnet : Vnet) (r : Route) :
    shown (vnet.insert vni (sortedDestMap orders t.routes vni)) r =
      if r.1 = vni then (if t.Has r then 1 else 0) else shown vnet r := by
  obtain ⟨v, dest, nh⟩ := r
  rw [shown, Std.ExtTreeMap.getElem?_insert]
  by_cases hv : v = vni
  · subst hv
    simp only [Std.LawfulEqCmp.compare_eq_iff_eq, if_true, Option.bind_some]
    exact count_sortedDestMap orders t v dest nh
  · simp only [Std.LawfulEqCmp.compare_eq_iff_eq, hv, Ne.symm hv, if_false]
    rfl

/-- What holds of the view while the VNIs of `todo` are still to come. -/
structure Partial (s₀ s : Node) (todo : List Vni) (vnet : Vnet) : Prop where
  once : ∀ r, shown vnet r ≤ 1
  sound : ∀ r, shown vnet r ≠ 0 → (table s₀).Has r
  complete : ∀ r, r.1 ∉ todo → (table s).Has r → shown vnet r = 1

theorem Partial.shrink {s₀ s s' : Node} {todo : List Vni} {vnet : Vnet}
    (h : Partial s₀ s todo vnet) (hs : Shrinks s s') : Partial s₀ s' todo vnet :=
  ⟨h.once, h.sound, fun r hr hhas ↦ h.complete r hr (hs.has hhas)⟩

theorem Partial.look {s₀ s : Node} {vni : Vni} {rest : List Vni} {vnet : Vnet}
    (h : Partial s₀ s (vni :: rest) vnet) (hs : Shrinks s₀ s) :
    (if (sortedDestMap orders (table s).routes vni).isEmpty then Partial s₀ s rest vnet
      else Partial s₀ s rest (vnet.insert vni (sortedDestMap orders (table s).routes vni))) := by
  split
  · next hempty =>
    refine ⟨h.once, h.sound, fun r hr hhas ↦ h.complete r (fun hmem ↦ ?_) hhas⟩
    rcases List.mem_cons.mp hmem with hvni | hmem
    · have hcount := count_sortedDestMap orders (table s) r.1 r.2.1 r.2.2
      rw [if_pos hhas, hvni, Std.ExtTreeMap.isEmpty_iff.mp hempty] at hcount
      simp at hcount
    · exact hr hmem
  · have hshown := shown_insert orders (table s) vni vnet
    refine ⟨fun r ↦ ?_, fun r hr ↦ ?_, fun r hr hhas ↦ ?_⟩
    · rw [hshown]
      split
      · split <;> omega
      · exact h.once r
    · rw [hshown] at hr
      split at hr
      · split at hr
        · next hhas => exact hs.has hhas
        · exact absurd rfl hr
      · exact h.sound r hr
    · rw [hshown, if_pos hhas]
      split
      · rfl
      · next hne =>
        refine h.complete r (fun hmem ↦ ?_) hhas
        rcases List.mem_cons.mp hmem with hvni | hmem
        · exact hne hvni
        · exact hr hmem

theorem observes_collectRows {s₀ s : Node} {todo : List Vni} {vnet : Vnet}
    (h : Partial s₀ s todo vnet) (hs : Shrinks s₀ s) :
    Observes Shrinks (Between s₀) (collectRows orders todo vnet) s := by
  induction todo generalizing s vnet with
  | nil =>
    intro s' hs'
    have hend := h.shrink hs'
    exact ⟨hend.once, hend.sound, fun r hhas ↦ hend.complete r List.not_mem_nil hhas⟩
  | cons vni rest ih =>
    intro s' hs'
    have hs₀ := IsTrans.trans _ _ _ hs hs'
    have hlook := (h.shrink hs').look orders hs₀
    refine ⟨rfl, ?_⟩
    change Observes Shrinks (Between s₀)
      (if (sortedDestMap orders (table s').routes vni).isEmpty then _ else _) s'
    split at hlook
    · next hempty =>
      rw [if_pos hempty]
      exact ih hlook hs₀
    · next hempty =>
      rw [if_neg hempty]
      exact ih hlook hs₀

theorem observes_look (s : Node) : Observes Shrinks (Between s) (look orders) s := by
  intro s' hs'
  refine ⟨rfl, observes_collectRows orders ⟨fun r ↦ ?_, fun r hr ↦ ?_, fun r hr hhas ↦ ?_⟩ hs'⟩
  · simp [shown]
  · simp [shown] at hr
  · refine absurd ?_ hr
    change r.1 ∈ orders.vnis.list (table s').routes.keys
    rw [HashOrder.mem_list]
    exact (RouteTable.mem_keys_of_has hhas).1

end Rows

section Runs

variable {ι κ : Type} (peers : ι → Peer)

theorem confined_look (orders : Orders) : Confined Shrinks (look orders) := by
  refine .bind (.gets _) fun vnis ↦ ?_
  generalize (∅ : Vnet) = vnet
  induction vnis generalizing vnet with
  | nil => exact .ret _
  | cons vni rest ih =>
    refine .bind (.gets _) fun sortedDestMap ↦ ?_
    split
    · exact ih vnet
    · exact ih _

theorem calm_serving : Pool.Calm .metalbondState Shrinks
    (Serving peers : Option (Actor ι κ) → Option InternalUpdate → Code (Option Vnet) → Prop) where
  refl := inferInstance
  trans := inferInstance
  recv _ _ := shrinks_of_table rfl
  starts i o t held h := by
    cases h with
    | node a o h => exact (careful_work h held).bind fun _ _ ↦ trivial
    | request orders =>
      refine .of_confined (.bind (.bind (.acquire ..) fun _ ↦ ?_) fun _ ↦ .ret _)
      exact .bind (confined_look orders) fun _ ↦ .bind (.release ..) fun _ ↦ .ret _

def Answer (s s' : Node) (answer : Option Vnet) : Prop :=
  ∃ vnet, answer = some vnet ∧ Between s s' vnet

theorem underRead_request {o : Option InternalUpdate} {t : Code (Option Vnet)}
    (h : Serving (κ := κ) peers none o t) :
    ∃ body, t = underRead .metalbondState body ∧ ∀ s, Observes Shrinks (Answer s) body s := by
  cases h with
  | request orders =>
    refine ⟨do let vnetMap ← look orders; return some vnetMap, ?_, fun s ↦ ?_⟩
    · simp only [getRouteData, underRead, bind_assoc]
      rfl
    · refine (observes_look orders s).bind fun s' vnet hvnet ↦ ?_
      exact fun s'' hs'' ↦ ⟨vnet, rfl, hvnet s'' hs''⟩

/-- However a request is interleaved with the other tasks, its answer lies between the table as
the request got the read guard and the table as it gave it back: only cleanups, which need no
write guard, take routes out meanwhile. -/
theorem export_between [DecidableEq ι] [DecidableEq κ]
    {c₀ c : Pool (Option (Actor ι κ)) Lock World InternalUpdate (Option Vnet)}
    (hidle : ∀ a, c₀.Idle a) (hheld : ∀ a, c₀.held a = []) (hnone : c₀.code none = .ret none)
    (hrun : Run (Pool.Step (Serving peers)) c₀ c) {vnet : Vnet}
    (hanswer : c.code none = .ret (some vnet)) :
    ∃ c₁ c₂, Pool.Interval .metalbondState (Serving peers) none c₀ c₁ c₂ c (some vnet) ∧
      Shrinks c₁.shared c₂.shared ∧ Between c₁.shared c₂.shared vnet := by
  rcases Pool.answered_of_run (calm_serving peers) (fun _ _ h ↦ underRead_request peers h) hidle
    hheld hrun hanswer with hstart | ⟨c₁, c₂, hinterval, hshrinks, _, hvnet, hbetween⟩
  · cases hnone.symm.trans hstart
  · cases hvnet
    exact ⟨c₁, c₂, hinterval, hshrinks, hbetween⟩

end Runs

theorem exec_collectRows (orders : Orders) (held : List (Guard Lock)) (s : Node) (vnis : List Vni)
    (vnet : Vnet) : exec held (collectRows orders vnis vnet) s = .done (vnis.foldl (fun result vni ↦
      (if (sortedDestMap orders (table s).routes vni).isEmpty then none
        else some (sortedDestMap orders (table s).routes vni)).elim result (result.insert vni)) vnet)
      held s := by
  induction vnis generalizing vnet with
  | nil => rfl
  | cons vni rest ih =>
    rw [collectRows, exec_bind, exec_gets, Outcome.done_andThen, List.foldl_cons, table]
    by_cases hempty : (sortedDestMap orders s.world.mb.routeTable.routes vni).isEmpty
    · rw [if_pos hempty, if_pos hempty]
      exact ih vnet
    · rw [if_neg hempty, if_neg hempty]
      exact ih _

theorem exec_getRouteData (orders : Orders) (s : Node) : exec [] (getRouteData orders) s =
    .done (RouteExport.getRouteData orders (table s).routes) [] s := by
  have hlook : exec [(.metalbondState, .read)] (look orders) s =
      .done (RouteExport.getRouteData orders (table s).routes) [(.metalbondState, .read)] s := by
    rw [look, exec_bind, exec_gets, Outcome.done_andThen]
    exact exec_collectRows ..
  simp only [getRouteData, underRead, exec_bind, exec_acquire, clashes_nil, Bool.false_eq_true,
    if_false, Outcome.done_andThen, hlook]
  rfl

open SubscriptionRecords (acceptors)

def learnedNode : Node :=
  (exec [] ((acceptors false).processUpdate (Sample.update .add)) (Sample.node true)).shared

/-- A server has learned a route from one of its peers, and then answers a request. -/
theorem export_between_sample :
    ∃ c₀ c₁ c₂ c : Pool (Option (Actor Bool Unit)) Lock World InternalUpdate (Option Vnet),
      ∃ vnet, Pool.Interval .metalbondState (Serving acceptors) none c₀ c₁ c₂ c (some vnet) ∧
        shown vnet Sample.route = 1 ∧ Shrinks c₁.shared c₂.shared ∧
        Between c₁.shared c₂.shared vnet := by
  let orders : Orders := ⟨default, fun _ ↦ default, fun _ ↦ default⟩
  let c₀ : Pool (Option (Actor Bool Unit)) Lock World InternalUpdate (Option Vnet) :=
    ⟨fun _ ↦ ⟨[], .ret none⟩, Sample.node true⟩
  let c := c₀.set (some (.connection false)) ⟨[], .ret none⟩ learnedNode
  let vnet := RouteExport.getRouteData orders (table learnedNode).routes
  let heard : Round := ⟨false, .frame (.message (.update (Sample.update .add))), 0, 0⟩
  have hlearn : Run (Pool.Step (Serving acceptors)) c₀ c :=
    Pool.run_whole (fun _ ↦ rfl) ⟨none, rfl⟩ (.node _ none (.round false default heard .off)) rfl
  have hexec := (exec_bind ..).trans
    (congrArg (Outcome.andThen · fun vnetMap held s ↦ exec held (return some vnetMap) s)
      (exec_getRouteData orders learnedNode))
  have hheld : ∀ a, c.held a = [] := Pool.unguarded_set (fun _ ↦ rfl) _ _ _
  have hrequest : Run (Pool.Step (Serving acceptors)) c
      (c.set none ⟨[], .ret (some vnet)⟩ learnedNode) :=
    Pool.run_whole hheld ⟨none, rfl⟩ (.request orders) hexec
  have hanswer : (c.set none ⟨[], .ret (some vnet)⟩ learnedNode).code none = .ret (some vnet) := by
    rw [Pool.code_set, Function.update_self]
  obtain ⟨c₁, c₂, hinterval, hshrinks, hbetween⟩ := export_between acceptors (fun _ ↦ ⟨none, rfl⟩)
    (fun _ ↦ rfl) rfl (hlearn.trans hrequest) hanswer
  refine ⟨c₀, c₁, c₂, _, vnet, hinterval, ?_, hshrinks, hbetween⟩
  have hhas : (table learnedNode).Has Sample.route := by decide
  exact (shown_getRouteData ..).trans (if_pos hhas)

end MetalBond.HttpExport
