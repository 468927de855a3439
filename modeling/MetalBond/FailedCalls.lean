import MetalBond.Deliveries
import MetalBond.KernelRoutes
import MetalBond.TableExec

namespace MetalBond

open Async Task Collections HashMap

inductive ApiCall
  | subscribe (vni : Vni)
  | unsubscribe (vni : Vni)
  | announceRoute (vni : Vni) (dest : Destination) (nh : NextHop)
  | withdrawRoute (vni : Vni) (dest : Destination) (nh : NextHop)

def ApiCall.code (ord : HashOrder) : ApiCall → Code (Except Error Unit)
  | subscribe vni => MetalBond.subscribe ord vni
  | unsubscribe vni => MetalBond.unsubscribe ord vni
  | announceRoute vni dest nh => MetalBond.announceRoute vni dest nh
  | withdrawRoute vni dest nh => MetalBond.withdrawRoute vni dest nh

structure Unchanged (s s' : Node) : Prop where
  subscriptions : s'.world.mb.mySubscriptions = s.world.mb.mySubscriptions
  announcements : s'.world.mb.myAnnouncements = s.world.mb.myAnnouncements
  tx : ∀ id, (s'.world.cell id).tx = (s.world.cell id).tx

def FailsClean (t : Code (Except Error Unit)) (s : Node) : Prop :=
  ∀ e held s', exec [] t s = .done (.error e) held s' → Unchanged s s'

theorem failsClean_of_ok {t : Code (Except Error Unit)} {s s' : Node} {held : List (Guard Lock)}
    (h : exec [] t s = .done (.ok ()) held s') : FailsClean t s := by
  intro e held' s'' he
  cases h.symm.trans he

theorem failsClean_of_error {t : Code (Except Error Unit)} {s s' : Node} {e : Error}
    {held : List (Guard Lock)} (h : exec [] t s = .done (.error e) held s') :
    FailsClean t s ↔ Unchanged s s' := by
  constructor
  · intro hclean
    exact hclean e held s' h
  · intro hun e' held' s'' he
    cases h.symm.trans he
    exact hun

variable (ord : HashOrder) (vni : Vni) (dest : Destination) (nh : NextHop) {s : Node}

def ClearSucceeds (vni : Vni) (s : Node) : Prop :=
  (s.world.client.call (.clearRoutesForVni vni)).1 = true

section Subscriptions

variable {vni} {f : Finset Vni → Finset Vni} {msg : GeneratedMessage}

/-- A subscription that changes is announced before its routes are cleared: what fails
then has changed it. -/
theorem failsClean_resubscribed {t : Code (Except Error Unit)}
    (h : exec [] t s =
      .done (if (s.world.client.call (.clearRoutesForVni vni)).1 then .ok () else .error .client) []
        (resubscribed msg ord vni (withSubscriptions s f)))
    (hf : f s.world.mb.mySubscriptions ≠ s.world.mb.mySubscriptions) :
    FailsClean t s ↔ ClearSucceeds vni s := by
  by_cases hclear : ClearSucceeds vni s
  · have hok : (s.world.client.call (.clearRoutesForVni vni)).1 = true := hclear
    rw [hok, if_pos rfl] at h
    exact iff_of_true (failsClean_of_ok h) hclear
  · have herr : ¬(s.world.client.call (.clearRoutesForVni vni)).1 = true := hclear
    rw [if_neg herr] at h
    rw [failsClean_of_error h]
    refine iff_of_false (fun hun ↦ hf ?_) hclear
    exact (resubscribed_subscriptions ord).symm.trans hun.subscriptions

theorem failsClean_subscribe : FailsClean (subscribe ord vni) s ↔
    s.world.mb.isServer = true ∨ vni ∈ s.world.mb.mySubscriptions ∨ ClearSucceeds vni s := by
  cases hserver : s.world.mb.isServer with
  | true =>
    have hexec : exec [] (subscribe ord vni) s = .done (.error .subscribeInServerMode) [] s := by
      simp only [subscribe, exec_bind, exec_acquire, clashes_nil, Bool.false_eq_true, if_false,
        Outcome.done_andThen, exec_gets, hserver, if_true, exec_release, List.erase_cons_head,
        pure_eq, exec_ret]
    rw [failsClean_of_error hexec]
    exact iff_of_true ⟨rfl, rfl, fun _ ↦ rfl⟩ (.inl rfl)
  | false =>
    by_cases hmem : vni ∈ s.world.mb.mySubscriptions
    · refine iff_of_true ?_ (.inr (.inl hmem))
      apply failsClean_of_ok
      simp only [subscribe, exec_bind, exec_acquire, clashes_nil, Bool.false_eq_true, if_false,
        Outcome.done_andThen, exec_gets, hserver, exec_update, hmem, not_true_eq_false,
        decide_false, exec_release, List.erase_cons_head, pure_eq, exec_ret]
      rfl
    · have hf : insert vni s.world.mb.mySubscriptions ≠ s.world.mb.mySubscriptions :=
        fun h ↦ hmem (h ▸ Finset.mem_insert_self _ _)
      rw [failsClean_resubscribed ord (exec_subscribe_new ord hserver hmem) hf]
      simp [hmem]

theorem failsClean_unsubscribe : FailsClean (unsubscribe ord vni) s ↔
    s.world.mb.isServer = true ∨ vni ∉ s.world.mb.mySubscriptions ∨ ClearSucceeds vni s := by
  cases hserver : s.world.mb.isServer with
  | true =>
    have hexec : exec [] (unsubscribe ord vni) s =
        .done (.error .unsubscribeInServerMode) [] s := by
      simp only [unsubscribe, exec_bind, exec_acquire, clashes_nil, Bool.false_eq_true, if_false,
        Outcome.done_andThen, exec_gets, hserver, if_true, exec_release, List.erase_cons_head,
        pure_eq, exec_ret]
    rw [failsClean_of_error hexec]
    exact iff_of_true ⟨rfl, rfl, fun _ ↦ rfl⟩ (.inl rfl)
  | false =>
    by_cases hmem : vni ∈ s.world.mb.mySubscriptions
    · have hf : s.world.mb.mySubscriptions.erase vni ≠ s.world.mb.mySubscriptions :=
        fun h ↦ Finset.notMem_erase vni _ (h.symm ▸ hmem)
      rw [failsClean_resubscribed ord (exec_unsubscribe_known ord hserver hmem) hf]
      simp [hmem]
    · refine iff_of_true ?_ (.inr (.inl hmem))
      apply failsClean_of_ok
      simp only [unsubscribe, exec_bind, exec_acquire, clashes_nil, Bool.false_eq_true, if_false,
        Outcome.done_andThen, exec_gets, hserver, exec_update, hmem,
        decide_false, exec_release, List.erase_cons_head, pure_eq, exec_ret]
      rfl

end Subscriptions

section Announcements

variable {dest nh}

theorem addNextHop_eq_self_iff {t : RouteTable} {source : PeerKey} :
    (t.addNextHop vni dest nh source).2 = t ↔ source ∈ t.sources (vni, dest, nh) := by
  constructor
  · intro h
    rw [← h, RouteTable.sources_addNextHop, if_pos rfl]
    exact Finset.mem_insert_self _ _
  · intro h
    apply RouteTable.ext_sources
    intro r
    rw [RouteTable.sources_addNextHop]
    split
    · next hr => rw [hr, Finset.insert_eq_of_mem h]
    · rfl

theorem failsClean_announceRoute : FailsClean (announceRoute vni dest nh) s ↔
    s.chan.closed = false ∨ none ∈ s.world.mb.myAnnouncements.sources (vni, dest, nh) := by
  have hexec : ∀ b, s.chan.closed = b → exec [] (announceRoute vni dest nh) s =
      .done (if b then .error .announcementNotSent else .ok ()) []
        ⟨addAnnouncement vni dest nh s.world, (s.chan.send ⟨.add, vni, dest, nh, none⟩).2⟩ := by
    intro b hb
    simp only [announceRoute, exec_bind, exec_acquire, clashes_nil, Bool.false_eq_true, if_false,
      Outcome.done_andThen, exec_modify, exec_sendOn, exec_release, List.erase_cons_head,
      pure_eq, exec_ret, Channel.send, hb]
    cases b <;> rfl
  cases hclosed : s.chan.closed with
  | false => exact iff_of_true (failsClean_of_ok (hexec false hclosed)) (.inl rfl)
  | true =>
    rw [failsClean_of_error (hexec true hclosed), ← addNextHop_eq_self_iff]
    constructor
    · exact fun hun ↦ .inr hun.announcements
    · intro h
      exact ⟨rfl, h.resolve_left (by simp), fun _ ↦ rfl⟩

theorem removeAnnouncement_of_mem {w : World}
    (h : none ∈ w.mb.myAnnouncements.sources (vni, dest, nh)) :
    removeAnnouncement vni dest nh w =
      (.ok ((w.mb.myAnnouncements.sources (vni, dest, nh)).erase none).card,
        w.modifyMb fun mb ↦ { mb with
          myAnnouncements := w.mb.myAnnouncements.store (vni, dest, nh)
            ((w.mb.myAnnouncements.sources (vni, dest, nh)).erase none) }) := by
  simp only [removeAnnouncement, RouteTable.removeNextHop_of_mem h]

theorem removeAnnouncement_of_notMem {w : World}
    (h : none ∉ w.mb.myAnnouncements.sources (vni, dest, nh)) :
    ∃ e, removeAnnouncement vni dest nh w = (.error e, w) := by
  obtain ⟨e, he⟩ := RouteTable.removeNextHop_of_notMem h
  exact ⟨e, by simp only [removeAnnouncement, he]⟩

theorem exec_withdrawRoute {remaining : Except Error ℕ} {w : World}
    (h : removeAnnouncement vni dest nh s.world = (remaining, w)) :
    exec [] (withdrawRoute vni dest nh) s =
      if remaining.toOption = some 0 then
        .done (if s.chan.closed then .error .withdrawalNotSent else .ok ()) []
          ⟨w, (s.chan.send ⟨.remove, vni, dest, nh, none⟩).2⟩
      else .done (.ok ()) [] ⟨w, s.chan⟩ := by
  simp only [withdrawRoute, exec_bind, exec_acquire, clashes_nil, Bool.false_eq_true, if_false,
    Outcome.done_andThen, exec_update, h]
  rcases remaining with e | _ | n
  · rfl
  · simp only [exec_bind, exec_sendOn, Outcome.done_andThen, exec_release, List.erase_cons_head,
      pure_eq, exec_ret, Channel.send]
    cases s.chan.closed <;> rfl
  · rfl

/-- The table forgets the route before the update about it is sent. -/
theorem failsClean_withdrawRoute : FailsClean (withdrawRoute vni dest nh) s ↔
    s.chan.closed = false ∨ s.world.mb.myAnnouncements.sources (vni, dest, nh) ≠ {none} := by
  by_cases hmem : none ∈ s.world.mb.myAnnouncements.sources (vni, dest, nh)
  · have hexec := exec_withdrawRoute vni (removeAnnouncement_of_mem vni hmem)
    by_cases hlast : s.world.mb.myAnnouncements.sources (vni, dest, nh) = {none}
    · rw [if_pos (by simp [hlast, Except.toOption])] at hexec
      cases hclosed : s.chan.closed with
      | false =>
        rw [hclosed] at hexec
        exact iff_of_true (failsClean_of_ok hexec) (.inl rfl)
      | true =>
        rw [hclosed] at hexec
        rw [failsClean_of_error hexec]
        refine iff_of_false (fun hun ↦ ?_) (by simp [hlast])
        have hgone := congrArg (·.sources (vni, dest, nh)) hun.announcements
        simp only [World.modifyMb_mb, RouteTable.sources_store, if_true] at hgone
        exact Finset.notMem_erase none _ (hgone ▸ hmem)
    · have hleft : (s.world.mb.myAnnouncements.sources (vni, dest, nh)).erase none ≠ ∅ := by
        intro he
        rcases Finset.erase_eq_empty_iff _ _ |>.mp he with h | h
        · rw [h] at hmem
          exact absurd hmem (Finset.notMem_empty _)
        · exact hlast h
      rw [if_neg (by simpa [Except.toOption] using hleft)] at hexec
      exact iff_of_true (failsClean_of_ok hexec) (.inr hlast)
  · obtain ⟨e, he⟩ := removeAnnouncement_of_notMem vni hmem
    have hexec := exec_withdrawRoute vni he
    rw [if_neg (by simp [Except.toOption])] at hexec
    exact iff_of_true (failsClean_of_ok hexec) (.inr fun hlast ↦ hmem (by simp [hlast]))

end Announcements

/-- The states in which a call cannot fail after its table has changed. -/
def ApiCall.Safe (s : Node) : ApiCall → Prop
  | subscribe vni =>
    s.world.mb.isServer = true ∨ vni ∈ s.world.mb.mySubscriptions ∨ ClearSucceeds vni s
  | unsubscribe vni =>
    s.world.mb.isServer = true ∨ vni ∉ s.world.mb.mySubscriptions ∨ ClearSucceeds vni s
  | announceRoute vni dest nh =>
    s.chan.closed = false ∨ none ∈ s.world.mb.myAnnouncements.sources (vni, dest, nh)
  | withdrawRoute vni dest nh =>
    s.chan.closed = false ∨ s.world.mb.myAnnouncements.sources (vni, dest, nh) ≠ {none}

theorem failsClean_iff (s : Node) (call : ApiCall) : FailsClean (call.code ord) s ↔ call.Safe s := by
  cases call with
  | subscribe vni => exact failsClean_subscribe ord
  | unsubscribe vni => exact failsClean_unsubscribe ord
  | announceRoute vni dest nh => exact failsClean_announceRoute vni
  | withdrawRoute vni dest nh => exact failsClean_withdrawRoute vni

namespace Sample

def netlinkNode (ord : HashOrder) : Node :=
  { node false with world := { (node false).world with
      client := netlinkClient.toClient (kernel ord fun _ ↦ none) ∅ } }

end Sample

/-- A VNI without a route table stays subscribed although the call for it failed. -/
theorem not_failsClean_subscribe :
    ¬FailsClean (subscribe default 200) (Sample.netlinkNode default) := by
  intro h
  have hexec : exec [] (subscribe default 200) (Sample.netlinkNode default) =
      .done (.error .client) [] (resubscribed (.subscribe ⟨200⟩) default 200
        (withSubscriptions (Sample.netlinkNode default) (insert 200))) :=
    exec_subscribe_new default rfl (Finset.notMem_empty _)
  have hun := (h _ _ _ hexec).subscriptions
  rw [resubscribed_subscriptions] at hun
  exact absurd (hun ▸ Finset.mem_insert_self 200 _) (Finset.notMem_empty _)

end MetalBond
