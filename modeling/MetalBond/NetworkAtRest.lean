import MetalBond.Announcements
import MetalBond.SaidRoutes

namespace MetalBond.NetworkAtRest

open Async Task Collections HashMap Peer PeerEntries SaidRoutes
open Ownership (Holdings)
open Announcements (Begins Careful Established)

def updates (msgs : List GeneratedMessage) : List (Option Pb.Update) :=
  msgs.filterMap fun
    | .update msg => some (some msg)
    | _ => none

def Heeded (p : Peer) (listens : Finset Vni) (d : Change Route) : Prop :=
  ¬(d.subject.1 ∉ listens ∧ p.direction = .outgoing)

instance (p : Peer) (listens : Finset Vni) (d : Change Route) : Decidable (Heeded p listens d) :=
  inferInstanceAs (Decidable (¬_))

section Streams

variable {p q : Peer} {h : Holdings} {s : Node}

theorem routes_hear (msg : Pb.Update) : (hear q h (.update msg)).routes =
    replay h.routes ((GeneratedMessage.update msg).change?.toList.filter
      fun d ↦ decide (Heeded q h.listens d)) := by
  have hchange : (GeneratedMessage.update msg).change? =
      (parseUpdate msg).toOption.map fun x ↦ changeOf x.1 x.2 := rfl
  rw [hchange, hear, Holdings.handle, Holdings.routesAfter]
  cases parseUpdate msg with
  | error x => rfl
  | ok x =>
    obtain ⟨action, vni, dest, nh⟩ := x
    have hheeded : Heeded q h.listens (changeOf action (vni, dest, nh)) ↔
        ¬(vni ∉ h.listens ∧ q.direction = .outgoing) := by
      rw [Heeded, subject_changeOf]
    simp only [Except.toOption, Option.map_some, Option.toList_some, List.filter_singleton, hheeded]
    by_cases hig : vni ∉ h.listens ∧ q.direction = .outgoing
    · simp [hig]
    · simp only [hig, if_false, not_false_eq_true, decide_true]
      cases action <;> rfl

/-- What a peer has said is what its messages tell, without what is ignored. -/
theorem routes_said (msgs : List GeneratedMessage) : (said q h (updates msgs)).routes =
    replay h.routes ((msgs.filterMap GeneratedMessage.change?).filter
      fun d ↦ decide (Heeded q h.listens d)) := by
  induction msgs generalizing h with
  | nil => rfl
  | cons msg msgs ih =>
    cases msg with
    | update msg =>
      have hfirst : said q h (updates (.update msg :: msgs)) =
          said q (hear q h (.update msg)) (updates msgs) := rfl
      have hlistens : (hear q h (.update msg)).listens = h.listens := rfl
      rw [hfirst, ih, routes_hear, hlistens, ← replay_append, ← List.filter_append]
      cases hchange : (GeneratedMessage.update msg).change? <;> simp [hchange]
    | _ => exact ih

theorem routes_said_incoming (hdirection : q.direction = .incoming) :
    (said q h (updates (p.cellOf s).tx.history)).routes = replay h.routes (p.received s) := by
  have hall : ∀ d ∈ p.received s, decide (Heeded q h.listens d) = true := by
    intro d _
    simp [Heeded, hdirection]
  rw [routes_said]
  exact congrArg (replay h.routes) (List.filter_eq_self.mpr hall)

theorem routes_said_outgoing (hdirection : q.direction = .outgoing) {vni : Vni}
    (hlistens : h.listens = {vni}) :
    (said q h (updates (p.cellOf s).tx.history)).routes =
      replay h.routes ((p.received s).filter fun d ↦ decide (d.subject.1 = vni)) := by
  have hheeded (d : Change Route) : Heeded q h.listens d ↔ d.subject.1 = vni := by
    simp [Heeded, hdirection, hlistens]
  rw [routes_said]
  simp only [hheeded]
  rfl

end Streams

section Announcer

variable {S κ : Type}

/-- The connections of a client that only announces, each with the `KEEPALIVE`s of its server,
the calls of the application, the writing of the queues, and the distributor. -/
inductive AnnouncerWork (peers : S → Peer) :
    Option (S ⊕ κ) → Option InternalUpdate → Code (Except Error Unit) → Prop
  | processKeepalive (j : S) (ord : HashOrder) :
    AnnouncerWork peers (some (.inl j)) none ((peers j).processKeepalive ord)
  | announceRoute (k : κ) (vni : Vni) (dest : Destination) (nh : NextHop) :
    AnnouncerWork peers (some (.inr k)) none (announceRoute vni dest nh)
  | withdrawRoute (k : κ) (vni : Vni) (dest : Destination) (nh : NextHop) :
    AnnouncerWork peers (some (.inr k)) none (withdrawRoute vni dest nh)
  | writeOutgoing (k : κ) (j : S) :
    AnnouncerWork peers (some (.inr k)) none (peers j).writeOutgoing
  | distribute (ord : HashOrder) (u : InternalUpdate) :
    AnnouncerWork peers none (some u) (distribute ord u)

variable [DecidableEq S] {peers : S → Peer}

def seenFrom (j : S) : Option (S ⊕ κ) ≃ Party ({i : S // i ≠ j} ⊕ κ) where
  toFun
    | none => .distributor
    | some (.inl i) => if h : i = j then .link else .other (.inl ⟨i, h⟩)
    | some (.inr k) => .other (.inr k)
  invFun
    | .distributor => none
    | .link => some (.inl j)
    | .other (.inl i) => some (.inl i)
    | .other (.inr k) => some (.inr k)
  left_inv a := by
    rcases a with _ | i | k
    · rfl
    · by_cases hi : i = j <;> simp [hi]
    · rfl
  right_inv a := by
    rcases a with _ | _ | ⟨i, hi⟩ | k
    · simp
    · rfl
    · simp [hi]
    · rfl

theorem AnnouncerWork.seen (hids : Function.Injective fun j ↦ (peers j).id) {j : S}
    {a : Party ({i : S // i ≠ j} ⊕ κ)} {o : Option InternalUpdate} {t : Code (Except Error Unit)}
    (h : AnnouncerWork peers ((seenFrom j).symm a) o t) : Announcements.Work (peers j) a o t := by
  rcases a with _ | _ | ⟨i, hi⟩ | k
  · cases h with
    | processKeepalive _ ord => exact .processKeepalive ord
  · cases h with
    | distribute ord u => exact .distribute ord u
  · cases h with
    | processKeepalive _ ord => exact .otherKeepalive _ (peers i) (hids.ne hi) ord
  · cases h with
    | announceRoute _ vni dest nh => exact .announceRoute _ vni dest nh
    | withdrawRoute _ vni dest nh => exact .withdrawRoute _ vni dest nh
    | writeOutgoing _ i => exact .writeOutgoing _ (peers i)

variable [DecidableEq κ] {c c' : MetalBond.Tasks (Option (S ⊕ κ))}

structure SettledAnnouncer (peers : S → Peer) (c c' : MetalBond.Tasks (Option (S ⊕ κ))) : Prop where
  ids : Function.Injective fun j ↦ (peers j).id
  begins : ∀ j, Begins (peers j) c
  run : Run (fun c c' ↦ Pool.Step (AnnouncerWork peers) c c' ∧ ∀ j,
    (peers j).HasRoom c.shared ∧ Careful (peers j) (c.code (some (.inl j))) c.shared c'.shared) c c'
  idle : ∀ a, c'.Idle a
  drained : c'.shared.chan.queue = []
  established : ∀ j, Established (peers j) c'.shared

/-- Each of the servers was told everything that the client announces. -/
theorem SettledAnnouncer.replay_received (h : SettledAnnouncer peers c c') (j : S) :
    replay ∅ ((peers j).received c'.shared) = {r | c'.shared.world.mb.myAnnouncements.Has r} := by
  have hbegins : Begins (peers j) (c.rename (seenFrom j)) := {
    idle := fun a ↦ (h.begins j).idle ((seenFrom j).symm a)
    unguarded := fun a ↦ (h.begins j).unguarded ((seenFrom j).symm a)
    chanOpen := (h.begins j).chanOpen
    history := (h.begins j).history
    clientOf := (h.begins j).clientOf
    connecting := (h.begins j).connecting
    untold := (h.begins j).untold }
  have hrun := h.run.lift (p := fun d d' ↦ Announcements.Step (peers j) d d' ∧
      Careful (peers j) (d.code .link) d.shared d'.shared) (Pool.rename (seenFrom j)) fun d d' hd ↦
    ⟨⟨(hd.1.rename _).mono fun _ _ _ ↦ AnnouncerWork.seen h.ids, (hd.2 j).1⟩, (hd.2 j).2⟩
  exact Announcements.told_eq_announcements hbegins hrun (fun a ↦ h.idle ((seenFrom j).symm a))
    h.drained (h.established j)

end Announcer

section Network

variable {S ι κ : Type} [DecidableEq S] [DecidableEq ι] [DecidableEq κ]

/-- Clients that announce, servers with a new table, and a client that listens to one VNI; the
clients have a connection to every server. All of them have come to rest, and every message that
was queued for one of them has been handled. -/
structure SettledNetwork (S ι κ : Type) [DecidableEq S] [DecidableEq ι] [DecidableEq κ]
    (vni : Vni) where
  announcer : ι → MetalBond.Tasks (Option (S ⊕ κ))
  /-- The announcer's ends of its connections. -/
  toServer : ι → S → Peer
  announces : ∀ i, ∃ c, SettledAnnouncer (toServer i) c (announcer i)
  server : S → Recorded (Party (ι ⊕ κ))
  fromAnnouncer : S → ι → Peer
  toClient : S → Peer
  serves : ∀ j, ∃ x, SettledServer (toClient j) vni (fromAnnouncer j) x (server j) ∧
    x.pool.shared.world.mb.routeTable = .new
  incoming : ∀ j i, (fromAnnouncer j i).direction = .incoming
  announcerAddrs : ∀ j, Function.Injective fun i ↦ (fromAnnouncer j i).remoteAddr
  client : Recorded (Option (S ⊕ κ))
  fromServer : S → Peer
  listens : ∃ x, SettledClient fromServer x client ∧
    x.pool.shared.world.mb.mySubscriptions = {vni}
  outgoing : ∀ j, (fromServer j).direction = .outgoing
  serverAddrs : Function.Injective fun j ↦ (fromServer j).remoteAddr
  announced : ∀ j i, (server j).jobs (.other (.inl i)) =
    updates ((toServer i j).cellOf (announcer i).shared).tx.history
  forwarded : ∀ j, client.jobs (some (.inl j)) =
    updates ((toClient j).cellOf (server j).pool.shared).tx.history

namespace SettledNetwork

variable {vni : Vni} (n : SettledNetwork S ι κ vni)

theorem told_eq (j : S) : Convergence.told (n.toClient j) vni (n.server j).pool.shared =
    {r | r.1 = vni ∧ ∃ i, (n.announcer i).shared.world.mb.myAnnouncements.Has r} := by
  obtain ⟨x, hserver, hnew⟩ := n.serves j
  rw [told_of_streams (n.announcerAddrs j) hserver]
  refine Set.ext fun r ↦ and_congr_right fun _ ↦ exists_congr fun i ↦ ?_
  obtain ⟨c, hannouncer⟩ := n.announces i
  rw [n.announced j i, routes_said_incoming (n.incoming j i), learned_of_new hnew,
    hannouncer.replay_received j]
  rfl

/-- The client has learned the routes of its VNI that are announced anywhere. -/
theorem has_iff [Nonempty S] (r : Route) : n.client.pool.shared.world.mb.routeTable.Has r ↔
    r.1 = vni ∧ ∃ i, (n.announcer i).shared.world.mb.myAnnouncements.Has r := by
  obtain ⟨x, hclient, hlistens⟩ := n.listens
  have hsaid (j : S) : (said (n.fromServer j) ⟨∅, ∅, x.pool.shared.world.mb.mySubscriptions⟩
      (n.client.jobs (some (.inl j)))).routes =
      {r | r.1 = vni ∧ ∃ i, (n.announcer i).shared.world.mb.myAnnouncements.Has r} := by
    rw [n.forwarded j, routes_said_outgoing (n.outgoing j) hlistens]
    exact n.told_eq j
  rw [hclient.has_iff n.serverAddrs]
  simp only [hsaid, Set.mem_ofPred_eq, exists_const]

end SettledNetwork

end Network

theorem settled_announcing : ∃ c c' : MetalBond.Tasks (Option (Unit ⊕ Unit)),
    SettledAnnouncer (fun _ ↦ Sample.peer 1 .outgoing) c c' ∧
      updates ((Sample.peer 1 .outgoing).cellOf c'.shared).tx.history =
        [some (Sample.update .add)] ∧
      c'.shared.world.mb.myAnnouncements.Has Sample.route := by
  let peers (_ : Unit) : Peer := Sample.peer 1 .outgoing
  let call : Option (Unit ⊕ Unit) := some (.inr ())
  have hcall : AnnouncerWork peers call none (announceRoute 100 Sample.destination Sample.nextHop) :=
    .announceRoute ..
  obtain ⟨c, c', hbegins, hrun, hidle, hdrained, hup, hhistory, hannounced⟩ :=
    Sample.announced_first call (some (.inl ())) none hcall (.processKeepalive () default)
      (.distribute default Sample.announcement)
  refine ⟨c, c', ⟨fun _ _ _ ↦ rfl, fun _ ↦ hbegins, ?_, hidle, hdrained, fun _ ↦ hup⟩,
    congrArg updates hhistory, ?_⟩
  · exact hrun.mono fun _ _ h ↦ ⟨h.1, fun _ ↦ ⟨h.2.1, h.2.2 _⟩⟩
  · exact RouteTable.has_of_mem (hannounced ▸ Sample.mem_sources_announced.mpr ⟨rfl, rfl⟩)

end MetalBond.NetworkAtRest
