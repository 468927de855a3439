import MetalBond.AnnounceOption
import MetalBond.Async.Script
import MetalBond.SubscriptionRecords

namespace MetalBond.ClientSetUp

open Async Task Collections HashMap Peer AnnounceOption
open Losses (dropReceiver)
open SubscriptionRecords (Actor Work)

structure Options where
  server : List String
  subscribe : List Vni
  announce : List String

section Code

variable (parse : String → Option SocketAddr) (fromStr : FromStr) (ord : Vni → HashOrder)

/-- A server that cannot be added is only logged. -/
def addServers : List String → Code Unit
  | [] => return ()
  | serverAddr :: rest => do
    let _ ← addPeer parse serverAddr
    addServers rest

def subscribeAll : List Vni → Code (Except ClientError Unit)
  | [] => return .ok ()
  | vni :: rest => do
    match ← MetalBond.subscribe (ord vni) vni with
    | .error e => return .error (.call e)
    | .ok _ => subscribeAll rest

/-- The part of `main` between the start of the tasks and the wait for the signal to end. -/
def setUp (options : Options) : Code (Except ClientError Unit) := do
  addServers parse options.server
  match ← subscribeAll ord options.subscribe with
  | .error e => return .error e
  | .ok _ => announceAll fromStr options.announce

end Code

/-- The tasks of the node apart from the set-up, which is the one application. -/
inductive Others {ι : Type} (peers : ι → Peer) : Option (Actor ι Empty) → Option InternalUpdate →
    Code (Option (Except ClientError Unit)) → Prop
  | node (a : Actor ι Empty) (o : Option InternalUpdate) {t : Code Unit} (h : Work peers a o t) :
    Others peers (some a) o (do
      t
      return none)

/-- The part of the node's data that is the application's. -/
structure Wanted where
  isServer : Bool
  subscriptions : Finset Vni
  announcements : RouteTable

def wanted (w : World) : Wanted := ⟨w.mb.isServer, w.mb.mySubscriptions, w.mb.myAnnouncements⟩

section Aims

variable (fromStr : FromStr) (options : Options)

def Described (anns : List String) (r : Route) : Prop :=
  ∃ ann ∈ anns, Describes fromStr Other ann r

def Fine (anns : List String) : Prop := ∀ ann ∈ anns, ∃ r, Describes fromStr Other ann r

/-- The VNIs are subscribed to and the described routes are announced, and nothing else. -/
structure Reached (vnis : List Vni) (anns : List String) (v : Wanted) : Prop where
  client : v.isServer = false
  subscriptions : v.subscriptions = vnis.toFinset
  announcements : ∀ r, v.announcements.Has r ↔ Described fromStr anns r

/-- What holds all the time: the options are taken in order, the announcements last. -/
def Underway (v : Wanted) : Prop := ∃ vnis anns, vnis <+: options.subscribe ∧
  anns <+: options.announce ∧ (anns ≠ [] → vnis = options.subscribe) ∧ Reached fromStr vnis anns v

/-- How the set-up can end. -/
inductive Ends (v : Wanted) : Except ClientError Unit → Prop
  | done : Fine fromStr options.announce →
    Reached fromStr options.subscribe options.announce v → Ends v (.ok ())
  | malformed (before : List String) (ann : String) (after : List String) (e : AnnouncementError) :
    options.announce = before ++ ann :: after → Fine fromStr before →
    (∀ r, ¬ Describes fromStr Other ann r) → parseAnnouncement fromStr ann = .error e →
    Reached fromStr options.subscribe before v → Ends v (.error (.announcement e))
  | notSent (before : List String) (ann : String) (after : List String) :
    options.announce = before ++ ann :: after → Fine fromStr (before ++ [ann]) →
    Reached fromStr options.subscribe (before ++ [ann]) v →
    Ends v (.error (.call .announcementNotSent))
  | notCleared (before : List Vni) (vni : Vni) (after : List Vni) :
    options.subscribe = before ++ vni :: after → Reached fromStr (before ++ [vni]) [] v →
    Ends v (.error (.call .client))

variable {fromStr} {options}

theorem Reached.subscribed {vnis : List Vni} {anns : List String} {v : Wanted}
    (h : Reached fromStr vnis anns v) (vni : Vni) :
    Reached fromStr (vnis ++ [vni]) anns { v with subscriptions := insert vni v.subscriptions } := by
  refine ⟨h.client, ?_, h.announcements⟩
  rw [h.subscriptions]
  ext k
  simp

theorem Reached.announced {vnis : List Vni} {anns : List String} {v : Wanted}
    (h : Reached fromStr vnis anns v) {ann : String} {r : Route}
    (hr : parseAnnouncement fromStr ann = .ok r) :
    Reached fromStr vnis (anns ++ [ann])
      { v with announcements := (v.announcements.addNextHop r.1 r.2.1 r.2.2 none).2 } := by
  refine ⟨h.client, h.subscriptions, fun r' ↦ ?_⟩
  have hdescribes : Describes fromStr Other ann r' ↔ r' = r := by
    rw [← parseAnnouncement_eq_ok, hr, Except.ok.injEq, eq_comm]
  have hsplit : Described fromStr (anns ++ [ann]) r' ↔ Described fromStr anns r' ∨ r' = r := by
    rw [← hdescribes]
    simp only [Described, List.mem_append, List.mem_singleton, or_and_right, exists_or,
      exists_eq_left]
  rw [hsplit, ← h.announcements, RouteTable.Has, RouteTable.sources_addNextHop]
  split
  · next heq => exact iff_of_true (Finset.insert_ne_empty _ _) (.inr heq)
  · next hne =>
    have hne : r' ≠ r := hne
    simp [RouteTable.Has, hne]

end Aims

section Same

theorem acts_same (q : Peer) : q.Acts (Same wanted) where
  refl := inferInstance
  sent _ _ := rfl
  cell _ _ _ := rfl
  send _ _ := rfl
  update s action vni dest nh := by
    have hmb := (tableOnly_applyUpdate s action vni dest nh (some q.remoteAddr)).mb_eq
    rw [Same, wanted, hmb]
    rfl
  removeRoutes _ _ := rfl
  subscribe _ _ := rfl
  unsubscribe s vni := by
    rw [Same, wanted, mb_removeSubscriber]
    rfl
  forget _ _ := rfl

variable {ι : Type} (peers : ι → Peer)

theorem same_work {a : Actor ι Empty} {o : Option InternalUpdate} {t : Code Unit}
    (h : Work peers a o t) : Confined (Same wanted) t := by
  cases h with
  | connect i ord =>
    have hinsert : Confined (Same wanted) (insertPeer (peers i)) := .writing fun _ ↦ rfl
    exact .bind hinsert fun _ ↦ .bind ((acts_same _).composes.startPeer ord) fun _ ↦ .ret ()
  | round i ord r t =>
    have htake (s : Node) : Same wanted s { s with world := (peers i).takeOutgoing s.world } := by
      obtain ⟨tx, htake⟩ := (peers i).takeOutgoing_eq s.world
      rw [htake]
      rfl
    exact .bind ((acts_same _).composes.selectRound ord (.modify htake) r t) fun _ ↦ .ret ()
  | disconnect i => exact .bind (.modify fun _ ↦ rfl) fun _ ↦ .writing fun _ ↦ rfl
  | call k h => exact k.elim
  | distribute ord u =>
    exact .bind (confined_distribute (R := Same wanted) (fun _ ↦ rfl) (fun _ _ _ ↦ rfl) ord)
      fun _ ↦ .ret ()

theorem alone_others : Pool.Alone wanted none (Others peers) where
  never o t h := nomatch h
  others j o t h := by
    cases h with
    | node a o h => exact .bind (same_work peers h) fun _ ↦ .ret none

end Same

section Steps

variable {parse : String → Option SocketAddr} {fromStr : FromStr} {ord : Vni → HashOrder}
variable {options : Options} {v : Wanted}

theorem follows_addServers (h : Underway fromStr options v) (servers : List String) :
    Follows (script wanted (Underway fromStr options)) (fun v' _ ↦ v' = v)
      (addServers parse servers) v := by
  have hadd (serverAddr : String) : Confined (Same wanted) (addPeer parse serverAddr) :=
    confined_addPeer parse (fun _ _ ↦ rfl) serverAddr
  induction servers with
  | nil => exact .ret rfl
  | cons serverAddr rest ih =>
    exact ((quiet_script h).of_confined (hadd serverAddr)).andThen fun _ ↦ ih

theorem follows_subscribe {before after : List Vni} {vni : Vni}
    (hsplit : options.subscribe = before ++ vni :: after) (h : Reached fromStr before [] v) :
    Follows (script wanted (Underway fromStr options))
      (fun v' result ↦ Reached fromStr (before ++ [vni]) [] v' ∧
        (result = .ok () ∨ result = .error .client))
      (MetalBond.subscribe (ord vni) vni) v := by
  let v' : Wanted := { v with subscriptions := insert vni v.subscriptions }
  have hreached : Reached fromStr (before ++ [vni]) [] v' := h.subscribed vni
  have hprefix : before ++ [vni] <+: options.subscribe := ⟨after, by rw [hsplit]; simp⟩
  have hnow : Underway fromStr options v :=
    ⟨before, [], (List.prefix_append before [vni]).trans hprefix, List.nil_prefix,
      fun hne ↦ absurd rfl hne, h⟩
  have hthen : Underway fromStr options v' :=
    ⟨before ++ [vni], [], hprefix, List.nil_prefix, fun hne ↦ absurd rfl hne, hreached⟩
  have hserver : Follows (script wanted (Underway fromStr options))
      (fun σ (b : Bool) ↦ σ = v ∧ b = false) (gets fun w ↦ w.mb.isServer : Code Bool) v :=
    .gets fun s hs ↦ ⟨v, ⟨hs, hnow⟩, rfl, (congrArg Wanted.isServer hs).trans h.client⟩
  have hinsert : Follows (script wanted (Underway fromStr options)) (fun σ _ ↦ σ = v')
      (update fun w ↦ (decide (vni ∉ w.mb.mySubscriptions), w.modifyMb fun mb ↦
        { mb with mySubscriptions := insert vni mb.mySubscriptions }) : Code Bool) v := by
    refine .update fun s hs ↦ ⟨v', ⟨?_, hthen⟩, rfl⟩
    exact congrArg (fun v : Wanted ↦ { v with subscriptions := insert vni v.subscriptions }) hs
  have hquiet : Quiet (script (L := Lock) (U := InternalUpdate) wanted (Underway fromStr options)) v'
      (Same wanted) fun _ ↦ True := quiet_script hthen
  have hnotify (peers : List Peer) : Confined (Same wanted)
      (notifyEstablished (·.sendSubscribe vni) peers) :=
    confined_notifyEstablished (fun q ↦ .update fun _ ↦ rfl) peers
  have hclear : Confined (Same wanted) (callClient (.clearRoutesForVni vni)) :=
    .update fun _ ↦ rfl
  refine ((quiet_script hnow).acquires trivial).andThen fun _ ↦ hserver.bind ?_
  rintro _ _ ⟨rfl, rfl⟩
  refine hinsert.andThen fun inserted ↦ ?_
  split
  · refine (hquiet.gets _).andThen fun peers ↦ (hquiet.releases trivial).andThen fun _ ↦ ?_
    refine (hquiet.of_confined (hnotify peers)).andThen fun _ ↦ ?_
    refine (hquiet.acquires trivial).andThen fun _ ↦ ?_
    refine (hquiet.of_confined hclear).andThen fun ok ↦ (hquiet.releases trivial).andThen fun _ ↦ ?_
    refine .ret ⟨hreached, ?_⟩
    split
    · exact .inl rfl
    · exact .inr rfl
  · exact (hquiet.releases trivial).andThen fun _ ↦ .ret ⟨hreached, .inl rfl⟩

theorem follows_subscribeAll {before after : List Vni}
    (hsplit : options.subscribe = before ++ after) (h : Reached fromStr before [] v) :
    Follows (script wanted (Underway fromStr options))
      (fun v' result ↦ (result = .ok () ∧ Reached fromStr options.subscribe [] v') ∨
        ∃ e, result = .error e ∧ Ends fromStr options v' (.error e))
      (subscribeAll ord after) v := by
  induction after generalizing before v with
  | nil =>
    rw [List.append_nil] at hsplit
    exact .ret (.inl ⟨rfl, hsplit ▸ h⟩)
  | cons vni after ih =>
    refine (follows_subscribe hsplit h).bind ?_
    rintro v' _ ⟨hreached, rfl | rfl⟩
    · exact ih (by rw [hsplit]; simp) hreached
    · exact .ret (.inr ⟨_, rfl, .notCleared before vni after hsplit hreached⟩)

theorem follows_announceRoute {before after : List String} {ann : String} {r : Route}
    (hsplit : options.announce = before ++ ann :: after)
    (hr : parseAnnouncement fromStr ann = .ok r)
    (h : Reached fromStr options.subscribe before v) :
    Follows (script wanted (Underway fromStr options))
      (fun v' result ↦ Reached fromStr options.subscribe (before ++ [ann]) v' ∧
        (result = .ok () ∨ result = .error .announcementNotSent))
      (announceRoute r.1 r.2.1 r.2.2) v := by
  let v' : Wanted :=
    { v with announcements := (v.announcements.addNextHop r.1 r.2.1 r.2.2 none).2 }
  have hreached : Reached fromStr options.subscribe (before ++ [ann]) v' := h.announced hr
  have hprefix : before ++ [ann] <+: options.announce := ⟨after, by rw [hsplit]; simp⟩
  have hnow : Underway fromStr options v :=
    ⟨options.subscribe, before, List.prefix_rfl, (List.prefix_append before [ann]).trans hprefix,
      fun _ ↦ rfl, h⟩
  have hthen : Underway fromStr options v' :=
    ⟨options.subscribe, before ++ [ann], List.prefix_rfl, hprefix, fun _ ↦ rfl, hreached⟩
  have hadd : Follows (script wanted (Underway fromStr options)) (fun σ _ ↦ σ = v')
      (modify (addAnnouncement r.1 r.2.1 r.2.2) : Code Unit) v := by
    refine .modify fun s hs ↦ ⟨v', ⟨?_, hthen⟩, rfl⟩
    exact congrArg (fun v : Wanted ↦
      { v with announcements := (v.announcements.addNextHop r.1 r.2.1 r.2.2 none).2 }) hs
  have hquiet : Quiet (script (L := Lock) (U := InternalUpdate) wanted (Underway fromStr options)) v'
      (Same wanted) fun _ ↦ True := quiet_script hthen
  have hsend : Confined (Same wanted) (sendOn ⟨.add, r.1, r.2.1, r.2.2, none⟩ : Code Bool) :=
    .sendOn fun _ ↦ rfl
  refine ((quiet_script hnow).acquires trivial).andThen fun _ ↦ hadd.andThen fun _ ↦ ?_
  refine (hquiet.of_confined hsend).andThen fun sent ↦ (hquiet.releases trivial).andThen fun _ ↦ ?_
  refine .ret ⟨hreached, ?_⟩
  split
  · exact .inl rfl
  · exact .inr rfl

theorem Fine.snoc {anns : List String} (h : Fine fromStr anns) {ann : String} {r : Route}
    (hr : parseAnnouncement fromStr ann = .ok r) : Fine fromStr (anns ++ [ann]) := by
  intro ann' hmem
  rcases List.mem_append.mp hmem with hmem | hmem
  · exact h ann' hmem
  · rw [List.mem_singleton.mp hmem]
    exact ⟨r, parseAnnouncement_eq_ok.mp hr⟩

theorem follows_announceAll {before after : List String}
    (hsplit : options.announce = before ++ after) (hfine : Fine fromStr before)
    (h : Reached fromStr options.subscribe before v) :
    Follows (script wanted (Underway fromStr options))
      (fun v' result ↦ Ends fromStr options v' result) (announceAll fromStr after) v := by
  induction after generalizing before v with
  | nil =>
    rw [List.append_nil] at hsplit
    exact .ret (.done (hsplit ▸ hfine) (hsplit ▸ h))
  | cons ann after ih =>
    cases hparse : parseAnnouncement fromStr ann with
    | error e =>
      rw [announceAll, hparse]
      refine .ret (.malformed before ann after e hsplit hfine (fun r hr ↦ ?_) hparse h)
      cases hparse.symm.trans (parseAnnouncement_eq_ok.mpr hr)
    | ok r =>
      rw [announceAll, hparse]
      refine (follows_announceRoute hsplit hparse h).bind ?_
      rintro v' _ ⟨hreached, rfl | rfl⟩
      · exact ih (by rw [hsplit]; simp) (hfine.snoc hparse) hreached
      · exact .ret (.notSent before ann after hsplit (hfine.snoc hparse) hreached)

theorem follows_setUp (h : Reached fromStr [] [] v) :
    Follows (script wanted (Underway fromStr options))
      (fun v' result ↦ Ends fromStr options v' result) (setUp parse fromStr ord options) v := by
  have hnow : Underway fromStr options v :=
    ⟨[], [], List.nil_prefix, List.nil_prefix, fun hne ↦ absurd rfl hne, h⟩
  refine (follows_addServers hnow options.server).andThen fun _ ↦ ?_
  refine (follows_subscribeAll (List.nil_append options.subscribe).symm h).bind ?_
  rintro v' _ (⟨rfl, hreached⟩ | ⟨e, rfl, hends⟩)
  · exact follows_announceAll (List.nil_append options.announce).symm
      (fun ann hann ↦ absurd hann List.not_mem_nil) hreached
  · exact .ret hends

end Steps

structure Begins {ι : Type} (parse : String → Option SocketAddr) (fromStr : FromStr)
    (ord : Vni → HashOrder) (options : Options)
    (c : Pool (Option (Actor ι Empty)) Lock World InternalUpdate
      (Option (Except ClientError Unit))) : Prop where
  code : c.code none = do
    let result ← setUp parse fromStr ord options
    return some result
  idle : ∀ a, c.Idle (some a)
  new : ∃ config, c.shared.world.mb = .new config false

def sampleOptions : Options := ⟨["server"], [100], ["1#10.0.0.0/8#192.0.2.1"]⟩

theorem parse_sample : parseAnnouncement known "1#10.0.0.0/8#192.0.2.1" =
    .ok (1, ⟨sampleNet⟩, ⟨sampleAddr, 0, .standard, 0, 0⟩) := by
  refine parseAnnouncement_eq_ok.mpr (.mk "1".toList "10.0.0.0/8".toList "192.0.2.1".toList [] 1
    sampleNet sampleAddr .standard 0 0 ?_ ?_ ?_ ?_ ?_ .nothing)
  · decide
  · decide
  · decide
  · rfl
  · rfl

theorem exec_setUp : ∃ s, exec [] (setUp (fun _ ↦ none) known (fun _ ↦ default) sampleOptions)
    (Sample.node false) = .done (.ok ()) [] s := by
  have hadd : exec [] (addServers (fun _ ↦ none) ["server"]) (Sample.node false) =
      .done () [] (Sample.node false) := rfl
  have hsubscribe : exec [] (MetalBond.subscribe default 100) (Sample.node false) =
      .done (.ok ()) [] (resubscribed (.subscribe ⟨100⟩) default 100
        (withSubscriptions (Sample.node false) (insert 100))) :=
    exec_subscribe_new default rfl (Finset.notMem_empty _)
  rw [resubscribed_of_no_peers _ _ rfl] at hsubscribe
  simp only [setUp, sampleOptions, exec_bind, hadd, Outcome.done_andThen, subscribeAll, hsubscribe,
    announceAll, parse_sample]
  exact ⟨_, rfl⟩

end MetalBond.ClientSetUp
