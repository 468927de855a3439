import MetalBond.AppendOnly
import MetalBond.Async.Telling
import MetalBond.Deliveries
import MetalBond.InitialSync

namespace MetalBond.WireAgreement

open Async Task Collections HashMap Peer

def subscriptionChange : GeneratedMessage → Option (Change Vni)
  | .subscribe sub => some (.add sub.vni)
  | .unsubscribe unsub => some (.remove unsub.vni)
  | _ => none

def asked (p : Peer) (s : Node) : List (Change Vni) :=
  (p.cellOf s).tx.history.filterMap subscriptionChange

/-- The peer is told of the subscriptions once it is established. -/
def subscriptions (p : Peer) : Telling World InternalUpdate Vni where
  truth s := s.world.mb.mySubscriptions
  log := asked p
  Open s := (p.cellOf s).state = .established
  Steady := p.Linked
  Ready := p.HasRoom

inductive Actor (κ : Type)
  | caller (k : κ)
  | link
  | writer
  deriving DecidableEq

variable {κ : Type}

inductive Work (p : Peer) : Actor κ → Option InternalUpdate → Code (Except Error Unit) → Prop
  | subscribe (k : κ) (ord : HashOrder) (vni : Vni) : Work p (.caller k) none (subscribe ord vni)
  | unsubscribe (k : κ) (ord : HashOrder) (vni : Vni) :
    Work p (.caller k) none (unsubscribe ord vni)
  | establish (ord : HashOrder) :
    Work p .link none (do p.setState ord .established; return .ok ())
  | writeOutgoing : Work p .writer none p.writeOutgoing

variable {p q : Peer} {s : Node} {d : Change Vni} {msg : GeneratedMessage}
variable {σ σ' : Telling.Part Vni}

theorem asked_sent_of_ne (h : q.id ≠ p.id) : asked p (q.sent s msg) = asked p s := by
  have hcell : p.cellOf (q.sent s msg) = p.cellOf s := World.setCell_cell_of_ne _ h.symm _
  rw [asked, hcell, asked]

theorem sent_of_id (h : q.id = p.id) (s : Node) (msg : GeneratedMessage) :
    q.sent s msg = p.sent s msg := by
  simp only [sent, withCell, cellOf, h]

theorem HasRoom.asked_sent (h : p.HasRoom s) (hmsg : subscriptionChange msg = some d) :
    asked p (p.sent s msg) = asked p s ++ [d] := by
  rw [asked, h.history_sent, List.filterMap_append, asked, List.filterMap_cons_some hmsg,
    List.filterMap_nil]

theorem asked_sent_of_none (h : subscriptionChange msg = none) :
    asked p (q.sent s msg) = asked p s := by
  by_cases hid : q.id = p.id
  · rw [sent_of_id hid]
    by_cases hroom : p.HasRoom s
    · rw [asked, hroom.history_sent, List.filterMap_append, asked, List.filterMap_cons_none h,
        List.filterMap_nil, List.append_nil]
    · rw [sent_of_not_hasRoom hroom]
  · exact asked_sent_of_ne hid

theorem mem_peerList (ord : HashOrder) (h : p.Linked s) : p ∈ peerList ord s.world.mb.peers := by
  have hkey : p.remoteAddr ∈ ord.list s.world.mb.peers.keys := by
    rw [ord.mem_list, Finmap.mem_keys, ← Finmap.lookup_isSome, h.known]
    rfl
  exact List.mem_filterMap.mpr ⟨p.remoteAddr, hkey, h.known⟩

abbrev Same (p : Peer) : Node → Node → Prop := (subscriptions p).Same

abbrev protocol (p : Peer) : Protocol (Telling.Part Vni) Lock World InternalUpdate :=
  (subscriptions p).protocol

theorem linked_of_mb {s' : Node} (hmb : s'.world.mb.peers = s.world.mb.peers) (h : p.Linked s) :
    p.Linked s' where
  known := by rw [hmb]; exact h.known
  unique := by rw [hmb]; exact h.unique

theorem linked_of_knows {s' : Node} (hs : (subscriptions p).Knows σ s)
    (hmb : s'.world.mb.peers = s.world.mb.peers) : p.Linked s' :=
  linked_of_mb hmb hs.steady

theorem same_of_alike {s' : Node} (h : Alike s s') (hasked : asked p s' = asked p s) :
    Same p s s' where
  steady := linked_of_mb (by rw [h.mb])
  isOpen := by
    have hstate : (p.cellOf s').state = (p.cellOf s).state := (h.link p.id).2.1
    exact iff_of_eq (congrArg (· = ConnectionState.established) hstate)
  log := hasked
  truth := congrArg (fun mb : MetalBondState ↦ (mb.mySubscriptions : Set Vni)) h.mb

theorem same_sent_of_ne (h : q.id ≠ p.id) (s : Node) (msg : GeneratedMessage) :
    Same p s (q.sent s msg) :=
  same_of_alike (q.alike_sent s msg) (asked_sent_of_ne h)

theorem same_sent_of_none (h : subscriptionChange msg = none) (s : Node) :
    Same p s (q.sent s msg) :=
  same_of_alike (q.alike_sent s msg) (asked_sent_of_none h)

theorem same_modifyCell (f : PeerCell → PeerCell) (s : Node) (hstate : ∀ c, (f c).state = c.state)
    (hhistory : (f (p.cellOf s)).tx.history = (p.cellOf s).tx.history) :
    Same p s { s with world := s.world.modifyCell p.id f } where
  steady := linked_of_mb rfl
  isOpen := by
    have hcell := s.world.modifyCell_cell p.id f
    exact iff_of_eq (congrArg (· = ConnectionState.established)
      ((congrArg PeerCell.state hcell).trans (hstate _)))
  log := by
    have hcell := congrArg (·.tx.history) (s.world.modifyCell_cell p.id f)
    exact congrArg (·.filterMap subscriptionChange) (hcell.trans hhistory)
  truth := rfl

theorem same_shutdown (s : Node) : Same p s
    { s with world := s.world.modifyCell p.id fun c ↦ { c with shutdownSignal := true } } :=
  same_modifyCell (fun c ↦ { c with shutdownSignal := true }) s (fun _ ↦ rfl) rfl

theorem same_takeOutgoing (s : Node) : Same p s { s with world := p.takeOutgoing s.world } := by
  unfold takeOutgoing
  cases hrecv : (s.world.cell p.id).tx.recv with
  | none => exact Std.Refl.refl s
  | some x =>
    obtain ⟨msg, tx⟩ := x
    exact same_modifyCell (fun c ↦ { c with tx := tx }) s (fun _ ↦ rfl)
      (Mailbox.history_of_recv hrecv).1

abbrev quiet (σ : Telling.Part Vni) : Quiet (protocol p) σ (Same p) fun _ ↦ True :=
  Telling.quiet_telling σ

/-- A task that saw the peer established tells it of the change. -/
theorem tells_sent (h : (subscriptions p).Knows σ s) (hopen : (p.cellOf s).state = .established)
    (hmsg : subscriptionChange msg = some d) (hdue : ∀ c ∈ σ.due, c = d ∨ c ∈ σ'.due) :
    (subscriptions p).Step σ s σ' (p.sent s msg) := by
  have halike := p.alike_sent s msg
  have hsame : (p.cellOf (p.sent s msg)).state = (p.cellOf s).state := (halike.link p.id).2.1
  refine Telling.step_of_tells (linked_of_mb (by rw [halike.mb]) h.steady) hopen
    (hsame.trans hopen) (HasRoom.asked_sent h.ready hmsg) ?_ hdue
  exact congrArg (fun mb : MetalBondState ↦ (mb.mySubscriptions : Set Vni)) halike.mb

/-- A task that sees that the peer is not established has nothing to tell it. -/
theorem follows_look {due : Set (Change Vni)} (hid : q.id = p.id) :
    Follows (protocol p)
      (fun σ st ↦ st = .established ∧ σ = ⟨due, True⟩ ∨ st ≠ .established ∧ σ = .none)
      (gets fun w ↦ (w.cell q.id).state) ⟨due, False⟩ := by
  refine .gets fun s hs ↦ ?_
  have hrefl : Same p s s := Std.Refl.refl s
  rw [hid]
  by_cases hopen : (p.cellOf s).state = .established
  · exact ⟨⟨due, True⟩, hrefl.step hs (fun _ ↦ hopen) fun _ hc _ ↦ hc, .inl ⟨hopen, rfl⟩⟩
  · refine ⟨.none, hrefl.step hs False.elim fun c hc hrec ↦ ?_, .inr ⟨hopen, rfl⟩⟩
    exact absurd hrec.isOpen hopen

section Notify

variable (hmsg : subscriptionChange msg = some d)

include hmsg

/-- Each peer that was read as established is sent the message. -/
theorem follows_notifyEstablished {due : Set (Change Vni)} (peers : List Peer)
    (hdue : ∀ c ∈ due, c = d ∧ ∃ q ∈ peers, q.id = p.id) :
    Follows (protocol p) (fun σ _ ↦ σ = .none) (notifyEstablished (·.sendMessage msg) peers)
      ⟨due, False⟩ := by
  induction peers generalizing due with
  | nil =>
    have hnone : due = ∅ := Set.eq_empty_of_forall_notMem fun c hc ↦ by
      obtain ⟨-, q, hq, -⟩ := hdue c hc
      exact absurd hq List.not_mem_nil
    subst hnone
    exact .ret rfl
  | cons q rest ih =>
    have hrest : Follows (protocol p) (fun σ _ ↦ σ = .none)
        (notifyEstablished (·.sendMessage msg) rest) .none :=
      ih fun c hc ↦ absurd hc (Set.notMem_empty c)
    by_cases hid : q.id = p.id
    · have hread : Follows (protocol p)
          (fun σ st ↦ st = .established ∧ σ = ⟨due, True⟩ ∨ st ≠ .established ∧ σ = .none)
          q.getState ⟨due, False⟩ := by
        refine ((quiet _).acquires trivial).andThen fun _ ↦ .bind (follows_look hid) fun σ st h ↦ ?_
        rcases h with ⟨rfl, rfl⟩ | ⟨hst, rfl⟩
        · exact ((quiet _).releases trivial).andThen fun _ ↦ .ret (.inl ⟨rfl, rfl⟩)
        · exact ((quiet _).releases trivial).andThen fun _ ↦ .ret (.inr ⟨hst, rfl⟩)
      refine hread.bind fun σ st h ↦ ?_
      rcases h with ⟨rfl, rfl⟩ | ⟨hst, rfl⟩
      · rw [if_pos rfl]
        have hsend : Follows (protocol p) (fun σ _ ↦ σ = .none) (q.sendMessage msg) ⟨due, True⟩ := by
          refine .update fun s hs ↦ ⟨.none, ?_, rfl⟩
          have hstep : (subscriptions p).Step ⟨due, True⟩ s .none (p.sent s msg) :=
            tells_sent hs (hs.seen trivial) hmsg fun c hc ↦ .inl (hdue c hc).1
          rwa [← sent_of_id hid] at hstep
        exact hsend.andThen fun _ ↦ hrest
      · rw [if_neg hst]
        exact hrest
    · have hleft : ∀ c ∈ due, c = d ∧ ∃ q ∈ rest, q.id = p.id := by
        intro c hc
        obtain ⟨hcd, q', hq', hid'⟩ := hdue c hc
        rcases List.mem_cons.mp hq' with rfl | hq'
        · exact absurd hid' hid
        · exact ⟨hcd, q', hq', hid'⟩
      refine ((quiet _).reading trivial _).andThen fun st ↦ ?_
      split
      · exact ((quiet _).update fun s ↦ same_sent_of_ne hid s msg).andThen fun _ ↦ ih hleft
      · exact ih hleft

theorem follows_announceSubscription {due : Set (Change Vni)} (vni : Vni) (peers : List Peer)
    (hdue : ∀ c ∈ due, c = d ∧ ∃ q ∈ peers, q.id = p.id) :
    Follows (protocol p) (fun σ _ ↦ σ.due = ∅)
      (announceSubscription vni (·.sendMessage msg) peers) ⟨due, False⟩ := by
  refine (follows_notifyEstablished hmsg peers hdue).andThen fun _ ↦ ?_
  refine ((quiet _).acquires trivial).andThen fun _ ↦ ?_
  have hclient : ∀ s : Node, Same p s { s with
      world := { s.world with client := (s.world.client.call (.clearRoutesForVni vni)).2 } } :=
    fun s ↦ ⟨linked_of_mb rfl, Iff.rfl, rfl, rfl⟩
  exact ((quiet _).update hclient).andThen fun ok ↦ ((quiet _).releases trivial).andThen fun _ ↦
    .ret rfl

/-- What a call does with the guard in its hands, when it changes the subscriptions. -/
theorem follows_changed (ord : HashOrder) (vni : Vni) :
    Follows (protocol p) (fun σ _ ↦ σ.due = ∅) ((do
      let peers ← gets fun w ↦ peerList ord w.mb.peers
      release .metalbondState .write
      announceSubscription vni (·.sendMessage msg) peers) : Code (Except Error Unit))
      ⟨{d}, False⟩ := by
  have hpeers : Follows (protocol p) (fun σ peers ↦ σ = ⟨{d}, False⟩ ∧ p ∈ peers)
      (gets fun w ↦ peerList ord w.mb.peers) ⟨{d}, False⟩ := by
    refine .gets fun s hs ↦ ⟨_, (quiet _).act hs (Std.Refl.refl s), rfl, ?_⟩
    exact mem_peerList ord hs.steady
  refine hpeers.bind fun σ peers h ↦ ?_
  obtain ⟨rfl, hp⟩ := h
  refine ((quiet _).releases trivial).andThen fun _ ↦ ?_
  exact follows_announceSubscription hmsg vni peers fun c hc ↦ ⟨hc, p, hp, rfl⟩

end Notify

theorem step_subscriptions (f : Finset Vni → Finset Vni) (hs : (subscriptions p).Knows .none s)
    (hf : ↑(f s.world.mb.mySubscriptions) = d.apply (s.world.mb.mySubscriptions : Set Vni)) :
    (subscriptions p).Step .none s ⟨{d}, False⟩ (withSubscriptions s f) :=
  Telling.step_of_change (linked_of_knows hs rfl) Iff.rfl rfl hf

theorem step_subscriptions_same (f : Finset Vni → Finset Vni)
    (hs : (subscriptions p).Knows σ s)
    (hf : f s.world.mb.mySubscriptions = s.world.mb.mySubscriptions) :
    (subscriptions p).Step σ s σ (withSubscriptions s f) :=
  (quiet σ).act hs ⟨linked_of_mb rfl, Iff.rfl, rfl, congrArg (fun t : Finset Vni ↦ (t : Set Vni)) hf⟩

theorem follows_subscribe (ord : HashOrder) (vni : Vni) :
    Follows (protocol p) (fun σ _ ↦ σ.due = ∅) (subscribe ord vni) .none := by
  refine ((quiet _).acquires trivial).andThen fun _ ↦ ((quiet _).gets _).andThen fun isServer ↦ ?_
  split
  · exact ((quiet _).releases trivial).andThen fun _ ↦ .ret rfl
  · have hinsert : Follows (protocol p)
        (fun σ inserted ↦ σ = if inserted then ⟨{.add vni}, False⟩ else .none)
        (update fun w ↦ (decide (vni ∉ w.mb.mySubscriptions), w.modifyMb fun mb ↦
          { mb with mySubscriptions := insert vni mb.mySubscriptions })) .none := by
      refine .update fun s hs ↦ ⟨_, ?_, rfl⟩
      by_cases hmem : vni ∈ s.world.mb.mySubscriptions
      · simp only [hmem, not_true_eq_false, decide_false, Bool.false_eq_true, if_false]
        exact step_subscriptions_same (insert vni) hs (Finset.insert_eq_of_mem hmem)
      · simp only [hmem, not_false_eq_true, decide_true, if_true]
        exact step_subscriptions (insert vni) hs (Finset.coe_insert ..)
    refine hinsert.bind fun σ inserted h ↦ ?_
    subst h
    split
    · exact follows_changed rfl ord vni
    · exact ((quiet _).releases trivial).andThen fun _ ↦ .ret rfl

theorem follows_unsubscribe (ord : HashOrder) (vni : Vni) :
    Follows (protocol p) (fun σ _ ↦ σ.due = ∅) (unsubscribe ord vni) .none := by
  refine ((quiet _).acquires trivial).andThen fun _ ↦ ((quiet _).gets _).andThen fun isServer ↦ ?_
  split
  · exact ((quiet _).releases trivial).andThen fun _ ↦ .ret rfl
  · have herase : Follows (protocol p)
        (fun σ removed ↦ σ = if removed then ⟨{.remove vni}, False⟩ else .none)
        (update fun w ↦ (decide (vni ∈ w.mb.mySubscriptions), w.modifyMb fun mb ↦
          { mb with mySubscriptions := mb.mySubscriptions.erase vni })) .none := by
      refine .update fun s hs ↦ ⟨_, ?_, rfl⟩
      by_cases hmem : vni ∈ s.world.mb.mySubscriptions
      · simp only [hmem, decide_true, if_true]
        exact step_subscriptions (·.erase vni) hs (Finset.coe_erase ..)
      · simp only [hmem, decide_false, Bool.false_eq_true, if_false]
        exact step_subscriptions_same (·.erase vni) hs (Finset.erase_eq_of_notMem hmem)
    refine herase.bind fun σ removed h ↦ ?_
    subst h
    split
    · exact follows_changed rfl ord vni
    · exact ((quiet _).releases trivial).andThen fun _ ↦ .ret rfl

/-- What the transition has to tell of the subscriptions that it copied. -/
def adds (vnis : List Vni) : Telling.Part Vni := ⟨{c | ∃ vni ∈ vnis, c = .add vni}, True⟩

theorem follows_sendInitialSubscribes (vnis : List Vni) :
    Follows (protocol p) (fun σ _ ↦ σ = adds []) (p.sendInitialSubscribes vnis) (adds vnis) := by
  induction vnis with
  | nil => exact .ret rfl
  | cons vni rest ih =>
    have hsend : Follows (protocol p) (fun σ _ ↦ σ = adds rest) (p.sendSubscribe vni)
        (adds (vni :: rest)) := by
      refine .update fun s hs ↦ ⟨_, tells_sent hs (hs.seen trivial) rfl fun c hc ↦ ?_, rfl⟩
      obtain ⟨v, hv, rfl⟩ := hc
      rcases List.mem_cons.mp hv with rfl | hv
      · exact .inl rfl
      · exact .inr ⟨v, hv, rfl⟩
    refine hsend.andThen fun r ↦ ?_
    cases r with
    | ok _ => exact ih
    | error e =>
      exact ((quiet _).modify fun s ↦ same_shutdown s).andThen fun _ ↦ ih

theorem follows_sendInitialAnnouncements (routes : List Route) :
    Follows (protocol p) (fun σ _ ↦ σ = adds []) (p.sendInitialAnnouncements routes) (adds []) := by
  induction routes with
  | nil => exact .ret rfl
  | cons r rest ih =>
    refine .andThen ((quiet _).update fun s ↦ same_sent_of_none rfl s) fun r ↦ ?_
    cases r with
    | ok _ => exact ih
    | error e => exact (quiet _).modify fun s ↦ same_shutdown s

theorem follows_initialSync (ord : HashOrder) :
    Follows (protocol p) (fun σ _ ↦ σ = adds []) (p.initialSync ord)
      ⟨Set.range Change.add, True⟩ := by
  have hcopy : Follows (protocol p) (fun σ localSubs ↦ σ = adds (ord.list localSubs))
      (gets fun w ↦ w.mb.mySubscriptions) ⟨Set.range Change.add, True⟩ := by
    refine .gets fun s hs ↦ ⟨_, ?_, rfl⟩
    have hrefl : Same p s s := Std.Refl.refl s
    refine hrefl.step hs hs.seen fun c hc hrec ↦ ?_
    obtain ⟨vni, rfl⟩ := hc
    exact ⟨vni, (ord.mem_list _ vni).mpr hrec.current, rfl⟩
  have hread : Follows (protocol p) (fun σ localSubs ↦ σ = adds (ord.list localSubs))
      (reading .metalbondState fun w ↦ w.mb.mySubscriptions) ⟨Set.range Change.add, True⟩ := by
    refine ((quiet _).acquires trivial).andThen fun _ ↦ hcopy.bind fun σ localSubs h ↦ ?_
    subst h
    exact ((quiet _).releases trivial).andThen fun _ ↦ .ret rfl
  refine hread.bind fun σ localSubs h ↦ ?_
  subst h
  refine (follows_sendInitialSubscribes _).andThen fun _ ↦ ?_
  exact ((quiet _).reading trivial _).andThen fun anns ↦ follows_sendInitialAnnouncements _

theorem follows_establish (ord : HashOrder) :
    Follows (protocol p) (fun σ _ ↦ σ.due = ∅) (p.setState ord .established) .none := by
  have hnone : (adds []).due = ∅ := by simp [adds]
  refine ((quiet _).acquires trivial).andThen fun _ ↦ ((quiet _).gets _).andThen fun old ↦ ?_
  split
  · exact ((quiet _).releases trivial).mono fun σ _ h ↦ by rw [h]; rfl
  · next hold =>
    have henter : Follows (protocol p) (fun σ _ ↦ σ = ⟨Set.range Change.add, True⟩)
        (modify fun w ↦ w.modifyCell p.id fun c ↦ { c with state := .established }) .none := by
      refine .modify fun s hs ↦ ⟨_, ?_, rfl⟩
      have hcell := s.world.modifyCell_cell p.id fun c ↦ { c with state := .established }
      have hstate : (p.cellOf { s with world := s.world.modifyCell p.id fun c ↦
          { c with state := .established } }).state = .established := congrArg PeerCell.state hcell
      exact {
        steady := linked_of_knows hs rfl
        keeps := fun _ ↦ hstate
        seen := fun _ ↦ hstate
        log := .inl (congrArg (·.tx.history.filterMap subscriptionChange) hcell)
        changed := fun _ hc ↦ .inl hc
        opened := fun _ _ vni _ ↦ ⟨vni, rfl⟩
        due := fun c hc ↦ absurd hc (Set.notMem_empty c) }
    refine henter.andThen fun _ ↦ ((quiet _).releases trivial).andThen fun _ ↦ ?_
    rw [if_pos ⟨rfl, hold⟩]
    exact (follows_initialSync ord).mono fun σ _ h ↦ by rw [h, hnone]

theorem plays : (subscriptions p).Plays (Work p : Actor κ → _ → _ → Prop) := by
  intro i o t h
  cases h with
  | subscribe k ord vni => exact ⟨rfl, follows_subscribe ord vni⟩
  | unsubscribe k ord vni => exact ⟨rfl, follows_unsubscribe ord vni⟩
  | establish ord => exact ⟨rfl, (follows_establish ord).bind fun σ _ h ↦ .ret h⟩
  | writeOutgoing =>
    exact ⟨rfl, ((quiet _).modify same_takeOutgoing).andThen fun _ ↦ .ret rfl⟩

variable [DecidableEq κ] {c c' : Tasks (Actor κ)}

/-- As long as a message that contradicts the subscriptions is sent only while a task is bound
to send the opposite one, an established peer is left with exactly the subscriptions. -/
theorem asked_eq_subscriptions (hbegins : (subscriptions p).Begins c)
    (hrun : Run (fun d d' ↦ Pool.Step (Work p) d d' ∧ p.HasRoom d.shared ∧
      (subscriptions p).Timely d d') c c')
    (hidle : ∀ i, c'.Idle i) (hestablished : (p.cellOf c'.shared).state = .established) :
    replay ∅ (asked p c'.shared) = c'.shared.world.mb.mySubscriptions :=
  Telling.told_eq_truth plays hbegins hrun hidle hestablished

def Unwritten (p : Peer) (i : Actor κ) (o : Option InternalUpdate) (t : Code (Except Error Unit)) :
    Prop := Work p i o t ∧ i ≠ .writer

omit [DecidableEq κ] in
theorem Unwritten.fills {i : Actor κ} {o : Option InternalUpdate} {t : Code (Except Error Unit)}
    (h : Unwritten p i o t) : Confined (Fills p) t := by
  obtain ⟨hwork, hi⟩ := h
  cases hwork with
  | subscribe k ord vni => exact fills_subscribe ord vni
  | unsubscribe k ord vni => exact fills_unsubscribe ord vni
  | establish ord => exact .bind ((acts_fills p).composes.setState ord .established) fun _ ↦ .ret _
  | writeOutgoing => exact absurd rfl hi

theorem run_unwritten (hidle : ∀ i, c.Idle i) (hrun : Run (Pool.Step (Unwritten p)) c c')
    (hroom : p.HasRoom c'.shared) :
    Run (fun d d' ↦ Pool.Step (Work p) d d' ∧ p.HasRoom d.shared) c c' := by
  have hcode : ∀ i, Confined (Fills p) (c.code i) := by
    intro i
    obtain ⟨a, ha⟩ := hidle i
    rw [ha]
    trivial
  have hfills := Pool.run_confined hrun hcode (fun _ _ _ ↦ Unwritten.fills) fun _ _ ↦ fills_of_tx rfl
  exact (run_hasRoom Pool.shared hfills hroom).mono fun _ _ h ↦
    ⟨h.1.mono fun _ _ _ hstart ↦ hstart.1, h.2⟩

def server : Peer := Sample.peer 1 .outgoing

def linkedNode (vnis : Finset Vni) : Node :=
  let s := Sample.node false
  { s with world := { s.world with mb := { s.world.mb with
      peers := s.world.mb.peers.insert server.remoteAddr server
      mySubscriptions := vnis } } }

theorem linked_linkedNode (vnis : Finset Vni) : server.Linked (linkedNode vnis) where
  known := rfl
  unique addr q h _ := by
    by_contra haddr
    have hnone : (linkedNode vnis).world.mb.peers.lookup addr = none :=
      (Finmap.lookup_insert_of_ne _ haddr).trans (Finmap.lookup_empty addr)
    cases hnone.symm.trans h

theorem begins_linkedNode (vnis : Finset Vni) :
    (subscriptions server).Begins (Sample.tasks (Actor Bool) (linkedNode vnis)) where
  idle := Sample.idle_tasks _
  steady := linked_linkedNode vnis
  closed := nofun
  untold := rfl

theorem peerList_linkedNode (ord : HashOrder) (vnis : Finset Vni) :
    peerList ord (linkedNode vnis).world.mb.peers = [server] := by
  have hkeys : (linkedNode vnis).world.mb.peers.keys = {server.remoteAddr} := rfl
  rw [peerList, hkeys, HashOrder.list_singleton]
  rfl

def establishedNode : Node :=
  server.withCell (linkedNode ∅) { server.cellOf (linkedNode ∅) with state := .established }

theorem exec_establish (ord : HashOrder) : exec [] (do
    server.setState ord .established
    return .ok () : Code (Except Error Unit)) (linkedNode ∅) =
      .done (.ok ()) [] establishedNode := by
  have hnew : (server.cellOf (linkedNode ∅)).state ≠ .established := nofun
  rw [exec_bind, exec_setState_enter ord server _ hnew hnew, entered, if_pos rfl,
    synced_empty rfl rfl]
  rfl

/-- The messages only grow, and the subscriptions stay. -/
structure Steadily (s s' : Node) : Prop where
  fills : Fills server s s'
  subscriptions : s'.world.mb.mySubscriptions = s.world.mb.mySubscriptions

instance : Std.Refl Steadily := ⟨fun s ↦ ⟨Std.Refl.refl s, rfl⟩⟩

instance : IsTrans Node Steadily :=
  ⟨fun _ _ _ h h' ↦ ⟨IsTrans.trans _ _ _ h.fills h'.fills, h'.subscriptions.trans h.subscriptions⟩⟩

theorem Steadily.asked {s s' : Node} (h : Steadily s s') : asked server s <+: asked server s' := by
  obtain ⟨msgs, hmsgs⟩ := h.fills
  refine ⟨msgs.filterMap subscriptionChange, ?_⟩
  simp only [WireAgreement.asked, hmsgs, Channel.history_pushAll, List.filterMap_append]

theorem acts_steadily : server.Acts Steadily where
  refl := inferInstance
  sent s msg := ⟨fills_sent server s msg, rfl⟩
  cell s _ hf := ⟨fills_modifyCell server s hf, rfl⟩
  send s u := ⟨(acts_fills server).send s u, rfl⟩
  update s action vni dest nh := by
    refine ⟨(acts_fills server).update s action vni dest nh, ?_⟩
    rw [(tableOnly_applyUpdate s action vni dest nh (some server.remoteAddr)).mb_eq]
  removeRoutes s ord := ⟨(acts_fills server).removeRoutes s ord, rfl⟩
  subscribe s vni := ⟨(acts_fills server).subscribe s vni, rfl⟩
  unsubscribe s vni :=
    ⟨(acts_fills server).unsubscribe s vni, by rw [mb_removeSubscriber]⟩
  forget s vnis := ⟨(acts_fills server).forget s vnis, rfl⟩

theorem steadily_establish (ord : HashOrder) : Confined Steadily
    (do server.setState ord .established; return .ok () : Code (Except Error Unit)) :=
  .bind (acts_steadily.composes.setState ord .established) fun _ ↦ .ret _

/-- The client has one peer, which is established, and this many messages wait for it. -/
structure Ready (n : ℕ) (s : Node) : Prop where
  client : s.world.mb.isServer = false
  peers : s.world.mb.peers = (linkedNode ∅).world.mb.peers
  connected : (server.cellOf s).tx.closed = false
  queued : (server.cellOf s).tx.queue.length = n
  up : (server.cellOf s).state = .established

theorem Ready.hasRoom {n : ℕ} {s : Node} (h : Ready n s) (hn : n < peerTxBufferSize) :
    server.HasRoom s := ⟨h.connected, h.queued.trans_lt hn⟩

theorem exec_establish_subscribed (ord : HashOrder) : ∃ s, exec [] (do
    server.setState ord .established
    return .ok () : Code (Except Error Unit)) (linkedNode {100}) = .done (.ok ()) [] s ∧
      asked server s = [.add 100] ∧ Ready 1 s ∧ s.world.mb.mySubscriptions = {100} := by
  let s := linkedNode {100}
  let c := { server.cellOf s with state := .established }
  obtain ⟨tx, hsynced, htx⟩ := @InitialSync.synced_of_room ord s c rfl (by decide)
  have hsubs : ord.list s.world.mb.mySubscriptions = [100] := ord.list_singleton 100
  have hanns : announcementList ord s.world.mb.myAnnouncements.getLocalAnnouncements = [] := by
    simp [s, linkedNode, Sample.node, MetalBondState.new, announcementList,
      RouteTable.getLocalAnnouncements, RouteTable.new]
  rw [hsubs, hanns] at htx
  have hnew : (server.cellOf s).state ≠ .established := by
    intro hestablished
    cases hestablished
  refine ⟨server.withCell s { c with tx := tx }, ?_, ?_, ?_, rfl⟩
  · rw [exec_bind, exec_setState_enter ord server s hnew hnew, entered, if_pos rfl, hsynced]
    rfl
  · rw [asked, cellOf_withCell]
    simp only [htx]
    rfl
  · have htx' : (server.cellOf (server.withCell s { c with tx := tx })).tx.toChannel =
        c.tx.push (.subscribe ⟨100⟩) := by
      rw [cellOf_withCell]
      exact htx
    refine ⟨rfl, rfl, ?_, ?_, ?_⟩
    · rw [htx']
      rfl
    · rw [htx']
      rfl
    · rw [cellOf_withCell]

/-- The peer was sent a message, and the OS routes of the VNI are cleared. -/
def messaged (msg : GeneratedMessage) (vni : Vni) (s : Node) : Node :=
  let s := server.sent s msg
  { s with world := { s.world with client := (s.world.client.call (.clearRoutesForVni vni)).2 } }

theorem resubscribed_eq_messaged (ord : HashOrder) (s : Node)
    (hpeers : peerList ord s.world.mb.peers = [server])
    (hup : (server.cellOf s).state = .established) (msg : GeneratedMessage) (vni : Vni) :
    resubscribed msg ord vni s = messaged msg vni s := by
  rw [resubscribed, hpeers, List.foldl_cons, List.foldl_nil, notified, if_pos hup, messaged]

theorem Ready.changed {n : ℕ} {s : Node} (h : Ready n s) (f : Finset Vni → Finset Vni) :
    Ready n (withSubscriptions s f) := ⟨h.client, h.peers, h.connected, h.queued, h.up⟩

theorem Ready.messaged {n : ℕ} {s : Node} (h : Ready n s) (hn : n < peerTxBufferSize)
    (msg : GeneratedMessage) (vni : Vni) : Ready (n + 1) (messaged msg vni s) := by
  have hroom := h.hasRoom hn
  obtain ⟨tx, hsend, htx⟩ := PeerCell.trySend_of_room hroom.connected hroom.room msg
  have hcell : server.cellOf (WireAgreement.messaged msg vni s) =
      { server.cellOf s with tx := tx } := by
    have hsent : server.cellOf (server.sent s msg) = { server.cellOf s with tx := tx } := by
      rw [sent, cellOf_withCell, hsend]
    exact hsent
  refine ⟨h.client, h.peers, ?_, ?_, ?_⟩
  · rw [hcell]
    simp only [htx, Channel.push, h.connected]
  · rw [hcell]
    simp only [htx, Channel.push, List.length_append, h.queued, List.length_singleton]
  · rw [hcell, h.up]

/-- In these runs each message says how the subscriptions are. -/
def TimelyStep (d d' : Tasks (Actor Bool)) : Prop :=
  Pool.Step (Work server) d d' ∧ server.HasRoom d.shared ∧ (subscriptions server).Timely d d'

theorem timely_of_cell {d d' : Tasks (Actor Bool)} (hstep : Pool.Step (Work server) d d')
    (hroom : server.HasRoom d.shared)
    (hcell : d'.shared.world.cell = d.shared.world.cell) : TimelyStep d d' := by
  refine ⟨hstep, hroom, fun e htells _ ↦ ?_⟩
  have hlog : asked server d'.shared = asked server d.shared ++ [e] := htells
  have hsame : asked server d'.shared = asked server d.shared := by rw [asked, cellOf, hcell]; rfl
  rw [hsame] at hlog
  exact absurd hlog (by simp)

theorem timely_of_cells {d d' : Tasks (Actor Bool)} (hroom : server.HasRoom d.shared)
    (hrun : Run (fun d d' ↦ Pool.Step (Work server) d d' ∧
      d'.shared.world.cell = d.shared.world.cell) d d') : Run TimelyStep d d' := by
  let Kept (x : Tasks (Actor Bool)) : Prop := x.shared.world.cell = d.shared.world.cell
  have hkept : Kept d := rfl
  refine (Run.along hrun hkept fun x y hx hstep ↦ hstep.2.trans hx).mono fun x y h ↦ ?_
  refine timely_of_cell h.1.1 ?_ h.1.2
  have hcell : server.cellOf x.shared = server.cellOf d.shared := congrFun h.2 server.id
  exact ⟨by rw [hcell, hroom.connected], by rw [hcell]; exact hroom.room⟩

theorem timely_of_steadily {d d' : Tasks (Actor Bool)}
    (hrun : Run (fun d d' ↦ Pool.Step (Work server) d d' ∧ Steadily d.shared d'.shared) d d')
    (hroom : server.HasRoom d'.shared) {e : Change Vni}
    (hasked : asked server d'.shared = asked server d.shared ++ [e])
    (hholds : e.Holds (d'.shared.world.mb.mySubscriptions : Set Vni)) : Run TimelyStep d d' := by
  let Since (x : Tasks (Actor Bool)) : Prop := Steadily d.shared x.shared
  have hsince : Since d := Std.Refl.refl d.shared
  have hfrom := Run.along hrun hsince fun x y hx hstep ↦ IsTrans.trans _ _ _ hx hstep.2
  have hboth := Run.toward Pool.shared (Run.mono hfrom fun x y h ↦
    (⟨⟨h.1.1, h.2⟩, h.1.2⟩ : (Pool.Step (Work server) x y ∧ Since x) ∧ Steadily x.shared y.shared))
  refine hboth.mono fun x y h ↦ ?_
  obtain ⟨⟨hstep, hx⟩, hbefore, hafter⟩ := h
  refine ⟨hstep, hbefore.fills.hasRoom hroom, fun e' htells hcurrent ↦ ?_⟩
  -- only one message is told on the way, and this is it
  have hlog : asked server y.shared = asked server x.shared ++ [e'] := htells
  obtain ⟨told, htold⟩ := hx.asked
  obtain ⟨rest, hrest⟩ := hafter.asked
  rw [hlog, ← htold, hasked, List.append_assoc, List.append_assoc] at hrest
  have hlast := List.append_cancel_left hrest
  have hlengths := congrArg List.length hlast
  obtain rfl : told = [] := by
    rw [← List.length_eq_zero_iff]
    simp only [List.length_append, List.length_cons, List.length_nil] at hlengths
    omega
  have hsame : e' = e := (List.cons.inj hlast).1
  rw [hsame, Telling.Current, Change.holds_inverse] at hcurrent
  rw [hbefore.subscriptions] at hholds
  exact absurd hholds hcurrent

/-- A call that has changed the subscriptions tells the peer. -/
theorem run_telling {c : Tasks (Actor Bool)} {k : Bool} (msg : GeneratedMessage) {e : Change Vni}
    {vni : Vni} {n : ℕ} {s : Node} (hheld : ∀ i, c.held i = []) (hready : Ready n s)
    (hn : n + 1 < peerTxBufferSize) (hmsg : subscriptionChange msg = some e)
    (hholds : e.Holds (s.world.mb.mySubscriptions : Set Vni)) :
    ∃ r, Run TimelyStep (c.set (.caller k) ⟨[], announceSubscription vni (·.sendMessage msg)
      (peerList default s.world.mb.peers)⟩ s)
      (c.set (.caller k) ⟨[], .ret r⟩ (messaged msg vni s)) := by
  have hsteadily : Confined Steadily (announceSubscription vni (·.sendMessage msg)
      (peerList default s.world.mb.peers)) :=
    confined_announceSubscription (fun _ _ ↦ ⟨fills_of_tx rfl, rfl⟩) vni
      (fun q ↦ .update fun s ↦ ⟨fills_sent q s msg, rfl⟩) _
  have hpeers : peerList default s.world.mb.peers = [server] := by
    rw [hready.peers]
    exact peerList_linkedNode default ∅
  have hexec := exec_announceSubscription msg s default vni
  rw [resubscribed_eq_messaged default s hpeers hready.up] at hexec
  have hrun := @Pool.run_bind_within _ _ _ _ _ _ _ (Work server) c (.caller k) [] [] s _
    _ Steadily _ _ .ret _ (fun j _ ↦ hheld j) hsteadily hexec
  rw [Task.bind_ret] at hrun
  have hroom := hready.hasRoom (n.lt_succ_self.trans hn)
  refine ⟨_, timely_of_steadily hrun ((hready.messaged (n.lt_succ_self.trans hn) msg vni).hasRoom hn)
    ?_ hholds⟩
  rw [Pool.shared_set, Pool.shared_set]
  exact HasRoom.asked_sent hroom hmsg

variable {c : Tasks (Actor Bool)} {k : Bool} {vni : Vni} {n : ℕ}

theorem run_unsubscribed (hheld : ∀ i, c.held i = []) (hidle : c.Idle (.caller k))
    (hready : Ready n c.shared) (hn : n + 1 < peerTxBufferSize)
    (hknown : vni ∈ c.shared.world.mb.mySubscriptions) :
    ∃ r, Run TimelyStep c (c.set (.caller k) ⟨[], .ret r⟩
      (messaged (.unsubscribe ⟨vni⟩) vni (withSubscriptions c.shared (·.erase vni)))) := by
  have hroom := hready.hasRoom (n.lt_succ_self.trans hn)
  have hchange := run_unsubscribing hheld hidle (Work.unsubscribe (p := server) k default vni)
    hready.client hknown
  obtain ⟨r, htell⟩ := run_telling (c := c) (k := k) (.unsubscribe ⟨vni⟩) hheld
    (hready.changed (·.erase vni)) hn rfl (Finset.notMem_erase vni _)
  exact ⟨r, (timely_of_cells hroom hchange).trans htell⟩

theorem run_subscribed (hheld : ∀ i, c.held i = []) (hidle : c.Idle (.caller k))
    (hready : Ready n c.shared) (hn : n + 1 < peerTxBufferSize)
    (hnew : vni ∉ c.shared.world.mb.mySubscriptions) :
    ∃ r, Run TimelyStep c (c.set (.caller k) ⟨[], .ret r⟩
      (messaged (.subscribe ⟨vni⟩) vni (withSubscriptions c.shared (insert vni)))) := by
  have hroom := hready.hasRoom (n.lt_succ_self.trans hn)
  have hchange := run_subscribing hheld hidle (Work.subscribe (p := server) k default vni)
    hready.client hnew
  obtain ⟨r, htell⟩ := run_telling (c := c) (k := k) (.subscribe ⟨vni⟩) hheld
    (hready.changed (insert vni)) hn rfl (Finset.mem_insert_self vni _)
  exact ⟨r, (timely_of_cells hroom hchange).trans htell⟩

/-- The peer is established with one subscription to tell of; then the client leaves that VNI and
enters another one. -/
theorem asked_eq_subscriptions_sample : ∃ s : Node, s.world.mb.mySubscriptions = {200} ∧
    asked server s = [.add 100, .remove 100, .add 200] ∧
      replay ∅ (asked server s) = s.world.mb.mySubscriptions := by
  obtain ⟨s₁, hexec, hasked₁, hready₁, hsubs₁⟩ := exec_establish_subscribed default
  let c := Sample.tasks (Actor Bool) (linkedNode {100})
  let c₁ := c.set .link ⟨[], .ret (.ok ())⟩ s₁
  have hrun₁ : Run TimelyStep c c₁ := by
    refine timely_of_steadily (e := .add 100) ?_ (hready₁.hasRoom (by decide)) hasked₁ ?_
    · exact Pool.run_start (fun _ ↦ rfl) (Sample.idle_tasks ..) (.establish default)
        (steadily_establish default) hexec
    · rw [Pool.shared_set, hsubs₁]
      exact Finset.mem_singleton_self _
  have hheld₁ : ∀ i, c₁.held i = [] := Pool.unguarded_set (fun _ ↦ rfl) _ _ _
  let s₂ := messaged (.unsubscribe ⟨100⟩) 100 (withSubscriptions s₁ (·.erase 100))
  have hknown : (100 : Vni) ∈ s₁.world.mb.mySubscriptions := by
    rw [hsubs₁]
    exact Finset.mem_singleton_self _
  obtain ⟨r₂, hrun₂⟩ := run_unsubscribed (k := false) hheld₁ ⟨_, rfl⟩ hready₁ (by decide) hknown
  let c₂ := c₁.set (.caller false) ⟨[], .ret r₂⟩ s₂
  have hheld₂ : ∀ i, c₂.held i = [] := Pool.unguarded_set hheld₁ _ _ _
  have hleft₁ : Ready 1 (withSubscriptions s₁ (·.erase 100)) := hready₁.changed _
  have hready₂ : Ready 2 s₂ := hleft₁.messaged (by decide) _ _
  have hsubs₂ : s₂.world.mb.mySubscriptions = ∅ := by
    change s₁.world.mb.mySubscriptions.erase 100 = ∅
    rw [hsubs₁]
    decide
  have hasked₂ : asked server s₂ = [.add 100, .remove 100] := by
    have hsent := HasRoom.asked_sent (hleft₁.hasRoom (by decide))
      (show subscriptionChange (.unsubscribe ⟨100⟩) = some (.remove 100) from rfl)
    exact hsent.trans (congrArg (· ++ [Change.remove 100]) hasked₁)
  have hnew : (200 : Vni) ∉ s₂.world.mb.mySubscriptions := by
    rw [hsubs₂]
    exact Finset.notMem_empty _
  let s₃ := messaged (.subscribe ⟨200⟩) 200 (withSubscriptions s₂ (insert 200))
  obtain ⟨r₃, hrun₃⟩ := run_subscribed (k := true) hheld₂ ⟨_, rfl⟩ hready₂ (by decide) hnew
  let c₃ := c₂.set (.caller true) ⟨[], .ret r₃⟩ s₃
  have hleft₂ : Ready 2 (withSubscriptions s₂ (insert 200)) := hready₂.changed _
  have hsubs₃ : s₃.world.mb.mySubscriptions = {200} := by
    change insert 200 s₂.world.mb.mySubscriptions = {200}
    rw [hsubs₂]
    rfl
  have hasked₃ : asked server s₃ = [.add 100, .remove 100, .add 200] := by
    have hsent := HasRoom.asked_sent (hleft₂.hasRoom (by decide))
      (show subscriptionChange (.subscribe ⟨200⟩) = some (.add 200) from rfl)
    exact hsent.trans (congrArg (· ++ [Change.add 200]) hasked₂)
  have hidle : ∀ i, c₃.Idle i := by
    rintro ((_ | _) | _ | _) <;> exact ⟨_, rfl⟩
  have hup : (server.cellOf c₃.shared).state = .established :=
    (hleft₂.messaged (by decide) (.subscribe ⟨200⟩) 200).up
  have hrun : Run TimelyStep c c₃ := hrun₁.trans (hrun₂.trans hrun₃)
  exact ⟨s₃, hsubs₃, hasked₃,
    asked_eq_subscriptions (begins_linkedNode {100}) hrun hidle hup⟩

/-- Between a change of the subscriptions and its message, an opposite change is made and told. -/
theorem late_subscribe_sent : ¬ ∀ c c' : Tasks (Actor Bool), (subscriptions server).Begins c →
    Run (fun d d' ↦ Pool.Step (Work server) d d' ∧ server.HasRoom d.shared) c c' →
      (∀ i, c'.Idle i) → (server.cellOf c'.shared).state = .established →
        replay ∅ (asked server c'.shared) = c'.shared.world.mb.mySubscriptions := by
  intro hevery
  let c := Sample.tasks (Actor Bool) (linkedNode ∅)
  let c₁ := c.set .link ⟨[], .ret (.ok ())⟩ establishedNode
  have hrun₁ : Run (Pool.Step (Unwritten server)) c c₁ :=
    Pool.run_whole (fun _ ↦ rfl) (Sample.idle_tasks ..) ⟨.establish default, nofun⟩
      (exec_establish default)
  have hheld₁ : ∀ i, c₁.held i = [] := Pool.unguarded_set (fun _ ↦ rfl) _ _ _
  let s₂ := withSubscriptions establishedNode (insert 100)
  let telling := announceSubscription 100 (·.sendSubscribe 100)
    (peerList default establishedNode.world.mb.peers)
  let c₂ := c₁.set (.caller true) ⟨[], telling⟩ s₂
  have hrun₂ : Run (Pool.Step (Unwritten server)) c₁ c₂ :=
    (run_subscribing hheld₁ ⟨_, rfl⟩ ⟨.subscribe true default 100, nofun⟩ rfl
      (Finset.notMem_empty _)).mono fun _ _ h ↦ h.1
  have hheld₂ : ∀ i, c₂.held i = [] := Pool.unguarded_set hheld₁ _ _ _
  have hpeers : peerList default establishedNode.world.mb.peers = [server] :=
    peerList_linkedNode default ∅
  let s₃ := messaged (.unsubscribe ⟨100⟩) 100 (withSubscriptions s₂ (·.erase 100))
  let c₃ := c₂.set (.caller false) ⟨[], .ret (.ok ())⟩ s₃
  have hrun₃ : Run (Pool.Step (Unwritten server)) c₂ c₃ := by
    have hknown : 100 ∈ c₂.shared.world.mb.mySubscriptions := Finset.mem_insert_self ..
    have hmsg : resubscribed (.unsubscribe ⟨100⟩) default 100 (withSubscriptions s₂ (·.erase 100)) =
        s₃ := resubscribed_eq_messaged default _ hpeers rfl _ _
    have hexec := exec_unsubscribe_known default (s := s₂) rfl hknown
    rw [hmsg] at hexec
    exact Pool.run_whole hheld₂ ⟨_, rfl⟩ ⟨.unsubscribe false default 100, nofun⟩ hexec
  have hheld₃ : ∀ i, c₃.held i = [] := Pool.unguarded_set hheld₂ _ _ _
  let s₄ := messaged (.subscribe ⟨100⟩) 100 s₃
  let c₄ := c₃.set (.caller true) ⟨[], .ret (.ok ())⟩ s₄
  have hrun₄ : Run (Pool.Step (Unwritten server)) c₃ c₄ := by
    have htell : exec (c₃.held (.caller true)) telling c₃.shared = .done (.ok ()) [] s₄ := by
      have hmsg : resubscribed (.subscribe ⟨100⟩) default 100 s₃ = s₄ :=
        resubscribed_eq_messaged default s₃ hpeers rfl _ _
      have hexec := exec_announceSubscription (.subscribe ⟨100⟩) s₃ default 100
      rw [hmsg, (queuesOnly_foldl (queuesOnly_notified _) _ _).client] at hexec
      rw [hheld₃]
      exact hexec
    exact Pool.run_rest (fun j _ ↦ hheld₃ j) htell
  have hrun := hrun₁.trans (hrun₂.trans (hrun₃.trans hrun₄))
  have hidle : ∀ i, c₄.Idle i := by
    rintro (k | _ | _)
    · cases k <;> exact ⟨_, rfl⟩
    · exact ⟨_, rfl⟩
    · exact ⟨_, rfl⟩
  have hroom : server.HasRoom c₄.shared := ⟨rfl, by decide⟩
  have heq := hevery c c₄ (begins_linkedNode ∅)
    (run_unwritten (Sample.idle_tasks _) hrun hroom) hidle rfl
  have hasked : (100 : Vni) ∈ replay ∅ (asked server c₄.shared) := Set.mem_insert ..
  rw [heq] at hasked
  exact Finset.notMem_erase (100 : Vni) (insert 100 ∅) hasked

end MetalBond.WireAgreement
