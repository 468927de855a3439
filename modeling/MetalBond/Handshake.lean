import MetalBond.Async.Run
import MetalBond.RoundExec

namespace MetalBond.Handshake

open Async Task Collections HashMap Peer Connection

def isGreeting : GeneratedMessage → Bool
  | .hello _ | .keepalive => true
  | _ => false

def helloInterval (self : Peer) : UInt32 := self.config.keepaliveInterval.asSecs.toUInt32

/-- One side of the handshake: whether its task has started, its state, and the messages on
their way to it and from it. -/
structure View where
  started : Bool
  state : ConnectionState
  incoming : List GeneratedMessage
  outgoing : List GeneratedMessage

/-- The steps of one side until it receives a keepalive. -/
inductive Effect (self : Peer) (v : View) : View → Prop
  | greet (isServer : Bool) : self.direction = .outgoing → v.started = false →
    Effect self v { v with
      started := true
      state := .helloSent
      outgoing := v.outgoing ++ [.hello ⟨helloInterval self, isServer⟩] }
  | listen : self.direction = .incoming → v.started = false →
    Effect self v { v with started := true }
  | answer (hello : Pb.Hello) (rest : List GeneratedMessage) : self.direction = .incoming →
    v.started = true → v.incoming = .hello hello :: rest → hello.keepaliveInterval ≠ 0 →
    v.state = .connecting ∨ v.state = .helloReceived →
    Effect self v ⟨true, .helloSent, rest,
      v.outgoing ++ [.hello ⟨helloInterval self, true⟩]⟩
  | greeted (hello : Pb.Hello) (rest : List GeneratedMessage) : self.direction = .outgoing →
    v.started = true → v.incoming = .hello hello :: rest → hello.keepaliveInterval ≠ 0 →
    v.state = .helloSent → Effect self v ⟨true, .helloReceived, rest, v.outgoing⟩
  | ignore (hello : Pb.Hello) (rest : List GeneratedMessage) : v.started = true →
    v.incoming = .hello hello :: rest → hello.keepaliveInterval ≠ 0 →
    ¬ (self.direction = .incoming ∧ (v.state = .connecting ∨ v.state = .helloReceived)) →
    ¬ (self.direction = .outgoing ∧ v.state = .helloSent) →
    Effect self v { v with incoming := rest }
  | process (msg : GeneratedMessage) (rest sent : List GeneratedMessage) : v.started = true →
    v.incoming = msg :: rest → isGreeting msg = false → (∀ m ∈ sent, isGreeting m = false) →
    Effect self v { v with incoming := rest, outgoing := v.outgoing ++ sent }
  | send (sent : List GeneratedMessage) : (∀ m ∈ sent, isGreeting m = false) →
    Effect self v { v with outgoing := v.outgoing ++ sent }

section Stages

variable {client server : Peer}

/-- How far the handshake has come: nobody has greeted, the client has, or both have. -/
inductive Stage (client : Peer) (a b : View) : Prop
  | silent : a.started = false → a.state = .connecting → b.state = .connecting →
    (∀ h, .hello h ∉ a.outgoing) → (∀ h, .hello h ∉ b.outgoing) → Stage client a b
  | greeting (h : Pb.Hello) : a.started = true → a.state = .helloSent → b.state = .connecting →
    .hello h ∈ a.outgoing → (∀ h, .hello h ∉ b.outgoing) → Stage client a b
  | answering (h : Pb.Hello) : helloInterval client ≠ 0 → a.started = true →
    a.state = .helloSent → b.state = .helloSent → .hello h ∈ b.outgoing → Stage client a b

/-- The two sides when one of them cannot accept the other's greeting. -/
structure Pending (client server : Peer) (a b : View) : Prop where
  towardsServer : b.incoming = a.outgoing
  towardsClient : a.incoming = b.outgoing
  noKeepalive : .keepalive ∉ a.outgoing ∧ .keepalive ∉ b.outgoing
  fromClient : ∀ h, .hello h ∈ a.outgoing → h.keepaliveInterval = helloInterval client
  fromServer : ∀ h, .hello h ∈ b.outgoing → h.keepaliveInterval = helloInterval server
  stage : Stage client a b

theorem mem_append_of_greeting {m : GeneratedMessage} {l sent : List GeneratedMessage}
    (hm : isGreeting m = true) (hsent : ∀ m ∈ sent, isGreeting m = false) :
    m ∈ l ++ sent ↔ m ∈ l := by
  rw [List.mem_append, or_iff_left]
  intro hmem
  rw [hsent m hmem] at hm
  cases hm

theorem mem_cons_of_greeting {m msg : GeneratedMessage} {rest : List GeneratedMessage}
    (hm : isGreeting m = true) (hmsg : isGreeting msg = false) : m ∈ msg :: rest ↔ m ∈ rest := by
  rw [List.mem_cons, or_iff_right]
  rintro rfl
  rw [hmsg] at hm
  cases hm

theorem Pending.congr {a b a' b' : View} (h : Pending client server a b)
    (hserver : b'.incoming = a'.outgoing) (hclient : a'.incoming = b'.outgoing)
    (hstarted : a'.started = a.started) (ha : a'.state = a.state) (hb : b'.state = b.state)
    (hout : ∀ m, isGreeting m = true → (m ∈ a'.outgoing ↔ m ∈ a.outgoing))
    (hin : ∀ m, isGreeting m = true → (m ∈ b'.outgoing ↔ m ∈ b.outgoing)) :
    Pending client server a' b' where
  towardsServer := hserver
  towardsClient := hclient
  noKeepalive := by rw [hout _ rfl, hin _ rfl]; exact h.noKeepalive
  fromClient g := by rw [hout _ rfl]; exact h.fromClient g
  fromServer g := by rw [hin _ rfl]; exact h.fromServer g
  stage := by
    cases h.stage with
    | silent h₁ h₂ h₃ h₄ h₅ =>
      refine .silent (hstarted.trans h₁) (ha.trans h₂) (hb.trans h₃) (fun g ↦ ?_) fun g ↦ ?_
      · rw [hout _ rfl]; exact h₄ g
      · rw [hin _ rfl]; exact h₅ g
    | greeting g h₁ h₂ h₃ h₄ h₅ =>
      refine .greeting g (hstarted.trans h₁) (ha.trans h₂) (hb.trans h₃) ?_ fun g ↦ ?_
      · rw [hout _ rfl]; exact h₄
      · rw [hin _ rfl]; exact h₅ g
    | answering g h₁ h₂ h₃ h₄ h₅ =>
      refine .answering g h₁ (hstarted.trans h₂) (ha.trans h₃) (hb.trans h₄) ?_
      rw [hin _ rfl]; exact h₅

variable {a b : View} (hzero : helloInterval client = 0 ∨ helloInterval server = 0)

include hzero

theorem Pending.clientStep {a' : View} (h : Pending client server a b)
    (hdir : client.direction = .outgoing) (heffect : Effect client a a') :
    Pending client server a' { b with incoming := a'.outgoing, outgoing := a'.incoming } := by
  have hreject {hello : Pb.Hello} {rest : List GeneratedMessage}
      (hin : a.incoming = .hello hello :: rest) (hne : hello.keepaliveInterval ≠ 0) : False := by
    have hmem : .hello hello ∈ b.outgoing := by rw [← h.towardsClient, hin]; exact List.mem_cons_self
    cases h.stage with
    | silent _ _ _ _ h₅ => exact h₅ hello hmem
    | greeting _ _ _ _ _ h₅ => exact h₅ hello hmem
    | answering _ h₁ _ _ _ _ =>
      rw [h.fromServer hello hmem] at hne
      exact hzero.elim h₁ hne
  have hb := h.towardsClient
  cases heffect with
  | greet isServer _ hstarted =>
    cases h.stage with
    | silent _ _ h₃ h₄ h₅ =>
      refine ⟨rfl, rfl, ⟨?_, hb ▸ h.noKeepalive.2⟩, fun g hg ↦ ?_, fun g hg ↦ ?_, ?_⟩
      · simpa using h.noKeepalive.1
      · simp only [List.mem_append, List.mem_singleton, GeneratedMessage.hello.injEq] at hg
        rcases hg with hg | rfl
        · exact absurd hg (h₄ g)
        · rfl
      · exact absurd (hb ▸ hg) (h₅ g)
      · exact .greeting ⟨helloInterval client, isServer⟩ rfl rfl h₃ (by simp)
          fun g hg ↦ h₅ g (hb ▸ hg)
    | greeting _ h₁ _ _ _ _ => rw [hstarted] at h₁; cases h₁
    | answering _ _ h₁ _ _ _ => rw [hstarted] at h₁; cases h₁
  | listen hin _ => rw [hdir] at hin; cases hin
  | answer hello rest hin => rw [hdir] at hin; cases hin
  | greeted hello rest _ _ hin hne _ => exact (hreject hin hne).elim
  | ignore hello rest _ hin hne _ _ => exact (hreject hin hne).elim
  | process msg rest sent _ hin hmsg hsent =>
    refine h.congr rfl rfl rfl rfl rfl (fun m hm ↦ mem_append_of_greeting hm hsent) fun m hm ↦ ?_
    rw [← hb, hin, mem_cons_of_greeting hm hmsg]
  | send sent hsent =>
    refine h.congr rfl rfl rfl rfl rfl (fun m hm ↦ mem_append_of_greeting hm hsent) fun m hm ↦ ?_
    rw [← hb]

omit hzero in
theorem Pending.serverStep {b' : View} (h : Pending client server a b)
    (hdir : server.direction = .incoming) (heffect : Effect server b b') :
    Pending client server { a with incoming := b'.outgoing, outgoing := b'.incoming } b' := by
  have ha := h.towardsServer
  cases heffect with
  | greet isServer hout => rw [hdir] at hout; cases hout
  | listen _ _ =>
    exact h.congr rfl rfl rfl rfl rfl (fun m _ ↦ by rw [← ha]) fun m _ ↦ Iff.rfl
  | answer hello rest _ _ hin hne hstate =>
    have hout : a.outgoing = .hello hello :: rest := ha ▸ hin
    have hmem : .hello hello ∈ a.outgoing := by rw [hout]; exact List.mem_cons_self
    have hrest {m : GeneratedMessage} (hm : m ∈ rest) : m ∈ a.outgoing := by
      rw [hout]; exact List.mem_cons_of_mem _ hm
    cases h.stage with
    | silent _ _ _ h₄ _ => exact absurd hmem (h₄ hello)
    | greeting _ h₁ h₂ _ _ h₅ =>
      refine ⟨rfl, rfl, ⟨fun hm ↦ h.noKeepalive.1 (hrest hm), ?_⟩,
        fun g hg ↦ h.fromClient g (hrest hg), fun g hg ↦ ?_, ?_⟩
      · simpa using h.noKeepalive.2
      · simp only [List.mem_append, List.mem_singleton, GeneratedMessage.hello.injEq] at hg
        rcases hg with hg | rfl
        · exact absurd hg (h₅ g)
        · rfl
      · rw [h.fromClient hello hmem] at hne
        exact .answering ⟨helloInterval server, true⟩ hne h₁ h₂ rfl (by simp)
    | answering _ _ _ _ h₄ _ => rw [h₄] at hstate; simp at hstate
  | greeted hello rest hout => rw [hdir] at hout; cases hout
  | ignore hello rest _ hin hne hnot _ =>
    have hout : a.outgoing = .hello hello :: rest := ha ▸ hin
    have hmem : .hello hello ∈ a.outgoing := by rw [hout]; exact List.mem_cons_self
    have hrest {m : GeneratedMessage} (hm : m ∈ rest) : m ∈ a.outgoing := by
      rw [hout]; exact List.mem_cons_of_mem _ hm
    cases h.stage with
    | silent _ _ _ h₄ _ => exact absurd hmem (h₄ hello)
    | greeting _ _ _ h₃ _ _ => exact absurd ⟨hdir, Or.inl h₃⟩ hnot
    | answering g h₁ h₂ h₃ h₄ h₅ =>
      exact ⟨rfl, rfl, ⟨fun hm ↦ h.noKeepalive.1 (hrest hm), h.noKeepalive.2⟩,
        fun g hg ↦ h.fromClient g (hrest hg), h.fromServer, .answering g h₁ h₂ h₃ h₄ h₅⟩
  | process msg rest sent _ hin hmsg hsent =>
    refine h.congr rfl rfl rfl rfl rfl (fun m hm ↦ ?_) fun m hm ↦ mem_append_of_greeting hm hsent
    rw [← ha, hin, mem_cons_of_greeting hm hmsg]
  | send sent hsent =>
    refine h.congr rfl rfl rfl rfl rfl (fun m hm ↦ ?_) fun m hm ↦ mem_append_of_greeting hm hsent
    rw [← ha]

end Stages

/-- One side, with the wire towards it and the wire away from it. -/
structure Endpoint where
  connection : Connection
  inbox : List GeneratedMessage
  outbox : List GeneratedMessage

/-- Other tasks of the node change what it subscribes to and announces, and what it has
queued on the connection, but send nothing of a handshake. -/
structure Others (peer : Peer) (s s' : Node) : Prop where
  state : (peer.cellOf s').state = (peer.cellOf s).state
  queue : ∃ sent, (∀ m ∈ sent, isGreeting m = false) ∧
    (peer.cellOf s').tx.queue = (peer.cellOf s).tx.queue ++ sent

section EndStep

variable (ord : HashOrder) (self : Peer)

/-- One side takes a step: its wires lose and duplicate nothing. -/
inductive EndStep : Endpoint → Endpoint → Prop
  | start (s : Node) (inbox outbox : List GeneratedMessage) :
    EndStep ⟨⟨s, .starting⟩, inbox, outbox⟩ ⟨Connection.start ord self s, inbox, outbox⟩
  | receive (s : Node) (t : Timers) (msg : GeneratedMessage)
    (inbox outbox : List GeneratedMessage) (r : Round) : r.won = .frame (.message msg) →
    Ready (self.cellOf s) t r →
    EndStep ⟨⟨s, .running t⟩, msg :: inbox, outbox⟩ ⟨round ord self r t s, inbox, outbox⟩
  | send (s : Node) (t : Timers) (msg : GeneratedMessage)
    (inbox outbox rest : List GeneratedMessage) (r : Round) : r.won = .outgoing true →
    Ready (self.cellOf s) t r → (self.cellOf s).tx.queue = msg :: rest →
    EndStep ⟨⟨s, .running t⟩, inbox, outbox⟩ ⟨round ord self r t s, inbox, outbox ++ [msg]⟩
  | timer (s : Node) (t : Timers) (inbox outbox : List GeneratedMessage) (r : Round) :
    r.won = .tick ∨ r.won = .timeout ∨ r.won = .shutdown → Ready (self.cellOf s) t r →
    EndStep ⟨⟨s, .running t⟩, inbox, outbox⟩ ⟨round ord self r t s, inbox, outbox⟩
  | others (s s' : Node) (phase : Phase) (inbox outbox : List GeneratedMessage) :
    Others self s s' → EndStep ⟨⟨s, phase⟩, inbox, outbox⟩ ⟨⟨s', phase⟩, inbox, outbox⟩

end EndStep

def Endpoint.view (self : Peer) (e : Endpoint) (q : List GeneratedMessage) : View where
  started := decide (e.connection.phase ≠ .starting)
  state := (self.cellOf e.connection.node).state
  incoming := e.inbox ++ q
  outgoing := e.outbox ++ (self.cellOf e.connection.node).tx.queue

structure Waiting (peer : Peer) (c : Connection) : Prop where
  starting : c.phase = .starting → (peer.cellOf c.node).state = .connecting
  running : ∀ t, c.phase = .running t → t = .off
  notEstablished : (peer.cellOf c.node).state ≠ .established

section Refinement

variable {ord : HashOrder} {self : Peer}

theorem onHello_ok {hello : Pb.Hello} {c c' : PeerCell} {u : Unit}
    (h : self.onHello hello c = (.ok u, c')) : hello.keepaliveInterval ≠ 0 ∧
    (self.direction = .incoming ∧ (c.state = .connecting ∨ c.state = .helloReceived) ∧
        c'.state = .helloSent ∧
        c'.tx.queue = c.tx.queue ++ [.hello ⟨helloInterval self, true⟩] ∨
      self.direction = .outgoing ∧ c.state = .helloSent ∧ c'.state = .helloReceived ∧
        c'.tx.queue = c.tx.queue ∨
      ¬ (self.direction = .incoming ∧ (c.state = .connecting ∨ c.state = .helloReceived)) ∧
        ¬ (self.direction = .outgoing ∧ c.state = .helloSent) ∧ c'.state = c.state ∧
        c'.tx.queue = c.tx.queue) := by
  unfold onHello at h
  split at h
  · cases h
  · next hne =>
    refine ⟨hne, ?_⟩
    cases hdir : self.direction with
    | incoming =>
      rw [hdir] at h
      by_cases hst : c.state = .connecting ∨ c.state = .helloReceived
      · simp only [hst, if_true] at h
        split at h
        · cases h
        · next hsend =>
          cases h
          have hqueue := PeerCell.queue_of_trySend hsend
          exact Or.inl ⟨rfl, hst, rfl, hqueue⟩
      · simp only [hst, if_false] at h
        cases h
        exact Or.inr (Or.inr ⟨fun hc ↦ hst hc.2, fun hc ↦ (nomatch hc.1), rfl, rfl⟩)
    | outgoing =>
      rw [hdir] at h
      by_cases hst : c.state = .helloSent
      · simp only [hst, if_true] at h
        cases h
        exact Or.inr (Or.inl ⟨rfl, hst, rfl, rfl⟩)
      · simp only [hst, if_false] at h
        cases h
        exact Or.inr (Or.inr ⟨fun hc ↦ (nomatch hc.1), fun hc ↦ hst hc.2, rfl, rfl⟩)

theorem process_other {msg : GeneratedMessage} {s s' : Node} {r : Except Error Unit}
    (hmsg : isGreeting msg = false)
    (hdone : exec [] (self.process ord msg) s = .done r [] s') :
    (self.cellOf s').state = (self.cellOf s).state ∧
      ∃ sent, (∀ m ∈ sent, isGreeting m = false) ∧
        (self.cellOf s').tx.queue = (self.cellOf s).tx.queue ++ sent := by
  have hsame {s₀ : Node} (h : self.cellOf s' = self.cellOf s₀)
      (hstate : (self.cellOf s₀).state = (self.cellOf s).state)
      (hqueue : (self.cellOf s₀).tx.queue = (self.cellOf s).tx.queue) :
      (self.cellOf s').state = (self.cellOf s).state ∧
        ∃ sent, (∀ m ∈ sent, isGreeting m = false) ∧
          (self.cellOf s').tx.queue = (self.cellOf s).tx.queue ++ sent := by
    rw [h]
    exact ⟨hstate, [], by simp, by rw [hqueue, List.append_nil]⟩
  cases msg with
  | hello hello => cases hmsg
  | keepalive => cases hmsg
  | subscribe sub =>
    have hsub := (exec_processSubscribe ord self s sub).symm.trans hdone
    split at hsub
    · cases hsub
      exact hsame rfl (by rw [cellOf_subscribed]) (by rw [cellOf_subscribed])
    · cases hsub
      obtain ⟨sent, -, hqueue⟩ := PeerCell.queue_sendRoutes
        (self.cellOf (self.subscribed sub.vni s)) (self.snapshotFor ord sub.vni s)
      refine ⟨?_, _, fun m hm ↦ ?_, (congrArg (fun c ↦ c.tx.queue) (cellOf_withCell ..)).trans
        (hqueue.trans (by rw [cellOf_subscribed]))⟩
      · rw [cellOf_withCell, (PeerCell.sameLink_sendRoutes _ _).2.1, cellOf_subscribed]
      · obtain ⟨r, -, rfl⟩ := List.mem_map.mp hm
        rfl
  | unsubscribe unsub =>
    obtain ⟨s'', hrun, hforgets⟩ := exec_processUnsubscribe ord self s unsub
    cases hrun.symm.trans hdone
    exact hsame (congrFun hforgets.1.cell_eq self.id) (by rw [cellOf_unsubscribed])
      (by rw [cellOf_unsubscribed])
  | update msg =>
    obtain ⟨r', s'', hrun, htable, -⟩ := exec_processUpdate self s msg
    cases hrun.symm.trans hdone
    exact hsame (congrFun htable.cell_eq self.id) rfl rfl

theorem view_running (s : Node) (t : Timers) (inbox outbox q : List GeneratedMessage) :
    Endpoint.view self ⟨⟨s, .running t⟩, inbox, outbox⟩ q =
      ⟨true, (self.cellOf s).state, inbox ++ q, outbox ++ (self.cellOf s).tx.queue⟩ := rfl

theorem process_effect {msg : GeneratedMessage} {s s' : Node} {u : Unit}
    (hdone : exec [] (self.process ord msg) s = .done (.ok u) [] s')
    (hest : (self.cellOf s).state ≠ .established) (hkeep : msg ≠ .keepalive) (t t' : Timers)
    (inbox outbox q : List GeneratedMessage) : (self.cellOf s').state ≠ .established ∧
      Effect self (Endpoint.view self ⟨⟨s, .running t⟩, msg :: inbox, outbox⟩ q)
        (Endpoint.view self ⟨⟨s', .running t'⟩, inbox, outbox⟩ q) := by
  rw [view_running, view_running, List.cons_append]
  cases hmsg : isGreeting msg with
  | false =>
    obtain ⟨hstate, sent, hsent, hqueue⟩ := process_other hmsg hdone
    rw [hstate, hqueue, ← List.append_assoc]
    exact ⟨hest, .process msg _ sent rfl rfl hmsg hsent⟩
  | true =>
    cases msg with
    | keepalive => exact absurd rfl hkeep
    | hello hello =>
      have hrun := (exec_processHello ord self s hello).symm.trans hdone
      rcases hon : self.onHello hello (self.cellOf s) with ⟨result, c⟩
      rw [hon] at hrun
      cases hrun
      rw [cellOf_withCell]
      obtain ⟨hne, h⟩ := onHello_ok hon
      rcases h with ⟨hdir, hst, hstate, hqueue⟩ | ⟨hdir, hst, hstate, hqueue⟩ |
        ⟨hin, hout, hstate, hqueue⟩
      · rw [hstate, hqueue, ← List.append_assoc]
        exact ⟨by decide, .answer hello _ hdir rfl rfl hne hst⟩
      · rw [hstate, hqueue]
        exact ⟨by decide, .greeted hello _ hdir rfl rfl hne hst⟩
      · rw [hstate, hqueue]
        exact ⟨hest, .ignore hello _ rfl rfl hne hin hout⟩
    | subscribe sub => cases hmsg
    | unsubscribe unsub => cases hmsg
    | update msg => cases hmsg

def Dead (self : Peer) (c : Connection) : Prop :=
  (self.cellOf c.node).state = .closed ∧ c.phase ≠ .starting

theorem Waiting.of_ne {s : Node} (hest : (self.cellOf s).state ≠ .established) :
    Waiting self ⟨s, .running .off⟩ :=
  ⟨fun h ↦ (nomatch h), fun t h ↦ (by cases h; rfl), hest⟩

theorem polled_off (p : Bool) : Timers.off.polled p = .off := by cases p <;> rfl

theorem Endpoint.effect_nil {e : Endpoint} (q : List GeneratedMessage) {v : View}
    (h : v = e.view self q) : Effect self (e.view self q) v := by
  have hsend : Effect self (e.view self q) _ := .send [] (by simp)
  rw [List.append_nil] at hsend
  exact h ▸ hsend

theorem start_effect {s : Node} (hnew : (self.cellOf s).state = .connecting)
    (inbox outbox q : List GeneratedMessage) : Dead self (Connection.start ord self s) ∨
      Waiting self (Connection.start ord self s) ∧
      Effect self (Endpoint.view self ⟨⟨s, .starting⟩, inbox, outbox⟩ q)
        (Endpoint.view self ⟨Connection.start ord self s, inbox, outbox⟩ q) := by
  have hstep := startStep ord hnew
  generalize Connection.start ord self s = c at hstep ⊢
  cases hstep with
  | incoming hdir => exact Or.inr ⟨.of_ne (by rw [hnew]; decide), .listen hdir rfl⟩
  | outgoing c hdir hsend =>
    refine Or.inr ⟨.of_ne (by rw [cellOf_withCell]; simp), ?_⟩
    rw [view_running, cellOf_withCell, PeerCell.queue_of_trySend hsend, ← List.append_assoc]
    exact .greet _ hdir rfl
  | failed c e hsend => exact Or.inl ⟨by rw [cellOf_withCell], by simp⟩

theorem dead_parted {s : Node} {c : PeerCell} {phase : Phase}
    (hlink : (self.cellOf (self.parted ord s)).SameLink c) (hstarting : phase ≠ .starting) :
    Dead self ⟨self.withCell (self.parted ord s) c, phase⟩ :=
  ⟨by rw [cellOf_withCell, hlink.2.1, cellOf_parted], hstarting⟩

section Rounds

variable {s : Node} {r : Round} (hest : (self.cellOf s).state ≠ .established)
variable (inbox outbox q : List GeneratedMessage)

include hest

theorem receive_effect {msg : GeneratedMessage} (hwon : r.won = .frame (.message msg))
    (hne : msg ≠ .keepalive) : Dead self (round ord self r .off s) ∨
      Waiting self (round ord self r .off s) ∧
      Effect self (Endpoint.view self ⟨⟨s, .running .off⟩, msg :: inbox, outbox⟩ q)
        (Endpoint.view self ⟨round ord self r .off s, inbox, outbox⟩ q) := by
  have hround := roundStep ord self r .off s
  generalize Connection.round ord self r .off s = c at hround ⊢
  cases hround with
  | closed s₀ c phase _ hlink hstarting _ => exact Or.inl (dead_parted hlink hstarting)
  | processed msg' t₁ s' hwon' hreset hdone _ =>
    rw [hwon] at hwon'
    cases hwon'
    rw [polled_off] at hreset
    cases hreset
    obtain ⟨hest', heffect⟩ := process_effect hdone hest hne .off .off inbox outbox q
    exact Or.inr ⟨.of_ne hest', heffect⟩
  | established msg' t₁ t₂ s' hwon' _ hdone hest' _ _ =>
    rw [hwon] at hwon'
    cases hwon'
    exact absurd hest' (process_effect hdone hest hne .off .off inbox outbox q).1
  | sent hwon' => rw [hwon] at hwon'; cases hwon'
  | ticked hwon' => rw [hwon] at hwon'; cases hwon'
  | idled hwon' => rw [hwon] at hwon'; cases hwon'
  | overflowed msg' s' hwon' hs' =>
    rw [hwon] at hwon'
    cases hwon'
    rcases hs' with ⟨-, hsome⟩ | ⟨hdone, hest'⟩
    · cases hsome
    · exact absurd hest' (process_effect hdone hest hne .off .off inbox outbox q).1

theorem send_effect {msg : GeneratedMessage} {rest : List GeneratedMessage}
    (hwon : r.won = .outgoing true) (hqueue : (self.cellOf s).tx.queue = msg :: rest) :
    Dead self (round ord self r .off s) ∨ Waiting self (round ord self r .off s) ∧
      Effect self (Endpoint.view self ⟨⟨s, .running .off⟩, inbox, outbox⟩ q)
        (Endpoint.view self ⟨round ord self r .off s, inbox, outbox ++ [msg]⟩ q) := by
  have hround := roundStep ord self r .off s
  generalize Connection.round ord self r .off s = c at hround ⊢
  cases hround with
  | closed s₀ c phase _ hlink hstarting _ => exact Or.inl (dead_parted hlink hstarting)
  | sent _ =>
    have hlink := (self.cellOf s).sameLink_dequeued
    refine Or.inr ⟨?_, Endpoint.effect_nil q ?_⟩
    · rw [polled_off]
      exact .of_ne (by rw [cellOf_withCell, hlink.2.1]; exact hest)
    · rw [view_running, view_running, cellOf_withCell, hlink.2.1,
        PeerCell.queue_dequeued hqueue, hqueue, List.append_assoc]
      rfl
  | processed msg' t₁ s' hwon' => rw [hwon] at hwon'; cases hwon'
  | established msg' t₁ t₂ s' hwon' => rw [hwon] at hwon'; cases hwon'
  | ticked hwon' => rw [hwon] at hwon'; cases hwon'
  | idled hwon' => rw [hwon] at hwon'; cases hwon'
  | overflowed msg' s' hwon' => rw [hwon] at hwon'; cases hwon'

theorem timer_effect (hwon : r.won = .tick ∨ r.won = .timeout ∨ r.won = .shutdown) :
    Dead self (round ord self r .off s) ∨ Waiting self (round ord self r .off s) ∧
      Effect self (Endpoint.view self ⟨⟨s, .running .off⟩, inbox, outbox⟩ q)
        (Endpoint.view self ⟨round ord self r .off s, inbox, outbox⟩ q) := by
  have hround := roundStep ord self r .off s
  generalize Connection.round ord self r .off s = c at hround ⊢
  cases hround with
  | closed s₀ c phase _ hlink hstarting _ => exact Or.inl (dead_parted hlink hstarting)
  | ticked _ _ hest' => exact absurd hest' hest
  | idled _ _ =>
    rw [polled_off]
    exact Or.inr ⟨.of_ne hest, Endpoint.effect_nil q rfl⟩
  | processed msg' t₁ s' hwon' => simp [hwon'] at hwon
  | established msg' t₁ t₂ s' hwon' => simp [hwon'] at hwon
  | sent hwon' => simp [hwon'] at hwon
  | overflowed msg' s' hwon' => simp [hwon'] at hwon

end Rounds

theorem EndStep.effect {e e' : Endpoint} (hstep : EndStep ord self e e')
    (hw : Waiting self e.connection) (hkeep : .keepalive ∉ e.inbox) (q : List GeneratedMessage) :
    Dead self e'.connection ∨ Waiting self e'.connection ∧
      Effect self (e.view self q) (e'.view self q) := by
  cases hstep with
  | start s inbox outbox => exact start_effect (hw.starting rfl) inbox outbox q
  | receive s t msg inbox outbox r hwon hready =>
    obtain rfl : t = .off := hw.running t rfl
    have hne : msg ≠ .keepalive := fun h ↦ hkeep (h ▸ List.mem_cons_self)
    exact receive_effect hw.notEstablished inbox outbox q hwon hne
  | send s t msg inbox outbox rest r hwon hready hqueue =>
    obtain rfl : t = .off := hw.running t rfl
    exact send_effect hw.notEstablished inbox outbox q hwon hqueue
  | timer s t inbox outbox r hwon hready =>
    obtain rfl : t = .off := hw.running t rfl
    exact timer_effect hw.notEstablished inbox outbox q hwon
  | others s s' phase inbox outbox hothers =>
    obtain ⟨sent, hsent, hqueue⟩ := hothers.queue
    refine Or.inr ⟨⟨fun h ↦ hothers.state.trans (hw.starting h), hw.running, ?_⟩, ?_⟩
    · exact fun h ↦ hw.notEstablished (hothers.state.symm.trans h)
    · have heffect : Effect self (Endpoint.view self ⟨⟨s, phase⟩, inbox, outbox⟩ q) _ :=
        .send sent hsent
      simp only [Endpoint.view] at heffect ⊢
      rwa [hothers.state, hqueue, ← List.append_assoc]

theorem EndStep.dead {e e' : Endpoint} (hstep : EndStep ord self e e')
    (hd : Dead self e.connection) : Dead self e'.connection := by
  obtain ⟨hclosed, hstarting⟩ := hd
  cases hstep with
  | start s inbox outbox => exact absurd rfl hstarting
  | receive s t msg inbox outbox r _ _ =>
    exact ⟨round_of_closed hclosed, (roundStep ord self r t s).phase_ne⟩
  | send s t msg inbox outbox rest r _ _ _ =>
    exact ⟨round_of_closed hclosed, (roundStep ord self r t s).phase_ne⟩
  | timer s t inbox outbox r _ _ => exact ⟨round_of_closed hclosed, (roundStep ord self r t s).phase_ne⟩
  | others s s' phase inbox outbox hothers => exact ⟨hothers.state.trans hclosed, hstarting⟩

end Refinement

structure Link where
  client : Connection
  server : Connection
  toServer : List GeneratedMessage
  toClient : List GeneratedMessage

inductive Step (ord : HashOrder) (client server : Peer) : Link → Link → Prop
  | client (l : Link) (e : Endpoint) :
    EndStep ord client ⟨l.client, l.toClient, l.toServer⟩ e →
    Step ord client server l ⟨e.connection, l.server, e.outbox, e.inbox⟩
  | server (l : Link) (e : Endpoint) :
    EndStep ord server ⟨l.server, l.toServer, l.toClient⟩ e →
    Step ord client server l ⟨l.client, e.connection, e.inbox, e.outbox⟩

def WillGreet (self : Peer) (c : Connection) : Prop := self.direction = .outgoing ∧
  (c.phase = .starting ∨ (self.cellOf c.node).state = .established ∧
    ∃ t, c.phase = .running t ∧ t.keepaliveInterval.isSome)

/-- Both sides wait for the other, before both are established. -/
structure Quiescent (client server : Peer) (l : Link) : Prop where
  notClosed : (client.cellOf l.client.node).state ≠ .closed ∧
    (server.cellOf l.server.node).state ≠ .closed
  notEstablished : ¬ ((client.cellOf l.client.node).state = .established ∧
    (server.cellOf l.server.node).state = .established)
  nothingQueued : ∀ m ∈ (client.cellOf l.client.node).tx.queue ++
    (server.cellOf l.server.node).tx.queue, isGreeting m = false
  nothingInFlight : ∀ m ∈ l.toServer ++ l.toClient, isGreeting m = false
  nothingPending : ¬ WillGreet client l.client ∧ ¬ WillGreet server l.server

structure Fresh (client server : Peer) (l : Link) : Prop where
  phases : l.client.phase = .starting ∧ l.server.phase = .starting
  cells : client.cellOf l.client.node = .new ∧ server.cellOf l.server.node = .new
  wires : l.toServer = [] ∧ l.toClient = []

section System

variable {ord : HashOrder} {client server : Peer}

def clientView (client server : Peer) (l : Link) : View :=
  Endpoint.view client ⟨l.client, l.toClient, l.toServer⟩ (server.cellOf l.server.node).tx.queue

def serverView (client server : Peer) (l : Link) : View :=
  Endpoint.view server ⟨l.server, l.toServer, l.toClient⟩ (client.cellOf l.client.node).tx.queue

/-- When a greeting cannot be accepted, a side has closed or the handshake is pending. -/
def Stuck (client server : Peer) (l : Link) : Prop :=
  Dead client l.client ∨ Dead server l.server ∨ Waiting client l.client ∧
    Waiting server l.server ∧ Pending client server (clientView client server l)
      (serverView client server l)

theorem Stuck.of_fresh {l : Link} (h : Fresh client server l) : Stuck client server l := by
  obtain ⟨⟨hp, hp'⟩, ⟨hc, hc'⟩, hw, hw'⟩ := h
  have hwaiting {self : Peer} {c : Connection} (hp : c.phase = .starting)
      (hc : self.cellOf c.node = .new) : Waiting self c :=
    ⟨fun _ ↦ by rw [hc]; rfl, fun t ht ↦ (nomatch hp.symm.trans ht), by rw [hc]; decide⟩
  have hout : (clientView client server l).outgoing = [] := by
    simp only [clientView, Endpoint.view, hw, hc]
    rfl
  have hout' : (serverView client server l).outgoing = [] := by
    simp only [serverView, Endpoint.view, hw', hc']
    rfl
  refine Or.inr (Or.inr ⟨hwaiting hp hc, hwaiting hp' hc', rfl, rfl, ?_, ?_, ?_, .silent ?_ ?_ ?_ ?_ ?_⟩)
  · simp [hout, hout']
  · simp [hout]
  · simp [hout']
  · simp [clientView, Endpoint.view, hp]
  · simp only [clientView, Endpoint.view, hc]
    rfl
  · simp only [serverView, Endpoint.view, hc']
    rfl
  · simp [hout]
  · simp [hout']

theorem Stuck.step {l l' : Link} (hzero : helloInterval client = 0 ∨ helloInterval server = 0)
    (hdir : client.direction = .outgoing) (hdir' : server.direction = .incoming)
    (h : Stuck client server l) (hstep : Step ord client server l l') :
    Stuck client server l' := by
  rcases h with hd | hd | ⟨hw, hw', hpending⟩
  · cases hstep with
    | client e he => exact Or.inl (he.dead hd)
    | server e he => exact Or.inl hd
  · cases hstep with
    | client e he => exact Or.inr (Or.inl hd)
    | server e he => exact Or.inr (Or.inl (he.dead hd))
  · cases hstep with
    | client e he =>
      have hkeep : .keepalive ∉ l.toClient := fun hm ↦
        hpending.noKeepalive.2 (List.mem_append_left _ hm)
      rcases he.effect hw hkeep (server.cellOf l.server.node).tx.queue with hd | ⟨hwe, heffect⟩
      · exact Or.inl hd
      · exact Or.inr (Or.inr ⟨hwe, hw', hpending.clientStep hzero hdir heffect⟩)
    | server e he =>
      have hkeep : .keepalive ∉ l.toServer := fun hm ↦
        hpending.noKeepalive.1 (List.mem_append_left _ hm)
      rcases he.effect hw' hkeep (client.cellOf l.client.node).tx.queue with hd | ⟨hwe, heffect⟩
      · exact Or.inr (Or.inl hd)
      · exact Or.inr (Or.inr ⟨hw, hwe, hpending.serverStep hdir' heffect⟩)

theorem Stuck.not_quiescent {l : Link} (hdir : client.direction = .outgoing)
    (h : Stuck client server l) : ¬ Quiescent client server l := by
  intro hq
  rcases h with hd | hd | ⟨-, -, hpending⟩
  · exact hq.notClosed.1 hd.1
  · exact hq.notClosed.2 hd.1
  · cases hpending.stage with
    | silent hstarted _ _ _ _ =>
      refine hq.nothingPending.1 ⟨hdir, Or.inl ?_⟩
      simpa [clientView, Endpoint.view] using hstarted
    | greeting g _ _ _ hmem _ =>
      rcases List.mem_append.mp hmem with hm | hm
      · cases hq.nothingInFlight _ (List.mem_append_left _ hm)
      · cases hq.nothingQueued _ (List.mem_append_left _ hm)
    | answering g _ _ _ _ hmem =>
      rcases List.mem_append.mp hmem with hm | hm
      · cases hq.nothingInFlight _ (List.mem_append_right _ hm)
      · cases hq.nothingQueued _ (List.mem_append_right _ hm)

theorem trySend_new (state : ConnectionState) (b : Bool) (msg : GeneratedMessage) :
    ∃ c, PeerCell.trySend { PeerCell.new with state := state, isRemoteServer := b } msg =
      (.ok (), c) ∧ c.state = state ∧ c.tx.queue = [msg] := by
  obtain ⟨tx, hsend, htx⟩ := PeerCell.trySend_of_room
    (c := { PeerCell.new with state := state, isRemoteServer := b }) rfl (show 0 < 256 by decide) msg
  exact ⟨_, hsend, rfl, by rw [htx]; rfl⟩

variable (ord) in
theorem send_only (self : Peer) (s : Node) {c : PeerCell} {msg : GeneratedMessage}
    (hqueue : c.tx.queue = [msg]) (inbox : List GeneratedMessage) : ∃ c', c'.state = c.state ∧
      c'.tx.queue = [] ∧ EndStep ord self ⟨⟨self.withCell s c, .running .off⟩, inbox, []⟩
        ⟨⟨self.withCell s c', .running .off⟩, inbox, [msg]⟩ := by
  have hcell : self.cellOf (self.withCell s c) = c := cellOf_withCell ..
  let r : Round := ⟨false, .outgoing true, 0, 0⟩
  refine ⟨c.dequeued, c.sameLink_dequeued.2.1, PeerCell.queue_dequeued hqueue, ?_⟩
  have hready : Ready (self.cellOf (self.withCell s c)) .off r :=
    ⟨fun h ↦ (nomatch h), by simp [r, hcell, hqueue]⟩
  have hsend : EndStep ord self ⟨⟨self.withCell s c, .running .off⟩, inbox, []⟩ _ :=
    .send _ .off msg inbox [] [] r rfl hready (by rw [hcell, hqueue])
  rwa [round_sent rfl, hcell, withCell_withCell] at hsend

variable (ord) in
theorem receive_hello {self : Peer} (s : Node) {c c' : PeerCell} {hello : Pb.Hello}
    (hon : self.onHello hello c = (.ok (), c')) (hest : c'.state ≠ .established) :
    EndStep ord self ⟨⟨self.withCell s c, .running .off⟩, [.hello hello], []⟩
      ⟨⟨self.withCell s c', .running .off⟩, [], []⟩ := by
  have hcell : self.cellOf (self.withCell s c) = c := cellOf_withCell ..
  let r : Round := ⟨false, .frame (.message (.hello hello)), 0, 0⟩
  have hdone : exec [] (self.process ord (.hello hello)) (self.withCell s c) =
      .done (.ok ()) [] (self.withCell s c') := by
    have hrun := exec_processHello ord self (self.withCell s c) hello
    rwa [hcell, hon, withCell_withCell] at hrun
  have hreceive : EndStep ord self ⟨⟨self.withCell s c, .running .off⟩, [.hello hello], []⟩ _ :=
    .receive _ .off (.hello hello) [] [] r rfl ⟨fun h ↦ (nomatch h), trivial⟩
  rwa [round_processed rfl rfl hdone (by rwa [cellOf_withCell])] at hreceive

theorem onHello_answer {self : Peer} (hello : Pb.Hello) (hdir : self.direction = .incoming)
    (hne : hello.keepaliveInterval ≠ 0) : ∃ c, self.onHello hello .new = (.ok (), c) ∧
      c.state = .helloSent ∧ c.tx.queue = [.hello ⟨helloInterval self, true⟩] := by
  obtain ⟨c, hsend, -, hqueue⟩ := trySend_new .connecting hello.isServer
    (.hello ⟨helloInterval self, true⟩)
  refine ⟨{ c with state := .helloSent }, ?_, rfl, hqueue⟩
  have hsend' : PeerCell.trySend { PeerCell.new with isRemoteServer := hello.isServer }
      (.hello ⟨self.config.keepaliveInterval.asSecs.toUInt32, true⟩) = (.ok (), c) := hsend
  simp only [onHello, hne, hdir, if_false, hsend']
  rfl

theorem onHello_greeted {self : Peer} (hello : Pb.Hello) {c : PeerCell}
    (hdir : self.direction = .outgoing) (hne : hello.keepaliveInterval ≠ 0)
    (hstate : c.state = .helloSent) : ∃ c', self.onHello hello c = (.ok (), c') ∧
      c'.state = .helloReceived ∧ c'.tx.queue = c.tx.queue := by
  refine ⟨{ c with isRemoteServer := hello.isServer, state := .helloReceived }, ?_, rfl, rfl⟩
  simp only [onHello, hne, hdir, hstate, if_false, if_true]

variable (ord) in
theorem start_client {self : Peer} {s : Node} (hdir : self.direction = .outgoing)
    (hc : self.cellOf s = .new) : ∃ c isServer, c.state = .helloSent ∧
      c.tx.queue = [.hello ⟨helloInterval self, isServer⟩] ∧
      Connection.start ord self s = ⟨self.withCell s c, .running .off⟩ := by
  have hstep := startStep ord (show (self.cellOf s).state = .connecting by rw [hc]; rfl)
  obtain ⟨c, hsend, -, hqueue⟩ := trySend_new .connecting false
    (.hello ⟨helloInterval self, s.world.mb.isServer⟩)
  have hsend' : (self.cellOf s).trySend (.hello ⟨self.config.keepaliveInterval.asSecs.toUInt32,
      s.world.mb.isServer⟩) = (.ok (), c) := by rw [hc]; exact hsend
  generalize Connection.start ord self s = conn at hstep
  cases hstep with
  | incoming hin => rw [hdir] at hin; cases hin
  | outgoing c₁ _ hsend₁ =>
    cases hsend'.symm.trans hsend₁
    exact ⟨{ c with state := .helloSent }, s.world.mb.isServer, rfl, hqueue, rfl⟩
  | failed c₁ e hsend₁ => cases hsend'.symm.trans hsend₁

theorem start_server {self : Peer} {s : Node} (hdir : self.direction = .incoming)
    (hc : self.cellOf s = .new) :
    Connection.start ord self s = ⟨self.withCell s .new, .running .off⟩ := by
  have hstep := startStep ord (show (self.cellOf s).state = .connecting by rw [hc]; rfl)
  have hself : self.withCell s .new = s := by rw [← hc, withCell_cellOf]
  rw [hself]
  generalize Connection.start ord self s = conn at hstep ⊢
  cases hstep with
  | incoming _ => rfl
  | outgoing c hout _ => rw [hdir] at hout; cases hout
  | failed c e hsend =>
    obtain ⟨c', hsend', -, -⟩ := trySend_new .connecting false
      (.hello ⟨helloInterval self, s.world.mb.isServer⟩)
    rw [hc] at hsend
    cases hsend.symm.trans hsend'

variable (ord) in
theorem quiescent_of_ne_zero {l : Link} (hfresh : Fresh client server l)
    (hdir : client.direction = .outgoing) (hdir' : server.direction = .incoming)
    (hclient : helloInterval client ≠ 0) (hserver : helloInterval server ≠ 0) :
    ∃ l', Run (Step ord client server) l l' ∧ Quiescent client server l' := by
  obtain ⟨⟨s, phase⟩, ⟨s', phase'⟩, toServer, toClient⟩ := l
  obtain ⟨⟨rfl, rfl⟩, ⟨hc, hc'⟩, rfl, rfl⟩ := hfresh
  simp only at hc hc'
  obtain ⟨c₁, isServer, hstate₁, hqueue₁, hstart⟩ := start_client ord hdir hc
  obtain ⟨c₂, hstate₂, hqueue₂, hsend⟩ := send_only ord client s hqueue₁ []
  obtain ⟨c₁', hon', hstate₁', hqueue₁'⟩ :=
    onHello_answer ⟨helloInterval client, isServer⟩ hdir' hclient
  obtain ⟨c₂', hstate₂', hqueue₂', hsend'⟩ := send_only ord server s' hqueue₁' []
  obtain ⟨c₃, hon, hstate₃, hqueue₃⟩ :=
    onHello_greeted ⟨helloInterval server, true⟩ hdir hserver (hstate₂.trans hstate₁)
  have hanswer := receive_hello ord s' hon' (by rw [hstate₁']; decide)
  have hgreeted := receive_hello ord s hon (by rw [hstate₃]; decide)
  refine ⟨⟨⟨client.withCell s c₃, .running .off⟩, ⟨server.withCell s' c₂', .running .off⟩, [], []⟩,
    ?_, ?_⟩
  · refine .cons (.client _ _ (.start s [] [])) (.cons (.server _ _ (.start s' [] [])) ?_)
    rw [hstart, start_server hdir' hc']
    exact .cons (.client _ _ hsend) (.cons (.server _ _ hanswer)
      (.cons (.server _ _ hsend') (.cons (.client _ _ hgreeted) .refl)))
  · have hst : (client.cellOf (client.withCell s c₃)).state = .helloReceived := by
      rw [cellOf_withCell, hstate₃]
    have hst' : (server.cellOf (server.withCell s' c₂')).state = .helloSent := by
      rw [cellOf_withCell, hstate₂', hstate₁']
    refine ⟨?_, ?_, ?_, by simp, ?_, ?_⟩
    · exact ⟨by rw [hst]; decide, by rw [hst']; decide⟩
    · intro hex
      obtain ⟨hest, -⟩ := hex
      rw [hst] at hest
      cases hest
    · simp [hqueue₃, hqueue₂, hqueue₂']
    · intro hex
      obtain ⟨-, hphase | ⟨hest, -⟩⟩ := hex
      · cases hphase
      · rw [hst] at hest
        cases hest
    · intro hex
      obtain ⟨hout, -⟩ := hex
      rw [hdir'] at hout
      cases hout

/-- The handshake can never get stuck exactly when one side tells the other an interval of
zero, which closes the connection. -/
theorem never_quiescent_iff {l : Link} (hfresh : Fresh client server l)
    (hdir : client.direction = .outgoing) (hdir' : server.direction = .incoming) :
    (∀ l', Run (Step ord client server) l l' → ¬ Quiescent client server l') ↔
      helloInterval client = 0 ∨ helloInterval server = 0 := by
  constructor
  · intro h
    by_contra hne
    rw [not_or] at hne
    obtain ⟨l', hrun, hq⟩ := quiescent_of_ne_zero ord hfresh hdir hdir' hne.1 hne.2
    exact h l' hrun hq
  · intro hzero l' hrun
    have hstuck : Stuck client server l' :=
      hrun.invariant (.of_fresh hfresh) fun _ _ hl hstep ↦ hl.step hzero hdir hdir' hstep
    exact hstuck.not_quiescent hdir

end System

def connecting : Link :=
  ⟨⟨Sample.node false, .starting⟩, ⟨Sample.node true, .starting⟩, [], []⟩

theorem fresh_connecting : Fresh (Sample.peer 1 .outgoing) (Sample.peer 1 .incoming) connecting :=
  ⟨⟨rfl, rfl⟩, ⟨rfl, rfl⟩, rfl, rfl⟩

theorem never_quiescent_iff_sample :
    (∀ l', Run (Step .toList (Sample.peer 1 .outgoing) (Sample.peer 1 .incoming)) connecting l' →
      ¬ Quiescent (Sample.peer 1 .outgoing) (Sample.peer 1 .incoming) l') ↔
      helloInterval (Sample.peer 1 .outgoing) = 0 ∨ helloInterval (Sample.peer 1 .incoming) = 0 :=
  never_quiescent_iff fresh_connecting rfl rfl

/-- They greet each other, and none of them sends the first keepalive. -/
theorem connecting_gets_stuck : ∃ l',
    Run (Step .toList (Sample.peer 1 .outgoing) (Sample.peer 1 .incoming)) connecting l' ∧
    Quiescent (Sample.peer 1 .outgoing) (Sample.peer 1 .incoming) l' :=
  quiescent_of_ne_zero .toList fresh_connecting rfl rfl (by decide) (by decide)

end MetalBond.Handshake
