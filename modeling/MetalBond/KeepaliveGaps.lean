import MetalBond.KeepaliveTimeout

namespace MetalBond.KeepaliveGaps

open Async Task Collections Peer
open KeepaliveTimeout (interval_polled interval_reset timeout_reset)

/-- One end of an established connection: when its ticker fires next, when its last frame
arrived, and the frames on their way to it. -/
structure Endpoint where
  node : Node
  timers : Timers
  nextTick : Instant
  lastFrame : Instant
  inbox : List GeneratedMessage

def Endpoint.queue (self : Peer) (e : Endpoint) : List GeneratedMessage :=
  (self.cellOf e.node).tx.queue

section Rounds

variable (ord : HashOrder) (self : Peer) (now : Instant)

/-- A round that the ticker wins; the next tick follows one period later. -/
inductive Ticks (e : Endpoint) : Endpoint → Prop
  | mk (polled : Bool) (period : Duration) (node : Node) (timers : Timers) :
    e.nextTick ≤ now → e.timers.keepaliveInterval = some period →
    Connection.round ord self ⟨polled, .tick, now, now⟩ e.timers e.node =
      ⟨node, .running timers⟩ →
    Ticks e { e with node := node, timers := timers, nextTick := now + period.nanos }

inductive Writes (e : Endpoint) : GeneratedMessage → Endpoint → Prop
  | mk (polled : Bool) (m : GeneratedMessage) (rest : List GeneratedMessage) (node : Node)
    (timers : Timers) :
    e.queue self = m :: rest →
    Connection.round ord self ⟨polled, .outgoing true, now, now⟩ e.timers e.node =
      ⟨node, .running timers⟩ →
    Writes e m { e with node := node, timers := timers }

inductive Receives (e : Endpoint) : Endpoint → Prop
  | mk (polled : Bool) (m : GeneratedMessage) (rest : List GeneratedMessage) (node : Node)
    (timers : Timers) :
    e.inbox = m :: rest →
    Connection.round ord self ⟨polled, .frame (.message m), now, now⟩ e.timers e.node =
      ⟨node, .running timers⟩ →
    Receives e { e with node := node, timers := timers, lastFrame := now, inbox := rest }

end Rounds

structure Link where
  now : Instant
  client : Endpoint
  server : Endpoint

def Endpoint.deliver (e : Endpoint) (m : GeneratedMessage) : Endpoint :=
  { e with inbox := e.inbox ++ [m] }

section Step

variable (ord : HashOrder) (client server : Peer)

/-- Either end goes through a round. Time passes only when no frame is waiting or on its way,
and never past a tick: nothing is lost, and the delay is negligible. -/
inductive Step (l : Link) : Link → Prop
  | tickClient (e : Endpoint) : Ticks ord client l.now l.client e → Step l { l with client := e }
  | tickServer (e : Endpoint) : Ticks ord server l.now l.server e → Step l { l with server := e }
  | writeClient (m : GeneratedMessage) (e : Endpoint) : Writes ord client l.now l.client m e →
    Step l { l with client := e, server := l.server.deliver m }
  | writeServer (m : GeneratedMessage) (e : Endpoint) : Writes ord server l.now l.server m e →
    Step l { l with client := l.client.deliver m, server := e }
  | receiveClient (e : Endpoint) : Receives ord client l.now l.client e →
    Step l { l with client := e }
  | receiveServer (e : Endpoint) : Receives ord server l.now l.server e →
    Step l { l with server := e }
  | pass (now : Instant) : l.now ≤ now → now ≤ l.client.nextTick → now ≤ l.server.nextTick →
    l.client.queue client = [] → l.server.queue server = [] →
    l.client.inbox = [] → l.server.inbox = [] → Step l { l with now := now }

end Step

/-- An established connection has started its timers: its ticker runs, its receive timeout
could be computed, and its deadline, if it still has one, counts from its last frame. -/
structure Running (peer : Peer) (e : Endpoint) : Prop where
  established : (peer.cellOf e.node).state = .established
  opened : (peer.cellOf e.node).tx.closed = false
  timeout : (Timers.timeoutDuration peer.config).isSome
  ticking : e.timers.keepaliveInterval = some peer.config.keepaliveInterval
  deadline : ∀ deadline ∈ e.timers.keepaliveTimeout, ∃ d,
    Timers.timeoutDuration peer.config = some d ∧ deadline = e.lastFrame + d.nanos

/-- A frame has just arrived at the endpoint, nothing is under way, and its ticker is on time. -/
structure Fresh (peer : Peer) (now : Instant) (e : Endpoint) : Prop where
  running : Running peer e
  lastFrame : e.lastFrame = now
  now_le : now ≤ e.nextTick
  nextTick_le : e.nextTick ≤ now + peer.config.keepaliveInterval.nanos
  queue : e.queue peer = []
  inbox : e.inbox = []

structure Begins (client server : Peer) (l : Link) : Prop where
  client : Fresh client l.now l.client
  server : Fresh server l.now l.server

/-- The time since the last frame is within the receive timeout that the endpoint computes, and
the timeout cannot end a round. -/
structure Compatible (peer : Peer) (now : Instant) (e : Endpoint) : Prop where
  gap : ∃ d, Timers.timeoutDuration peer.config = some d ∧ now ≤ e.lastFrame + d.nanos
  kept : ∀ later,
    ¬ Peer.Ready (peer.cellOf e.node) e.timers ⟨true, .timeout, now, later⟩

def KeepsPace (client server : Peer) : Prop := ∀ ord l₀ l, Begins client server l₀ →
  Run (Step ord client server) l₀ l →
  Compatible client l.now l.client ∧ Compatible server l.now l.server

/-- The clock, the ticks and frames of both ends and the numbers of the messages under way. -/
structure Pace where
  now : ℕ
  tickClient : ℕ
  tickServer : ℕ
  frameClient : ℕ
  frameServer : ℕ
  queueClient : ℕ
  queueServer : ℕ
  inboxClient : ℕ
  inboxServer : ℕ

namespace Pace

variable (c s : ℕ)

inductive Step (p : Pace) : Pace → Prop
  | tickClient : p.tickClient ≤ p.now →
    Step p { p with tickClient := p.now + c, queueClient := p.queueClient + 1 }
  | tickServer : p.tickServer ≤ p.now → Step p { p with tickServer := p.now + s }
  | writeClient (n : ℕ) : p.queueClient = n + 1 →
    Step p { p with queueClient := n, inboxServer := p.inboxServer + 1 }
  | writeServer (n : ℕ) : p.queueServer = n + 1 →
    Step p { p with queueServer := n, inboxClient := p.inboxClient + 1 }
  | receiveClient (n : ℕ) : p.inboxClient = n + 1 →
    Step p { p with inboxClient := n, frameClient := p.now }
  | receiveServer (n : ℕ) : p.inboxServer = n + 1 →
    Step p { p with inboxServer := n, queueServer := p.queueServer + 1, frameServer := p.now }
  | pass (now : ℕ) : p.now ≤ now → now ≤ p.tickClient → now ≤ p.tickServer →
    p.queueClient = 0 → p.queueServer = 0 → p.inboxClient = 0 → p.inboxServer = 0 →
    Step p { p with now := now }

def pending (p : Pace) : ℕ := p.queueClient + p.queueServer + p.inboxClient + p.inboxServer

/-- A keepalive is under way, or the client's next tick is at most one period after the last
frame of either end. -/
structure OnTime (p : Pace) : Prop where
  pending_le : p.pending ≤ 1
  silent : p.tickClient ≤ p.now → p.pending = 0
  now_le_tick : p.now ≤ p.tickClient
  tick_le : p.tickClient ≤ p.now + c
  client : p.pending = 0 → p.tickClient ≤ p.frameClient + c
  server : p.queueClient = 0 → p.inboxServer = 0 → p.tickClient ≤ p.frameServer + c
  gapClient : p.now ≤ p.frameClient + c
  gapServer : p.now ≤ p.frameServer + c

variable {c s}

theorem OnTime.step (hc : 0 < c) {p p' : Pace} (h : OnTime c p) (hstep : Step c s p p') :
    OnTime c p' := by
  obtain ⟨hpending, hsilent, hnow, htick, hclient, hserver, hgapClient, hgapServer⟩ := h
  simp only [pending] at hpending hsilent hclient
  cases hstep <;> constructor <;> simp only [pending] <;> omega

end Pace

def Link.pace (client server : Peer) (l : Link) : Pace where
  now := l.now
  tickClient := l.client.nextTick
  tickServer := l.server.nextTick
  frameClient := l.client.lastFrame
  frameServer := l.server.lastFrame
  queueClient := (l.client.queue client).length
  queueServer := (l.server.queue server).length
  inboxClient := l.client.inbox.length
  inboxServer := l.server.inbox.length

structure Calm (peer : Peer) (e : Endpoint) : Prop extends Running peer e where
  queue : ∀ m ∈ e.queue peer, m = .keepalive
  inbox : ∀ m ∈ e.inbox, m = .keepalive

section Rounds

variable {ord : HashOrder} {self : Peer} {now : Instant} {e e' : Endpoint} {m : GeneratedMessage}

theorem mem_polled {t : Timers} {p : Bool} {deadline : Instant}
    (h : deadline ∈ (t.polled p).keepaliveTimeout) : deadline ∈ t.keepaliveTimeout := by
  cases p with
  | false => exact h
  | true => cases h

theorem deadline_reset {config : Config} {t t' : Timers} {deadline : Instant}
    (h : t.reset config now = some t') (hd : deadline ∈ t'.keepaliveTimeout) :
    ∃ d, Timers.timeoutDuration config = some d ∧ deadline = now + d.nanos := by
  cases htimeout : t.keepaliveTimeout with
  | none =>
    have hsame : t' = t := by simpa [Timers.reset, htimeout] using h.symm
    rw [hsame, htimeout] at hd
    cases hd
  | some old =>
    obtain ⟨d, hsome, ht⟩ := timeout_reset h (by rw [htimeout]; rfl)
    rw [ht] at hd
    cases hd
    exact ⟨d, hsome, rfl⟩

theorem Running.polled (h : Running self e) {c : PeerCell}
    (hlink : (self.cellOf e.node).SameLink c)
    (hopen : c.tx.closed = (self.cellOf e.node).tx.closed) (p : Bool) (nextTick : Instant)
    (inbox : List GeneratedMessage) : Running self
      ⟨self.withCell e.node c, e.timers.polled p, nextTick, e.lastFrame, inbox⟩ := by
  refine ⟨?_, ?_, h.timeout, ?_, fun deadline hd ↦ h.deadline deadline (mem_polled hd)⟩
  · rw [cellOf_withCell, hlink.2.1, h.established]
  · rw [cellOf_withCell, hopen, h.opened]
  · rw [interval_polled, h.ticking]

theorem round_ticked {r : Round} (hwon : r.won = .tick) (hdir : self.direction = .outgoing)
    {s : Node} (hest : (self.cellOf s).state = .established) (t : Timers) :
    Connection.round ord self r t s =
      ⟨self.withCell s (self.cellOf s).pinged, .running (t.polled r.polled)⟩ := by
  unfold Connection.round selectRound handleBranch
  simp only [hwon, exec_bind, exec_getState, Outcome.done_andThen]
  rw [if_pos ⟨hdir, hest⟩, exec_pinged]
  rfl

theorem round_idled {r : Round} (hwon : r.won = .tick) (hdir : self.direction ≠ .outgoing)
    (t : Timers) (s : Node) :
    Connection.round ord self r t s = ⟨s, .running (t.polled r.polled)⟩ := by
  unfold Connection.round selectRound handleBranch
  simp only [hwon, exec_bind, exec_getState, Outcome.done_andThen, hdir, false_and, if_false]
  rfl

structure Requeued (c c' : PeerCell) (queue : List GeneratedMessage) : Prop where
  link : c.SameLink c'
  closed : c'.tx.closed = c.tx.closed
  queue : c'.tx.queue = queue

theorem requeued_trySend {c : PeerCell} (hopen : c.tx.closed = false)
    (hroom : c.tx.queue.length < peerTxBufferSize) (msg : GeneratedMessage) :
    ∃ c', c.trySend msg = (.ok (), c') ∧ Requeued c c' (c.tx.queue ++ [msg]) := by
  obtain ⟨tx, hsend, htx⟩ := PeerCell.trySend_of_room hopen hroom msg
  have hclosed : tx.closed = c.tx.closed := by rw [htx]; rfl
  have hqueue : tx.queue = c.tx.queue ++ [msg] := by rw [htx]; rfl
  exact ⟨_, hsend, ⟨rfl, rfl, rfl⟩, hclosed, hqueue⟩

theorem requeued_pinged {c : PeerCell} (hopen : c.tx.closed = false)
    (hroom : c.tx.queue.length < peerTxBufferSize) :
    Requeued c c.pinged (c.tx.queue ++ [.keepalive]) := by
  obtain ⟨c', hsend, hkept⟩ := requeued_trySend hopen hroom .keepalive
  rwa [PeerCell.pinged, hsend]

theorem requeued_dequeued {c : PeerCell} {rest : List GeneratedMessage}
    (hqueue : c.tx.queue = m :: rest) : Requeued c c.dequeued rest := by
  obtain ⟨tx, hrecv, htx⟩ := Mailbox.recv_of_cons hqueue
  have hclosed : tx.closed = c.tx.closed := by rw [htx]
  have hrest : tx.queue = rest := by rw [htx]
  rw [PeerCell.dequeued, hrecv]
  exact ⟨⟨rfl, rfl, rfl⟩, hclosed, hrest⟩

theorem Ticks.of_outgoing (h : Ticks ord self now e e') (hcalm : Calm self e)
    (hdir : self.direction = .outgoing) (hroom : (e.queue self).length < peerTxBufferSize) :
    Calm self e' ∧ e.nextTick ≤ now ∧
      e'.nextTick = now + self.config.keepaliveInterval.nanos ∧ e'.lastFrame = e.lastFrame ∧
      e'.inbox = e.inbox ∧ (e'.queue self).length = (e.queue self).length + 1 := by
  cases h with
  | mk polled period node timers hdue hperiod hround =>
    rw [round_ticked rfl hdir hcalm.established] at hround
    cases hround
    obtain rfl := Option.some.inj (hcalm.ticking.symm.trans hperiod)
    have hkept := requeued_pinged hcalm.opened hroom
    have hqueue : Endpoint.queue self ⟨self.withCell e.node (self.cellOf e.node).pinged,
        e.timers.polled polled, now + self.config.keepaliveInterval.nanos, e.lastFrame, e.inbox⟩ =
        e.queue self ++ [.keepalive] := by
      rw [Endpoint.queue, cellOf_withCell, hkept.queue]
      rfl
    refine ⟨⟨hcalm.polled hkept.link hkept.closed polled _ _, ?_, hcalm.inbox⟩, hdue, rfl, rfl,
      rfl, ?_⟩
    · rw [hqueue]
      intro m hm
      exact (List.mem_append.mp hm).elim (hcalm.queue m) List.mem_singleton.mp
    · rw [hqueue, List.length_append, List.length_singleton]

theorem Ticks.of_incoming (h : Ticks ord self now e e') (hcalm : Calm self e)
    (hdir : self.direction = .incoming) :
    Calm self e' ∧ e.nextTick ≤ now ∧
      e'.nextTick = now + self.config.keepaliveInterval.nanos ∧ e'.lastFrame = e.lastFrame ∧
      e'.inbox = e.inbox ∧ e'.queue self = e.queue self := by
  cases h with
  | mk polled period node timers hdue hperiod hround =>
    rw [round_idled rfl (by rw [hdir]; decide)] at hround
    cases hround
    obtain rfl := Option.some.inj (hcalm.ticking.symm.trans hperiod)
    have hrunning := hcalm.polled (.refl _) rfl polled (now + self.config.keepaliveInterval.nanos)
      e.inbox
    rw [withCell_cellOf] at hrunning
    exact ⟨⟨hrunning, hcalm.queue, hcalm.inbox⟩, hdue, rfl, rfl, rfl, rfl⟩

theorem Writes.calm (h : Writes ord self now e m e') (hcalm : Calm self e) :
    Calm self e' ∧ m = .keepalive ∧ e'.nextTick = e.nextTick ∧ e'.lastFrame = e.lastFrame ∧
      e'.inbox = e.inbox ∧ (e.queue self).length = (e'.queue self).length + 1 := by
  cases h with
  | mk polled m rest node timers hqueue hround =>
    rw [Connection.round_sent rfl] at hround
    cases hround
    have hkept := requeued_dequeued hqueue
    have hrest : Endpoint.queue self ⟨self.withCell e.node (self.cellOf e.node).dequeued,
        e.timers.polled polled, e.nextTick, e.lastFrame, e.inbox⟩ = rest := by
      rw [Endpoint.queue, cellOf_withCell, hkept.queue]
    have hmem := hcalm.queue
    rw [hqueue] at hmem
    refine ⟨⟨hcalm.polled hkept.link hkept.closed polled _ _, ?_, hcalm.inbox⟩,
      hmem m List.mem_cons_self, rfl, rfl, rfl, ?_⟩
    · rw [hrest]
      exact fun m' hm' ↦ hmem m' (List.mem_cons_of_mem m hm')
    · rw [hrest, hqueue, List.length_cons]

theorem Calm.deliver (h : Calm self e) : Calm self (e.deliver .keepalive) where
  toRunning := ⟨h.established, h.opened, h.timeout, h.ticking, h.deadline⟩
  queue := h.queue
  inbox m hm := (List.mem_append.mp hm).elim (h.inbox m) List.mem_singleton.mp

theorem Receives.of_requeued (h : Receives ord self now e e') (hcalm : Calm self e)
    {c : PeerCell} {queue : List GeneratedMessage}
    (hon : self.onKeepalive ord e.node (self.cellOf e.node) = (.ok (), c))
    (hkept : Requeued (self.cellOf e.node) c queue) (hqueue : ∀ m ∈ queue, m = .keepalive) :
    Calm self e' ∧ e'.nextTick = e.nextTick ∧ e'.lastFrame = now ∧
      e.inbox.length = e'.inbox.length + 1 ∧ e'.queue self = queue := by
  cases h with
  | mk polled m rest node timers hinbox hround =>
    have hmem := hcalm.inbox
    rw [hinbox] at hmem
    obtain rfl := hmem m List.mem_cons_self
    have hdone := exec_processKeepalive ord self e.node
    rw [hon] at hdone
    cases hreset : (e.timers.polled polled).reset self.config now with
    | none =>
      have hpanicked : Connection.round ord self ⟨polled, .frame (.message .keepalive), now, now⟩
          e.timers e.node = ⟨e.node, .panicked⟩ := by
        unfold Connection.round selectRound handleBranch handleMessage
        simp only [hreset]
        rfl
      rw [hpanicked] at hround
      cases hround
    | some t =>
      have hinterval := interval_reset hreset
      rw [interval_polled, hcalm.ticking] at hinterval
      have hstays : ¬ ((self.cellOf (self.withCell e.node c)).state = .established ∧
          t.keepaliveInterval = none) := by
        rw [hinterval]
        simp
      have hkeeps : Connection.round ord self ⟨polled, .frame (.message .keepalive), now, now⟩
          e.timers e.node = ⟨self.withCell e.node c, .running t⟩ :=
        Connection.round_kept rfl hreset hdone hstays
      rw [hkeeps] at hround
      cases hround
      refine ⟨⟨⟨?_, ?_, hcalm.timeout, hinterval, fun deadline hd ↦ ?_⟩, ?_, ?_⟩, rfl, rfl, ?_, ?_⟩
      · rw [cellOf_withCell, hkept.link.2.1, hcalm.established]
      · rw [cellOf_withCell, hkept.closed, hcalm.opened]
      · exact deadline_reset hreset hd
      · rw [Endpoint.queue, cellOf_withCell, hkept.queue]
        exact hqueue
      · exact fun m' hm' ↦ hmem m' (List.mem_cons_of_mem _ hm')
      · rw [hinbox, List.length_cons]
      · rw [Endpoint.queue, cellOf_withCell, hkept.queue]

theorem Receives.of_outgoing (h : Receives ord self now e e') (hcalm : Calm self e)
    (hdir : self.direction = .outgoing) :
    Calm self e' ∧ e'.nextTick = e.nextTick ∧ e'.lastFrame = now ∧
      e.inbox.length = e'.inbox.length + 1 ∧ e'.queue self = e.queue self := by
  have hon : self.onKeepalive ord e.node (self.cellOf e.node) =
      (.ok (), self.cellOf e.node) := by
    simp [onKeepalive, hdir, hcalm.established]
  exact h.of_requeued hcalm hon ⟨.refl _, rfl, rfl⟩ hcalm.queue

theorem Receives.of_incoming (h : Receives ord self now e e') (hcalm : Calm self e)
    (hdir : self.direction = .incoming) (hroom : (e.queue self).length < peerTxBufferSize) :
    Calm self e' ∧ e'.nextTick = e.nextTick ∧ e'.lastFrame = now ∧
      e.inbox.length = e'.inbox.length + 1 ∧ e'.queue self = e.queue self ++ [.keepalive] := by
  obtain ⟨c, hsend, hkept⟩ := requeued_trySend hcalm.opened hroom .keepalive
  have hon : self.onKeepalive ord e.node (self.cellOf e.node) = (.ok (), c) := by
    simp [onKeepalive, hdir, hcalm.established, hsend, withContext]
  refine h.of_requeued hcalm hon hkept fun m hm ↦ ?_
  exact (List.mem_append.mp hm).elim (hcalm.queue m) List.mem_singleton.mp

end Rounds

section Run

variable {ord : HashOrder} {client server : Peer}

structure Paced (client server : Peer) (l : Link) : Prop where
  clientCalm : Calm client l.client
  serverCalm : Calm server l.server
  onTime : Pace.OnTime client.config.keepaliveInterval.nanos (l.pace client server)

/-- The rounds of the two ends refine the steps of the pace. -/
theorem Paced.pace (hclient : client.direction = .outgoing)
    (hserver : server.direction = .incoming) {l l' : Link} (h : Paced client server l)
    (hstep : Step ord client server l l') : Calm client l'.client ∧ Calm server l'.server ∧
      Pace.Step client.config.keepaliveInterval.nanos server.config.keepaliveInterval.nanos
        (l.pace client server) (l'.pace client server) := by
  obtain ⟨hcalmClient, hcalmServer, htime⟩ := h
  have hpending := htime.pending_le
  simp only [Pace.pending, Link.pace] at hpending
  cases hstep with
  | tickClient e htick =>
    have hroom : (l.client.queue client).length < peerTxBufferSize := by
      rw [peerTxBufferSize]
      omega
    obtain ⟨hcalm, hdue, hnext, hlast, hinbox, hqueue⟩ := htick.of_outgoing hcalmClient hclient hroom
    refine ⟨hcalm, hcalmServer, ?_⟩
    simp only [Link.pace, hnext, hlast, hinbox, hqueue]
    exact .tickClient hdue
  | tickServer e htick =>
    obtain ⟨hcalm, hdue, hnext, hlast, hinbox, hqueue⟩ := htick.of_incoming hcalmServer hserver
    refine ⟨hcalmClient, hcalm, ?_⟩
    simp only [Link.pace, hnext, hlast, hinbox, hqueue]
    exact .tickServer hdue
  | writeClient m e hwrite =>
    obtain ⟨hcalm, rfl, hnext, hlast, hinbox, hqueue⟩ := hwrite.calm hcalmClient
    refine ⟨hcalm, hcalmServer.deliver, ?_⟩
    simp only [Link.pace, hnext, hlast, hinbox, Endpoint.deliver, List.length_append,
      List.length_singleton]
    exact .writeClient _ hqueue
  | writeServer m e hwrite =>
    obtain ⟨hcalm, rfl, hnext, hlast, hinbox, hqueue⟩ := hwrite.calm hcalmServer
    refine ⟨hcalmClient.deliver, hcalm, ?_⟩
    simp only [Link.pace, hnext, hlast, hinbox, Endpoint.deliver, List.length_append,
      List.length_singleton]
    exact .writeServer _ hqueue
  | receiveClient e hreceive =>
    obtain ⟨hcalm, hnext, hlast, hinbox, hqueue⟩ := hreceive.of_outgoing hcalmClient hclient
    refine ⟨hcalm, hcalmServer, ?_⟩
    simp only [Link.pace, hnext, hlast, hqueue]
    exact .receiveClient _ hinbox
  | receiveServer e hreceive =>
    have hroom : (l.server.queue server).length < peerTxBufferSize := by
      rw [peerTxBufferSize]
      omega
    obtain ⟨hcalm, hnext, hlast, hinbox, hqueue⟩ :=
      hreceive.of_incoming hcalmServer hserver hroom
    refine ⟨hcalmClient, hcalm, ?_⟩
    simp only [Link.pace, hnext, hlast, hqueue, List.length_append, List.length_singleton]
    exact .receiveServer _ hinbox
  | pass now hle hclientTick hserverTick hq hq' hi hi' =>
    refine ⟨hcalmClient, hcalmServer, ?_⟩
    have hlen {ms : List GeneratedMessage} (h : ms = []) : ms.length = 0 := by rw [h]; rfl
    exact .pass now hle hclientTick hserverTick (hlen hq) (hlen hq') (hlen hi) (hlen hi')

theorem Paced.step (hclient : client.direction = .outgoing)
    (hserver : server.direction = .incoming) (hc : 0 < client.config.keepaliveInterval.nanos)
    {l l' : Link} (h : Paced client server l) (hstep : Step ord client server l l') :
    Paced client server l' := by
  obtain ⟨hcalmClient, hcalmServer, hpace⟩ := h.pace hclient hserver hstep
  exact ⟨hcalmClient, hcalmServer, h.onTime.step hc hpace⟩

theorem Begins.paced {l : Link} (h : Begins client server l) : Paced client server l := by
  obtain ⟨hclient, hserver⟩ := h
  have hcalm {self : Peer} {e : Endpoint} (hfresh : Fresh self l.now e) : Calm self e := by
    refine ⟨hfresh.running, ?_, ?_⟩
    · rw [hfresh.queue]
      simp
    · rw [hfresh.inbox]
      simp
  refine ⟨hcalm hclient, hcalm hserver, ?_⟩
  have hnow : (l.pace client server).now ≤ (l.pace client server).tickClient := hclient.now_le
  have htick : (l.pace client server).tickClient ≤ (l.pace client server).now +
    client.config.keepaliveInterval.nanos := hclient.nextTick_le
  simp only [Link.pace] at hnow htick
  constructor <;>
    simp only [Pace.pending, Link.pace, hclient.queue, hclient.inbox, hclient.lastFrame,
      hserver.queue, hserver.inbox, hserver.lastFrame, List.length_nil,
      implies_true] <;> omega

theorem Calm.compatible {e : Endpoint} {now : Instant} (h : Calm client e) {c : ℕ}
    (hgap : now ≤ e.lastFrame + c)
    (htimeout : ∀ d, Timers.timeoutDuration client.config = some d → c < d.nanos) :
    Compatible client now e := by
  obtain ⟨d, hd⟩ := Option.isSome_iff_exists.mp h.timeout
  have hlt : e.lastFrame + c < e.lastFrame + d.nanos := Nat.add_lt_add_left (htimeout d hd) _
  refine ⟨⟨d, hd, hgap.trans hlt.le⟩, fun later hready ↦ ?_⟩
  obtain ⟨-, -, deadline, hdeadline, hle⟩ := hready
  obtain ⟨d', hd', rfl⟩ := h.deadline deadline hdeadline
  obtain rfl := Option.some.inj (hd.symm.trans hd')
  exact hlt.not_ge (hle.trans hgap)

/-- As long as the client's interval is below both timeouts. -/
theorem compatible_of_run (hclient : client.direction = .outgoing)
    (hserver : server.direction = .incoming) (hc : 0 < client.config.keepaliveInterval.nanos)
    {l l' : Link} (hbegins : Begins client server l) (hrun : Run (Step ord client server) l l')
    (htimeoutClient : ∀ d, Timers.timeoutDuration client.config = some d →
      client.config.keepaliveInterval.nanos < d.nanos)
    (htimeoutServer : ∀ d, Timers.timeoutDuration server.config = some d →
      client.config.keepaliveInterval.nanos < d.nanos) :
    Compatible client l'.now l'.client ∧ Compatible server l'.now l'.server := by
  have hpaced : Paced client server l' := hrun.invariant hbegins.paced fun _ _ h hstep ↦
    h.step hclient hserver hc hstep
  exact ⟨hpaced.clientCalm.compatible hpaced.onTime.gapClient htimeoutClient,
    hpaced.serverCalm.compatible hpaced.onTime.gapServer htimeoutServer⟩

end Run

section Overdue

variable {ord : HashOrder} {client server : Peer}

def idle (peer : Peer) (deadline : Option Instant) (nextTick : Instant) : Endpoint where
  node := peer.withCell (Sample.node true) { PeerCell.new with state := .established }
  timers := ⟨some peer.config.keepaliveInterval, deadline⟩
  nextTick := nextTick
  lastFrame := 0
  inbox := []

theorem queue_idle (peer : Peer) (deadline : Option Instant) (nextTick : Instant) :
    (idle peer deadline nextTick).queue peer = [] := by
  rw [Endpoint.queue, idle, cellOf_withCell]
  rfl

theorem fresh_idle {peer : Peer} {timeout : Duration}
    (htimeout : Timers.timeoutDuration peer.config = some timeout) :
    Fresh peer 0 (idle peer (some timeout.nanos) peer.config.keepaliveInterval.nanos) where
  running := by
    refine ⟨congrArg PeerCell.state (cellOf_withCell ..), ?_, ?_, rfl, fun deadline hd ↦ ?_⟩
    · exact congrArg (fun c : PeerCell ↦ c.tx.closed) (cellOf_withCell ..)
    · rw [htimeout]
      rfl
    · cases hd
      exact ⟨timeout, htimeout, (Nat.zero_add _).symm⟩
  lastFrame := rfl
  now_le := Nat.zero_le _
  nextTick_le := (Nat.zero_add _).ge
  queue := queue_idle ..
  inbox := rfl

theorem ticks_idle {peer : Peer} {deadline : Option Instant} {nextTick now : Instant}
    (hdir : peer.direction = .incoming) (hdue : nextTick ≤ now) (polled : Bool) :
    Ticks ord peer now (idle peer deadline nextTick)
      (idle peer (if polled then none else deadline)
        (now + peer.config.keepaliveInterval.nanos)) := by
  have hround := @round_idled ord peer ⟨polled, .tick, now, now⟩ rfl (by rw [hdir]; decide)
    (idle peer deadline nextTick).timers (idle peer deadline nextTick).node
  cases polled <;> exact .mk _ _ _ _ hdue rfl hround

theorem step_idle {deadline deadline' : Option Instant} {now now' tick tick' : Instant}
    (hle : now ≤ now') (hclient : now' ≤ tick) (hserver : now' ≤ tick') :
    Step ord client server ⟨now, idle client deadline tick, idle server deadline' tick'⟩
      ⟨now', idle client deadline tick, idle server deadline' tick'⟩ :=
  .pass now' hle hclient hserver (queue_idle ..) (queue_idle ..) rfl rfl

theorem run_idle (hserver : server.direction = .incoming) (deadline deadline' : Option Instant)
    (polled : Bool) {now tick : ℕ} (htwo : 2 * server.config.keepaliveInterval.nanos ≤ now)
    (hthree : now ≤ 3 * server.config.keepaliveInterval.nanos) (hclient : now ≤ tick) :
    Run (Step ord client server)
      ⟨0, idle client deadline tick, idle server deadline' server.config.keepaliveInterval.nanos⟩
      ⟨now, idle client deadline tick, idle server (if polled then none else deadline')
        (3 * server.config.keepaliveInterval.nanos)⟩ := by
  let after : Option Instant := if polled then none else deadline'
  have hagain : (if polled then none else after) = after := by cases polled <;> rfl
  have hticks (d : Option Instant) (now : ℕ) :=
    @ticks_idle ord server d _ _ hserver (Nat.le_refl now) polled
  generalize server.config.keepaliveInterval.nanos = s at *
  have hfirst : Step ord client server ⟨s, idle client deadline tick, idle server deadline' s⟩
      ⟨s, idle client deadline tick, idle server after (s + s)⟩ := .tickServer _ (hticks _ s)
  have hsecond : Step ord client server
      ⟨s + s, idle client deadline tick, idle server after (s + s)⟩
      ⟨s + s, idle client deadline tick, idle server after (s + s + s)⟩ := by
    have hagain := hagain ▸ hticks after (s + s)
    exact .tickServer _ hagain
  rw [show 3 * s = s + s + s by omega]
  have hle : s ≤ tick ∧ s + s ≤ tick ∧ s ≤ s + s ∧ s + s ≤ now ∧ now ≤ s + s + s := by omega
  obtain ⟨hone, hboth, hnext, hlast, hbefore⟩ := hle
  refine .cons (step_idle (Nat.zero_le s) hone (Nat.le_refl s)) (.cons hfirst ?_)
  refine .cons (step_idle hnext hboth (Nat.le_refl (s + s))) (.cons hsecond ?_)
  exact .cons (step_idle hlast hclient hbefore) .refl

variable (hserver : server.direction = .incoming) {timeout timeout' : Duration}
variable (htimeout : Timers.timeoutDuration client.config = some timeout)
variable (htimeout' : Timers.timeoutDuration server.config = some timeout')
variable (htwo : 2 * server.config.keepaliveInterval.nanos ≤ timeout'.nanos)

include hserver htimeout htimeout' htwo

/-- The server waits for longer than its timeout. -/
theorem exists_overdue (hthree : timeout'.nanos < 3 * server.config.keepaliveInterval.nanos)
    (hlong : timeout'.nanos < client.config.keepaliveInterval.nanos) :
    ∃ l₀ l, Begins client server l₀ ∧ Run (Step ord client server) l₀ l ∧
      ¬ Compatible server l.now l.server := by
  have hrun := @run_idle ord client server hserver (some timeout.nanos) (some timeout'.nanos) true
    _ _ (Nat.le_succ_of_le htwo) hthree hlong
  refine ⟨_, _, ⟨fresh_idle htimeout, fresh_idle htimeout'⟩, hrun, fun hcompatible ↦ ?_⟩
  obtain ⟨d, hd, hgap⟩ := hcompatible.gap
  obtain rfl := Option.some.inj (hd.symm.trans htimeout')
  exact absurd hgap (by simp [idle])

/-- The next frame comes at the moment at which the timeout of the server is over, and a round
that polls the timeout branch first ends with it. -/
theorem exists_due (hthree : timeout'.nanos ≤ 3 * server.config.keepaliveInterval.nanos)
    (hlong : timeout'.nanos ≤ client.config.keepaliveInterval.nanos) :
    ∃ l₀ l, Begins client server l₀ ∧ Run (Step ord client server) l₀ l ∧
      ¬ Compatible server l.now l.server := by
  have hrun := @run_idle ord client server hserver (some timeout.nanos) (some timeout'.nanos) false
    _ _ htwo hthree hlong
  refine ⟨_, _, ⟨fresh_idle htimeout, fresh_idle htimeout'⟩, hrun, fun hcompatible ↦ ?_⟩
  exact hcompatible.kept 0 ⟨fun _ ↦ rfl, rfl, timeout'.nanos, rfl, Nat.le_refl _⟩

end Overdue

theorem nanos_timeoutDuration {config : Config} {secs : UInt64}
    (h : config.keepaliveInterval = .fromSecs secs) {d : Duration}
    (hd : Timers.timeoutDuration config = some d) : 2 * d.nanos = 5 * (secs.toNat * 10 ^ 9) := by
  obtain ⟨d', hmul, rfl⟩ := Option.map_eq_some_iff.mp hd
  rw [h, Duration.mul] at hmul
  split at hmul
  · cases hmul
    change 2 * (secs.toNat * 10 ^ 9 * 5 / 2) = _
    omega
  · cases hmul

section Seconds

variable {client server : Peer} {c s : UInt64}

theorem nanos_eq {config : Config} {secs : UInt64} (h : config.keepaliveInterval = .fromSecs secs) :
    config.keepaliveInterval.nanos = secs.toNat * 10 ^ 9 := by
  rw [h]
  rfl

theorem KeepsPace.lt (h : KeepsPace client server) (hserver : server.direction = .incoming)
    (hc : client.config.keepaliveInterval = .fromSecs c)
    (hs : server.config.keepaliveInterval = .fromSecs s)
    (hfitsClient : c.toNat * 5 < 2 ^ 64) (hfitsServer : s.toNat * 5 < 2 ^ 64) :
    2 * c.toNat < 5 * s.toNat := by
  obtain ⟨d, hd⟩ := Option.isSome_iff_exists.mp ((Timers.isSome_timeoutDuration hc).mpr hfitsClient)
  obtain ⟨d', hd'⟩ :=
    Option.isSome_iff_exists.mp ((Timers.isSome_timeoutDuration hs).mpr hfitsServer)
  have hnanos := nanos_timeoutDuration hs hd'
  have hcnanos := nanos_eq hc
  have hsnanos := nanos_eq hs
  by_contra hlong
  by_cases hmore : 5 * s.toNat < 2 * c.toNat ∧ 0 < s.toNat
  · obtain ⟨l₀, l, hbegins, hrun, hoverdue⟩ := @exists_overdue .toList client server hserver _ _
      hd hd' (by omega) (by omega) (by omega)
    exact hoverdue (h _ l₀ l hbegins hrun).2
  · obtain ⟨l₀, l, hbegins, hrun, hdue⟩ := @exists_due .toList client server hserver _ _
      hd hd' (by omega) (by omega) (by omega)
    exact hdue (h _ l₀ l hbegins hrun).2

/-- The timeout of the server counts from its own interval and not from the one that the client
announces: frames keep coming in time exactly if the client's interval is shorter than 2.5
intervals of the server, unless a timeout cannot even be computed. -/
theorem keepsPace_iff (hclient : client.direction = .outgoing)
    (hserver : server.direction = .incoming)
    (hc : client.config.keepaliveInterval = .fromSecs c)
    (hs : server.config.keepaliveInterval = .fromSecs s) (hpos : 1 ≤ c) :
    KeepsPace client server ↔
      (c.toNat * 5 < 2 ^ 64 → s.toNat * 5 < 2 ^ 64 → 2 * c.toNat < 5 * s.toNat) := by
  refine ⟨fun h ↦ h.lt hserver hc hs, fun hshort ord l₀ l hbegins hrun ↦ ?_⟩
  have hcnat : 1 ≤ c.toNat := UInt64.le_iff_toNat_le.mp hpos
  have hcnanos := nanos_eq hc
  have hlt := hshort ((Timers.isSome_timeoutDuration hc).mp hbegins.client.running.timeout)
    ((Timers.isSome_timeoutDuration hs).mp hbegins.server.running.timeout)
  refine compatible_of_run hclient hserver (by omega) hbegins hrun ?_ ?_
  · intro d hd
    have hnanos := nanos_timeoutDuration hc hd
    omega
  · intro d hd
    have hnanos := nanos_timeoutDuration hs hd
    omega

end Seconds

def configured (direction : ConnectionDirection) (secs : UInt64) : Peer :=
  ⟨0, { (default : Config) with keepaliveInterval := .fromSecs secs }, Sample.addr 1, direction⟩

theorem keepsPace_iff_five : KeepsPace (configured .outgoing 5) (configured .incoming 5) ↔
    ((5 : UInt64).toNat * 5 < 2 ^ 64 → (5 : UInt64).toNat * 5 < 2 ^ 64 →
      2 * (5 : UInt64).toNat < 5 * (5 : UInt64).toNat) :=
  keepsPace_iff rfl rfl rfl rfl (by decide)

/-- A client that sends every minute and a server with the default of five seconds. -/
theorem not_keepsPace_of_long : ¬ ∀ (client server : Peer) (c s : UInt64),
    client.direction = .outgoing → server.direction = .incoming →
    client.config.keepaliveInterval = .fromSecs c →
    server.config.keepaliveInterval = .fromSecs s → 1 ≤ c → 1 ≤ s → KeepsPace client server := by
  intro hall
  have hkeeps := hall (configured .outgoing 60) (configured .incoming 5) 60 5 rfl rfl rfl rfl
    (by decide) (by decide)
  have hlt : 2 * (60 : UInt64).toNat < 5 * (5 : UInt64).toNat :=
    hkeeps.lt rfl rfl rfl (by decide) (by decide)
  revert hlt
  decide

end MetalBond.KeepaliveGaps
