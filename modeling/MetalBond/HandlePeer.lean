import MetalBond.PeerCode

namespace MetalBond

open Async Task Collections HashMap

abbrev Instant := ℕ

/-- The deadline a span of time after an instant; it panics when the clock cannot show it. -/
def Instant.add (now : Instant) (d : Duration) : Option Instant :=
  if now + d.nanos < 2 ^ 63 * 10 ^ 9 then some (now + d.nanos) else none

/-- The two timers of a connection: the ticker, by its period, and the deadline by which
the next frame has to arrive. -/
structure Timers where
  keepaliveInterval : Option Duration
  keepaliveTimeout : Option Instant
  deriving DecidableEq

namespace Timers

def off : Timers := ⟨none, none⟩

/-- Polling the timeout branch takes the deadline out; it is not put back when another
branch wins. -/
def polled (t : Timers) (p : Bool) : Timers := if p then { t with keepaliveTimeout := none } else t

def timeoutDuration (config : Config) : Option Duration :=
  (config.keepaliveInterval.mul 5).map fun d ↦ d.div 2

/-- A frame postpones the deadline, if there is one. -/
def reset (config : Config) (now : Instant) (t : Timers) : Option Timers :=
  match t.keepaliveTimeout with
  | none => some t
  | some _ =>
    match timeoutDuration config with
    | none => none
    | some d => (now.add d).map fun deadline ↦ { t with keepaliveTimeout := some deadline }

/-- A ticker of period zero panics. -/
def start (config : Config) (now : Instant) : Option Timers :=
  match timeoutDuration config with
  | none => none
  | some d =>
    if config.keepaliveInterval.nanos = 0 then none
    else (now.add d).map fun deadline ↦ ⟨some config.keepaliveInterval, some deadline⟩

end Timers

inductive Frame
  | message (msg : GeneratedMessage)
  | error
  | eof

inductive Branch
  | shutdown
  | frame (f : Frame)
  | outgoing (sent : Bool)
  | tick
  | timeout

/-- One round of `select!`: whether it polled the timeout branch, which branch won, and
what the clock shows when the handler starts and when it has processed a message. -/
structure Round where
  polled : Bool
  won : Branch
  now : Instant
  later : Instant

inductive Next
  | again (t : Timers)
  | returned
  | panicked

namespace Peer

variable (ord : HashOrder) (self : Peer)

def closeAndTrigger : Code Unit := do
  self.setState ord .closed
  self.triggerShutdown

def startKeepalive (later : Instant) (t : Timers) : Code Next := do
  let state ← self.getState
  if state = .established ∧ t.keepaliveInterval = none then
    match Timers.start self.config later with
    | none => return .panicked
    | some t =>
      if self.direction = .outgoing then
        let r ← self.sendKeepalive
        self.shutdownOnError r
        return .again t
      else
        return .again t
  else
    return .again t

def handleMessage (now later : Instant) (t : Timers) (msg : GeneratedMessage) : Code Next :=
  match t.reset self.config now with
  | none => return .panicked
  | some t => do
    match ← self.process ord msg with
    | .error _ =>
      self.closeAndTrigger ord
      return .again t
    | .ok _ => self.startKeepalive later t

def takeOutgoing (w : World) : World :=
  match (w.cell self.id).tx.recv with
  | none => w
  | some (_, tx) => w.modifyCell self.id fun c ↦ { c with tx := tx }

/-- The handler of the branch that won, with the timers that polling has left. -/
def handleBranch (r : Round) (t : Timers) : Code Next :=
  match r.won with
  | .shutdown => do
    modify fun w ↦ w.modifyCell self.id fun c ↦ { c with shutdownSignal := false }
    self.setState ord .closed
    return .returned
  | .frame (.message msg) => self.handleMessage ord r.now r.later t msg
  | .frame .error => do
    self.closeAndTrigger ord
    return .again t
  | .frame .eof => do
    self.closeAndTrigger ord
    return .again t
  | .outgoing sent => do
    modify self.takeOutgoing
    if sent then
      return .again t
    else
      self.closeAndTrigger ord
      return .again t
  | .tick => do
    let state ← self.getState
    if self.direction = .outgoing ∧ state = .established then
      let r ← self.sendKeepalive
      self.shutdownOnError r
      return .again t
    else
      return .again t
  | .timeout => do
    self.closeAndTrigger ord
    return .again t

def selectRound (r : Round) (t : Timers) : Code Next := self.handleBranch ord r (t.polled r.polled)

/-- What `handle_peer` does before its loop; the result is whether it gets there. -/
def startPeer : Code Bool :=
  match self.direction with
  | .outgoing => do
    let isServer ← reading .metalbondState fun w ↦ w.mb.isServer
    match ← self.sendHello isServer with
    | .error _ =>
      self.setState ord .closed
      return false
    | .ok _ =>
      self.setState ord .helloSent
      return true
  | .incoming => do
    self.setState ord .connecting
    return true

def Ready (c : PeerCell) (t : Timers) (r : Round) : Prop :=
  (r.polled → t.keepaliveTimeout.isSome) ∧
    match r.won with
    | .shutdown => c.shutdownSignal = true
    | .frame _ => True
    | .outgoing _ => c.tx.queue ≠ []
    | .tick => t.keepaliveInterval.isSome
    | .timeout => r.polled ∧ ∃ deadline ∈ t.keepaliveTimeout, deadline ≤ r.now

end Peer

inductive Phase
  | starting
  | running (t : Timers)
  | returned
  | panicked
  /-- It waits forever for a guard that it excludes itself. -/
  | blocked
  deriving DecidableEq

structure Connection where
  node : Node
  phase : Phase

namespace Connection

variable (ord : HashOrder) (self : Peer)

def afterRound : Outcome Lock World InternalUpdate Next → Connection
  | .done (.again t) _ s => ⟨s, .running t⟩
  | .done .returned _ s => ⟨s, .returned⟩
  | .done .panicked _ s => ⟨s, .panicked⟩
  | .blocked _ _ s => ⟨s, .blocked⟩

def afterStart : Outcome Lock World InternalUpdate Bool → Connection
  | .done true _ s => ⟨s, .running .off⟩
  | .done false _ s => ⟨s, .returned⟩
  | .blocked _ _ s => ⟨s, .blocked⟩

def start (s : Node) : Connection := afterStart (exec [] (self.startPeer ord) s)

def round (r : Round) (t : Timers) (s : Node) : Connection :=
  afterRound (exec [] (self.selectRound ord r t) s)

end Connection

end MetalBond
