import MetalBond.PeerCode

namespace MetalBond

open Async Task Collections HashMap Peer

section Calls

-- `parse` reads a socket address from a string.
variable (parse : String → Option SocketAddr)
variable (ord : HashOrder)

/-- A new management task starts with its target as the only thing known of it. -/
def spawnManager (addr : SocketAddr) (w : World) : World :=
  { w with
    mb := { w.mb with peerTasks := w.mb.peerTasks.insert addr w.spawned.length }
    spawned := w.spawned ++ [addr] }

def addPeer (serverAddr : String) : Code (Except Error Unit) :=
  match parse serverAddr with
  | none => return .error (.invalidServerAddress serverAddr)
  | some addr => do
    let isServer ← reading .metalbondState fun w ↦ w.mb.isServer
    if isServer then
      return .error .addPeerInServerMode
    else
      acquire .metalbondState .write
      let known ← gets fun w ↦ decide (addr ∈ w.mb.peers ∨ addr ∈ w.mb.peerTasks)
      if known then
        release .metalbondState .write
        return .error (.alreadyAdded addr)
      else
        modify (spawnManager addr)
        release .metalbondState .write
        return .ok ()

def abortManager (addr : SocketAddr) (w : World) : World :=
  match w.mb.peerTasks.lookup addr with
  | none => w
  | some task =>
    { w with
      mb := { w.mb with peerTasks := w.mb.peerTasks.erase addr }
      aborted := insert task w.aborted }

def shutdownPeer (addr : SocketAddr) (w : World) : World :=
  match w.mb.peers.lookup addr with
  | none => w
  | some peer => w.modifyCell peer.id fun c ↦ { c with shutdownSignal := true }

def removePeer (addrStr : String) : Code (Except Error Unit) :=
  match parse addrStr with
  | none => return .error (.invalidPeerAddress addrStr)
  | some addr => do
    acquire .metalbondState .write
    modify (abortManager addr)
    modify (shutdownPeer addr)
    let removed ← removeRoutesFromPeer ord addr
    sendRemovals addr removed
    release .metalbondState .write
    return .ok ()

def peerList (peers : HashMap SocketAddr Peer) : List Peer :=
  (ord.list peers.keys).filterMap peers.lookup

/-- `send` to each established peer; a failed send is only logged. -/
def notifyEstablished (send : Peer → Code (Except Error Unit)) : List Peer → Code Unit
  | [] => return ()
  | peer :: rest => do
    let state ← peer.getState
    if state = .established then
      let _ ← send peer
      notifyEstablished send rest
    else
      notifyEstablished send rest

def callClient (call : ClientCall) : Code Bool :=
  update fun w ↦
    let r := w.client.call call
    (r.1, { w with client := r.2 })

def announceSubscription (vni : Vni) (send : Peer → Code (Except Error Unit))
    (peers : List Peer) : Code (Except Error Unit) := do
  notifyEstablished send peers
  acquire .metalbondState .read
  let ok ← callClient (.clearRoutesForVni vni)
  release .metalbondState .read
  return if ok then .ok () else .error .client

def subscribe (vni : Vni) : Code (Except Error Unit) := do
  acquire .metalbondState .write
  let isServer ← gets fun w ↦ w.mb.isServer
  if isServer then
    release .metalbondState .write
    return .error .subscribeInServerMode
  else
    let inserted ← update fun w ↦ (decide (vni ∉ w.mb.mySubscriptions), w.modifyMb fun mb ↦
      { mb with mySubscriptions := insert vni mb.mySubscriptions })
    if inserted then
      let peers ← gets fun w ↦ peerList ord w.mb.peers
      release .metalbondState .write
      announceSubscription vni (·.sendSubscribe vni) peers
    else
      release .metalbondState .write
      return .ok ()

def unsubscribe (vni : Vni) : Code (Except Error Unit) := do
  acquire .metalbondState .write
  let isServer ← gets fun w ↦ w.mb.isServer
  if isServer then
    release .metalbondState .write
    return .error .unsubscribeInServerMode
  else
    let removed ← update fun w ↦ (decide (vni ∈ w.mb.mySubscriptions), w.modifyMb fun mb ↦
      { mb with mySubscriptions := mb.mySubscriptions.erase vni })
    if removed then
      let peers ← gets fun w ↦ peerList ord w.mb.peers
      release .metalbondState .write
      announceSubscription vni (·.sendUnsubscribe vni) peers
    else
      release .metalbondState .write
      return .ok ()

def addAnnouncement (vni : Vni) (dest : Destination) (nh : NextHop) (w : World) : World :=
  w.modifyMb fun mb ↦
    { mb with myAnnouncements := (mb.myAnnouncements.addNextHop vni dest nh none).2 }

/-- An `Add` goes out even when the route was announced before. -/
def announceRoute (vni : Vni) (dest : Destination) (nh : NextHop) : Code (Except Error Unit) := do
  acquire .metalbondState .write
  modify (addAnnouncement vni dest nh)
  let sent ← sendOn ⟨.add, vni, dest, nh, none⟩
  release .metalbondState .write
  return if sent then .ok () else .error .announcementNotSent

def removeAnnouncement (vni : Vni) (dest : Destination) (nh : NextHop) (w : World) :
    Except Error ℕ × World :=
  match w.mb.myAnnouncements.removeNextHop vni dest nh none with
  | .error e => (.error e, w)
  | .ok (remaining, t) => (.ok remaining, w.modifyMb fun mb ↦ { mb with myAnnouncements := t })

def withdrawRoute (vni : Vni) (dest : Destination) (nh : NextHop) : Code (Except Error Unit) := do
  acquire .metalbondState .write
  match ← update (removeAnnouncement vni dest nh) with
  | .ok 0 =>
    let sent ← sendOn ⟨.remove, vni, dest, nh, none⟩
    release .metalbondState .write
    return if sent then .ok () else .error .withdrawalNotSent
  | .ok _ =>
    release .metalbondState .write
    return .ok ()
  | .error _ =>
    release .metalbondState .write
    return .ok ()

end Calls

def sourceIsServer : Option SocketAddr → Code Bool
  | none => gets fun w ↦ w.mb.isServer
  | some addr => do
    match ← gets fun w ↦ w.mb.peers.lookup addr with
    | none => return false
    | some source =>
      reading (.isRemoteServer source.id) fun w ↦ (w.cell source.id).isRemoteServer

def forward (update : InternalUpdate) (peer : Peer) : Code Unit := do
  if some peer.remoteAddr = update.sourcePeer ∧ update.nextHop.hopType = .nat then
    return ()
  else
    let source ← sourceIsServer update.sourcePeer
    let target ← reading (.isRemoteServer peer.id) fun w ↦ (w.cell peer.id).isRemoteServer
    if source && target then
      return ()
    else
      let _ ← peer.sendUpdate update.action update.vni update.destination update.nextHop
      return ()

def forwardAll (update : InternalUpdate) : List Peer → Code Unit
  | [] => return ()
  | peer :: rest => do
    forward update peer
    forwardAll update rest

def clientCall (update : InternalUpdate) : ClientCall :=
  match update.action with
  | .add => .addRoute update.vni update.destination update.nextHop
  | .remove => .removeRoute update.vni update.destination update.nextHop

def peersToNotify (ord : HashOrder) (vni : Vni) (mb : MetalBondState) : List Peer :=
  (ord.list (valueAt mb.subscribers vni)).filterMap mb.peers.lookup

/-- What the distributor does with one update that it received. -/
def distribute (ord : HashOrder) (update : InternalUpdate) : Code (Except Error Unit) := do
  acquire .metalbondState .read
  let _ ← callClient (clientCall update)
  let peers ← gets fun w ↦ peersToNotify ord update.vni w.mb
  forwardAll update peers
  release .metalbondState .read
  return .ok ()

end MetalBond
