import MetalBond.State

namespace MetalBond

open Async Task Collections HashMap

def PeerCell.trySend (c : PeerCell) (msg : GeneratedMessage) : Except Error Unit × PeerCell :=
  match c.tx.trySend msg with
  | .ok tx => (.ok (), { c with tx := tx })
  | .error .full => (.error .txChannelFull, c)
  | .error .closed => (.error .txChannelClosed, c)

namespace Peer

variable (ord : HashOrder) (self : Peer)

def getState : Code ConnectionState :=
  reading (.peerState self.id) fun w ↦ (w.cell self.id).state

def triggerShutdown : Code Unit :=
  modify fun w ↦ w.modifyCell self.id fun c ↦ { c with shutdownSignal := true }

def sendMessage (msg : GeneratedMessage) : Code (Except Error Unit) :=
  update fun w ↦
    let r := (w.cell self.id).trySend msg
    (r.1, w.setCell self.id r.2)

def sendHello (isServer : Bool) : Code (Except Error Unit) :=
  self.sendMessage (.hello ⟨self.config.keepaliveInterval.asSecs.toUInt32, isServer⟩)

def sendKeepalive : Code (Except Error Unit) := self.sendMessage .keepalive

def sendSubscribe (vni : Vni) : Code (Except Error Unit) := self.sendMessage (.subscribe ⟨vni⟩)

def sendUnsubscribe (vni : Vni) : Code (Except Error Unit) := self.sendMessage (.unsubscribe ⟨vni⟩)

def sendUpdate (action : UpdateAction) (vni : Vni) (dest : Destination) (nh : NextHop) :
    Code (Except Error Unit) :=
  self.sendMessage (updateMessage action vni dest nh)

/-- One `Remove` for each route, in order; a failed send is only logged. -/
def sendRemovals (source : SocketAddr) : List Route → Code Unit
  | [] => return ()
  | (vni, dest, nh) :: rest => do
    let _ ← sendOn ⟨.remove, vni, dest, nh, some source⟩
    sendRemovals source rest

def removeRoutesFromPeer (source : SocketAddr) : Code (List Route) :=
  update fun w ↦
    let r := w.mb.routeTable.removeRoutesFromPeer ord source
    (r.1, w.modifyMb fun mb ↦ { mb with routeTable := r.2 })

/-- Take an address out of the subscribers of some VNIs, leaving every VNI its entry. -/
def forgetSubscriber (addr : SocketAddr) (vnis : Finset Vni)
    (subscribers : HashMap Vni (Finset SocketAddr)) : HashMap Vni (Finset SocketAddr) :=
  filterMap (fun vni peerSet ↦ some (if vni ∈ vnis then peerSet.erase addr else peerSet))
    subscribers

def dropSubscriptions : Code Unit := do
  acquire (.subscribedVnisRemote self.id) .write
  let remoteSubs ← gets fun w ↦ (w.cell self.id).subscribedVnisRemote
  if remoteSubs = ∅ then
    release (.subscribedVnisRemote self.id) .write
  else
    acquire .metalbondState .write
    modify fun w ↦ w.modifyMb fun mb ↦
      { mb with subscribers := forgetSubscriber self.remoteAddr remoteSubs mb.subscribers }
    modify fun w ↦ w.modifyCell self.id fun c ↦ { c with subscribedVnisRemote := ∅ }
    release .metalbondState .write
    release (.subscribedVnisRemote self.id) .write

/-- The read guard of the shared state lives until the end, past the request for the
write guard. -/
def cleanupPeerState : Code Unit := do
  acquire .metalbondState .read
  let removed ← removeRoutesFromPeer ord self.remoteAddr
  sendRemovals self.remoteAddr removed
  self.dropSubscriptions
  release .metalbondState .read

def shutdownOnError : Except Error Unit → Code Unit
  | .ok _ => return ()
  | .error _ => self.triggerShutdown

def sendInitialSubscribes : List Vni → Code Unit
  | [] => return ()
  | vni :: rest => do
    let r ← self.sendSubscribe vni
    self.shutdownOnError r
    sendInitialSubscribes rest

def sendInitialAnnouncements : List Route → Code Unit
  | [] => return ()
  | (vni, dest, hop) :: rest => do
    match ← self.sendUpdate .add vni dest hop with
    | .ok _ => sendInitialAnnouncements rest
    | .error _ => self.triggerShutdown

/-- The order in which the nested loops visit the announcements. -/
def announcementList (announcements : HashMap Vni (HashMap Destination (Finset NextHop))) :
    List Route :=
  (ord.list announcements.keys).flatMap fun vni ↦
    let destMap := valueAt announcements vni
    (ord.list destMap.keys).flatMap fun dest ↦
      (ord.list (valueAt destMap dest)).map fun hop ↦ (vni, dest, hop)

def initialSync : Code Unit := do
  let localSubs ← reading .metalbondState fun w ↦ w.mb.mySubscriptions
  self.sendInitialSubscribes (ord.list localSubs)
  let localAnnouncements ← reading .metalbondState fun w ↦
    w.mb.myAnnouncements.getLocalAnnouncements
  self.sendInitialAnnouncements (announcementList ord localAnnouncements)

def setState (newState : ConnectionState) : Code Unit := do
  acquire (.peerState self.id) .write
  let oldState ← gets fun w ↦ (w.cell self.id).state
  if oldState = newState then
    release (.peerState self.id) .write
  else
    modify fun w ↦ w.modifyCell self.id fun c ↦ { c with state := newState }
    release (.peerState self.id) .write
    if newState = .established ∧ oldState ≠ .established then
      self.initialSync ord
    else if newState ≠ .established ∧ oldState = .established then
      self.cleanupPeerState ord
    else
      return ()

def processHello (hello : Pb.Hello) : Code (Except Error Unit) := do
  if hello.keepaliveInterval = 0 then
    return .error .zeroKeepaliveInterval
  else
    writing (.isRemoteServer self.id) fun w ↦
      ((), w.modifyCell self.id fun c ↦ { c with isRemoteServer := hello.isServer })
    let currentState ← self.getState
    match self.direction with
    | .incoming =>
      if currentState = .connecting ∨ currentState = .helloReceived then
        match ← self.sendHello true with
        | .error e => return .error (.context "Failed to send HELLO response" e)
        | .ok _ =>
          self.setState ord .helloSent
          return .ok ()
      else
        return .ok ()
    | .outgoing =>
      if currentState = .helloSent then
        self.setState ord .helloReceived
        return .ok ()
      else
        return .ok ()

def processKeepalive : Code (Except Error Unit) := do
  let currentState ← self.getState
  match self.direction with
  | .incoming =>
    if currentState = .helloSent then
      self.setState ord .established
      return .ok ()
    else if currentState = .established then
      let r ← self.sendKeepalive
      return withContext "Failed to send KEEPALIVE response" r
    else
      return .error .keepaliveInWrongState
  | .outgoing =>
    if currentState = .helloReceived then
      self.setState ord .established
      return .ok ()
    else if currentState = .established then
      return .ok ()
    else
      return .error .keepaliveInWrongState

def routeList (destMap : DestinationMap) : List (Destination × NextHop × Finset PeerKey) :=
  (ord.list destMap.keys).flatMap fun dest ↦
    let nhMap := valueAt destMap dest
    (ord.list nhMap.keys).map fun nh ↦ (dest, nh, valueAt nhMap nh)

/-- The test for server-to-server loops never fires: no source is asked for. -/
def isServerToServerLoop (isRemoteServer : Bool) (sources : Finset PeerKey) : Bool :=
  isRemoteServer && decide (∃ src ∈ sources, (fun _ : PeerKey ↦ False) src)

def sendExisting (vni : Vni) :
    List (Destination × NextHop × Finset PeerKey) → Code (Except Error Unit)
  | [] => return .ok ()
  | (dest, nh, sources) :: rest => do
    let isNatFromPeer := decide (nh.hopType = .nat ∧ some self.remoteAddr ∈ sources)
    let isRemoteServer ← reading (.isRemoteServer self.id) fun w ↦ (w.cell self.id).isRemoteServer
    if !isNatFromPeer && !isServerToServerLoop isRemoteServer sources then
      match ← self.sendUpdate .add vni dest nh with
      | .ok _ => sendExisting vni rest
      | .error e =>
        self.triggerShutdown
        return .error e
    else
      sendExisting vni rest

def sendSnapshot (vni : Vni) : Code (Except Error Unit) := do
  let routesToSend ← reading .metalbondState fun w ↦
    w.mb.routeTable.getDestinationsByVniWithPeer vni
  self.sendExisting vni (routeList ord routesToSend)

def recordSubscription (vni : Vni) (wasInserted : Bool) : Code (Except Error Unit) := do
  writing (.subscribedVnisRemote self.id) fun w ↦
    ((), w.modifyCell self.id fun c ↦
      { c with subscribedVnisRemote := insert vni c.subscribedVnisRemote })
  if wasInserted then
    self.sendSnapshot ord vni
  else
    return .ok ()

def addSubscriber (addr : SocketAddr) (vni : Vni) (w : World) : Bool × World :=
  let peerSet := valueAt w.mb.subscribers vni
  (decide (addr ∉ peerSet), w.modifyMb fun mb ↦
    { mb with subscribers := mb.subscribers.insert vni (insert addr peerSet) })

def processSubscribe (sub : Pb.Subscription) : Code (Except Error Unit) := do
  let wasInserted ← writing .metalbondState (addSubscriber self.remoteAddr sub.vni)
  self.recordSubscription ord sub.vni wasInserted

def removeSubscriber (addr : SocketAddr) (vni : Vni) (w : World) : Bool × World :=
  match w.mb.subscribers.lookup vni with
  | none => (false, w)
  | some peerSet => (decide (addr ∈ peerSet), w.modifyMb fun mb ↦
      { mb with subscribers := put mb.subscribers vni (peerSet.erase addr) })

def addNextHop (vni : Vni) (dest : Destination) (nh : NextHop) (source : PeerKey) (w : World) :
    Bool × World :=
  let r := w.mb.routeTable.addNextHop vni dest nh source
  (r.1, w.modifyMb fun mb ↦ { mb with routeTable := r.2 })

def removeNextHop (vni : Vni) (dest : Destination) (nh : NextHop) (source : PeerKey) (w : World) :
    Except Error ℕ × World :=
  match w.mb.routeTable.removeNextHop vni dest nh source with
  | .error e => (.error e, w)
  | .ok (remaining, t) => (.ok remaining, w.modifyMb fun mb ↦ { mb with routeTable := t })

def sendIfGone (update : InternalUpdate) : Except Error ℕ → Code Unit
  | .ok 0 => do
    let _ ← sendOn update
    return ()
  | .ok _ => return ()
  | .error _ => return ()

def removeLearned (vni : Vni) : List (Destination × NextHop × Finset PeerKey) → Code Unit
  | [] => return ()
  | (dest, nh, sources) :: rest => do
    if some self.remoteAddr ∈ sources then
      acquire .metalbondState .write
      let remaining ← update (removeNextHop vni dest nh (some self.remoteAddr))
      sendIfGone ⟨.remove, vni, dest, nh, some self.remoteAddr⟩ remaining
      release .metalbondState .write
      removeLearned vni rest
    else
      removeLearned vni rest

def recordUnsubscription (vni : Vni) (removed : Bool) : Code (Except Error Unit) := do
  writing (.subscribedVnisRemote self.id) fun w ↦
    ((), w.modifyCell self.id fun c ↦
      { c with subscribedVnisRemote := c.subscribedVnisRemote.erase vni })
  if removed then
    let routesToRemove ← reading .metalbondState fun w ↦
      w.mb.routeTable.getDestinationsByVniWithPeer vni
    self.removeLearned vni (routeList ord routesToRemove)
    return .ok ()
  else
    return .ok ()

def processUnsubscribe (unsub : Pb.Subscription) : Code (Except Error Unit) := do
  let removed ← writing .metalbondState (removeSubscriber self.remoteAddr unsub.vni)
  self.recordUnsubscription ord unsub.vni removed

/-- The count that decides what is passed on: 1 for a route that is new from this peer,
999 for one that it announced before. -/
def applyUpdate (action : UpdateAction) (vni : Vni) (dest : Destination) (nh : NextHop)
    (source : PeerKey) (w : World) : Except Error ℕ × World :=
  match action with
  | .add =>
    let r := addNextHop vni dest nh source w
    (.ok (if r.1 then 1 else 999), r.2)
  | .remove => removeNextHop vni dest nh source w

def sendChange (action : UpdateAction) (vni : Vni) (dest : Destination) (nh : NextHop)
    (source : PeerKey) : Except Error ℕ → Code Unit
  | .error _ => return ()
  | .ok n => do
    if n = 0 then
      let _ ← sendOn ⟨.remove, vni, dest, nh, source⟩
      return ()
    else if n = 1 ∧ action = .add then
      let _ ← sendOn ⟨.add, vni, dest, nh, source⟩
      return ()
    else
      return ()

def storeUpdate (action : UpdateAction) (vni : Vni) (dest : Destination) (nh : NextHop) :
    Code (Except Error Unit) := do
  acquire .metalbondState .write
  let remainingCount ← update (applyUpdate action vni dest nh (some self.remoteAddr))
  sendChange action vni dest nh (some self.remoteAddr) remainingCount
  release .metalbondState .write
  return .ok ()

def processUpdate (msg : Pb.Update) : Code (Except Error Unit) :=
  match parseUpdate msg with
  | .error e => return .error e
  | .ok (action, vni, dest, nh) => do
    let isSubscribedLocally ← reading .metalbondState fun w ↦ decide (vni ∈ w.mb.mySubscriptions)
    if !isSubscribedLocally && decide (self.direction = .outgoing) then
      return .ok ()
    else
      self.storeUpdate action vni dest nh

def process : GeneratedMessage → Code (Except Error Unit)
  | .hello hello => self.processHello ord hello
  | .keepalive => self.processKeepalive ord
  | .subscribe sub => self.processSubscribe ord sub
  | .unsubscribe unsub => self.processUnsubscribe ord unsub
  | .update msg => self.processUpdate msg

end Peer

end MetalBond
