import MetalBond.PeerCode

namespace MetalBond

open Async

namespace PeerCell

variable (c : PeerCell)

/-- One `SUBSCRIBE` for each VNI; a failure asks for a shutdown but does not end the loop. -/
def initialSubscribes : List Vni → PeerCell → PeerCell
  | [], c => c
  | vni :: rest, c =>
    match c.trySend (.subscribe ⟨vni⟩) with
    | (.ok _, c) => initialSubscribes rest c
    | (.error _, c) => initialSubscribes rest { c with shutdownSignal := true }

/-- One update for each route, until a send fails. -/
def sendRoutes : List Route → PeerCell → Except Error Unit × PeerCell
  | [], c => (.ok (), c)
  | (vni, dest, nh) :: rest, c =>
    match c.trySend (updateMessage .add vni dest nh) with
    | (.ok _, c) => sendRoutes rest c
    | (.error e, c) => (.error e, { c with shutdownSignal := true })

def SameLink (c c' : PeerCell) : Prop :=
  c'.isRemoteServer = c.isRemoteServer ∧ c'.state = c.state ∧
    c'.subscribedVnisRemote = c.subscribedVnisRemote

theorem SameLink.refl : SameLink c c := ⟨rfl, rfl, rfl⟩

theorem SameLink.trans {c c' c'' : PeerCell} (h : SameLink c c') (h' : SameLink c' c'') :
    SameLink c c'' :=
  ⟨h'.1.trans h.1, h'.2.1.trans h.2.1, h'.2.2.trans h.2.2⟩

theorem sameLink_trySend (msg : GeneratedMessage) : SameLink c (c.trySend msg).2 := by
  unfold trySend
  split <;> exact .refl _

theorem sameLink_initialSubscribes (vnis : List Vni) : SameLink c (c.initialSubscribes vnis) := by
  induction vnis generalizing c with
  | nil => exact .refl c
  | cons vni rest ih =>
    have hsend := c.sameLink_trySend (.subscribe ⟨vni⟩)
    unfold initialSubscribes
    split <;> next heq =>
      rw [heq] at hsend
      exact hsend.trans (ih _)

theorem sameLink_sendRoutes (routes : List Route) : SameLink c (c.sendRoutes routes).2 := by
  induction routes generalizing c with
  | nil => exact .refl c
  | cons r rest ih =>
    have hsend := c.sameLink_trySend (updateMessage .add r.1 r.2.1 r.2.2)
    unfold sendRoutes
    split
    · next heq =>
      rw [heq] at hsend
      exact hsend.trans (ih _)
    · next heq =>
      rw [heq] at hsend
      exact hsend

theorem queue_of_trySend {c c' : PeerCell} {msg : GeneratedMessage} {u : Unit}
    (h : c.trySend msg = (.ok u, c')) : c'.tx.queue = c.tx.queue ++ [msg] := by
  unfold trySend at h
  cases hsend : c.tx.trySend msg with
  | ok tx =>
    rw [hsend] at h
    cases h
    rw [Mailbox.toChannel_of_trySend hsend]
    rfl
  | error e => cases e <;> rw [hsend] at h <;> cases h

theorem queue_of_trySend_error {c c' : PeerCell} {msg : GeneratedMessage} {e : Error}
    (h : c.trySend msg = (.error e, c')) : c'.tx.queue = c.tx.queue := by
  unfold trySend at h
  split at h <;> cases h <;> rfl

theorem queue_sendRoutes (routes : List Route) : ∃ sent, sent <+: routes ∧
    (c.sendRoutes routes).2.tx.queue =
      c.tx.queue ++ sent.map fun r ↦ updateMessage .add r.1 r.2.1 r.2.2 := by
  induction routes generalizing c with
  | nil => exact ⟨[], List.prefix_rfl, (List.append_nil _).symm⟩
  | cons r rest ih =>
    unfold sendRoutes
    split
    · next c' hsend =>
      obtain ⟨sent, hpre, hqueue⟩ := ih c'
      refine ⟨r :: sent, (List.cons_prefix_cons).mpr ⟨rfl, hpre⟩, ?_⟩
      rw [hqueue, queue_of_trySend hsend, List.append_assoc]
      rfl
    · next e c' hsend =>
      have hqueue := queue_of_trySend_error hsend
      exact ⟨[], List.nil_prefix, hqueue.trans (List.append_nil _).symm⟩

variable {c}

theorem trySend_of_room (hopen : c.tx.closed = false)
    (hroom : c.tx.queue.length < peerTxBufferSize) (msg : GeneratedMessage) :
    ∃ tx, c.trySend msg = (.ok (), { c with tx := tx }) ∧ tx.toChannel = c.tx.push msg := by
  refine ⟨⟨c.tx.push msg, by simp; omega⟩, ?_, rfl⟩
  simp only [trySend, Mailbox.trySend_of_room hopen hroom]

theorem initialSubscribes_of_room (vnis : List Vni) (hopen : c.tx.closed = false)
    (hroom : c.tx.queue.length + vnis.length ≤ peerTxBufferSize) :
    ∃ tx, c.initialSubscribes vnis = { c with tx := tx } ∧
      tx.toChannel = c.tx.pushAll (vnis.map fun vni ↦ .subscribe ⟨vni⟩) := by
  induction vnis generalizing c with
  | nil => exact ⟨c.tx, rfl, rfl⟩
  | cons vni rest ih =>
    rw [List.length_cons] at hroom
    obtain ⟨tx, hsend, htx⟩ := trySend_of_room hopen (by omega) (.subscribe ⟨vni⟩)
    have hrest := @ih { c with tx := tx } (by rw [htx]; exact hopen) (by simp [htx]; omega)
    simpa only [initialSubscribes, hsend, htx, List.map_cons, Channel.pushAll_cons] using hrest

theorem sendRoutes_of_room (routes : List Route) (hopen : c.tx.closed = false)
    (hroom : c.tx.queue.length + routes.length ≤ peerTxBufferSize) :
    ∃ tx, c.sendRoutes routes = (.ok (), { c with tx := tx }) ∧
      tx.toChannel = c.tx.pushAll (routes.map fun r ↦ updateMessage .add r.1 r.2.1 r.2.2) := by
  induction routes generalizing c with
  | nil => exact ⟨c.tx, rfl, rfl⟩
  | cons r rest ih =>
    rw [List.length_cons] at hroom
    obtain ⟨tx, hsend, htx⟩ :=
      trySend_of_room hopen (by omega) (updateMessage .add r.1 r.2.1 r.2.2)
    have hrest := @ih { c with tx := tx } (by rw [htx]; exact hopen) (by simp [htx]; omega)
    simpa only [sendRoutes, hsend, htx, List.map_cons, Channel.pushAll_cons] using hrest

theorem history_sendRoutes (routes : List Route) (hopen : c.tx.closed = false) :
    (c.sendRoutes routes).2.tx.history = c.tx.history ++
      (routes.take (peerTxBufferSize - c.tx.queue.length)).map
        fun r ↦ updateMessage .add r.1 r.2.1 r.2.2 := by
  induction routes generalizing c with
  | nil => simp [sendRoutes]
  | cons r rest ih =>
    by_cases hroom : c.tx.queue.length < peerTxBufferSize
    · obtain ⟨tx, hsend, htx⟩ := trySend_of_room hopen hroom (updateMessage .add r.1 r.2.1 r.2.2)
      have hrest := @ih { c with tx := tx } (by rw [htx]; exact hopen)
      have hslots : peerTxBufferSize - c.tx.queue.length =
          peerTxBufferSize - tx.queue.length + 1 := by
        rw [htx, Channel.queue_push, List.length_append, List.length_singleton]
        omega
      simp only [sendRoutes, hsend, hrest, htx, hslots, List.take_succ_cons, List.map_cons,
        Channel.history_push, List.append_assoc, List.singleton_append]
    · have hsend : c.trySend (updateMessage .add r.1 r.2.1 r.2.2) = (.error .txChannelFull, c) := by
        simp only [trySend, Mailbox.trySend_of_full hopen hroom]
      have hslots : peerTxBufferSize - c.tx.queue.length = 0 := by omega
      simp only [sendRoutes, hsend, hslots, List.take_zero, List.map_nil, List.append_nil]

end PeerCell

end MetalBond
