import MetalBond.RoundExec

namespace MetalBond.KeepaliveValues

open Async Task Collections Peer

def configure (keepalive : Option UInt64) : Config :=
  match keepalive with
  | none => default
  | some secs => { (default : Config) with keepaliveInterval := .fromSecs secs }

/-- The value parser of the option lets through what is at least one. -/
def parseKeepalive (secs : UInt64) : Option UInt64 := if 1 ≤ secs then some secs else none

/-- The remote side takes the greeting for what it is, whatever its state. -/
def Accepts (hello : Pb.Hello) : Prop := ∀ (ord : HashOrder) (remote : Peer) (s s' : Node),
  exec [] (remote.processHello ord hello) s ≠ .done (.error .zeroKeepaliveInterval) [] s'

/-- A peer with room in its queue announces the interval as configured, and every other peer
accepts it; the receive timeout can be computed. -/
structure Usable (secs : UInt64) : Prop where
  announced : ∀ (self : Peer) (isServer : Bool) (s : Node),
    self.config = configure (parseKeepalive secs) → (self.cellOf s).tx.closed = false →
    (self.cellOf s).tx.queue.length < peerTxBufferSize → ∃ hello : Pb.Hello,
      (self.cellOf (exec [] (self.sendHello isServer) s).shared).tx.queue =
        (self.cellOf s).tx.queue ++ [.hello hello] ∧
      hello.keepaliveInterval.toNat = secs.toNat ∧ Accepts hello
  timeout : (Timers.timeoutDuration (configure (parseKeepalive secs))).isSome

theorem asSecs_fromSecs (secs : UInt64) : (Duration.fromSecs secs).asSecs = secs := by
  have hdiv : secs.toNat * 10 ^ 9 / 10 ^ 9 = secs.toNat := Nat.mul_div_cancel _ (by decide)
  rw [Duration.asSecs, Duration.fromSecs, hdiv, UInt64.ofNat_toNat]

theorem toNat_asSecs_fromSecs (secs : UInt64) :
    (Duration.fromSecs secs).asSecs.toUInt32.toNat = secs.toNat % 2 ^ 32 := by
  rw [asSecs_fromSecs, UInt64.toNat_toUInt32]

theorem accepts_iff (hello : Pb.Hello) : Accepts hello ↔ hello.keepaliveInterval ≠ 0 := by
  constructor
  · intro haccepts hzero
    refine haccepts default default (Sample.node true) (Sample.node true) ?_
    rw [processHello, if_pos hzero]
    rfl
  · intro hne ord remote s s' hexec
    rw [exec_processHello, onHello, if_neg hne] at hexec
    revert hexec
    generalize { remote.cellOf s with isRemoteServer := hello.isServer } = c
    cases remote.direction with
    | incoming =>
      simp only
      split
      · split <;> simp
      · simp
    | outgoing =>
      simp only
      split <;> simp

theorem queue_sendHello {self : Peer} {s : Node} (isServer : Bool)
    (hopen : (self.cellOf s).tx.closed = false)
    (hroom : (self.cellOf s).tx.queue.length < peerTxBufferSize) :
    (self.cellOf (exec [] (self.sendHello isServer) s).shared).tx.queue =
      (self.cellOf s).tx.queue ++
        [.hello ⟨self.config.keepaliveInterval.asSecs.toUInt32, isServer⟩] := by
  obtain ⟨tx, hsend, htx⟩ := PeerCell.trySend_of_room hopen hroom
    (.hello ⟨self.config.keepaliveInterval.asSecs.toUInt32, isServer⟩)
  rw [sendHello, exec_sendMessage, Outcome.shared_done, cellOf_withCell, hsend]
  exact congrArg Channel.queue htx

theorem configure_parseKeepalive {secs : UInt64} (hsecs : 1 ≤ secs) :
    configure (parseKeepalive secs) =
      { (default : Config) with keepaliveInterval := .fromSecs secs } := by
  rw [parseKeepalive, if_pos hsecs]
  rfl

theorem Usable.fits {secs : UInt64} (h : Usable secs) (hsecs : 1 ≤ secs) :
    secs.toNat < 2 ^ 32 := by
  let self : Peer := ⟨0, configure (parseKeepalive secs), Sample.addr 0, .outgoing⟩
  have hopen : (self.cellOf (Sample.node false)).tx.closed = false := rfl
  have hroom : (self.cellOf (Sample.node false)).tx.queue.length < peerTxBufferSize :=
    Nat.zero_lt_succ _
  obtain ⟨hello, hqueue, hinterval, -⟩ := h.announced self false (Sample.node false) rfl hopen hroom
  rw [queue_sendHello false hopen hroom] at hqueue
  have hhello : ⟨self.config.keepaliveInterval.asSecs.toUInt32, false⟩ = hello := by
    simpa using hqueue
  rw [← hhello] at hinterval
  simp only [self, configure_parseKeepalive hsecs, toNat_asSecs_fromSecs] at hinterval
  omega

/-- Of the values that the option takes, exactly those that fit the field of the HELLO work:
the cast cuts off the rest of all others. -/
theorem usable_iff {secs : UInt64} (hsecs : 1 ≤ secs) : Usable secs ↔ secs.toNat < 2 ^ 32 := by
  refine ⟨fun h ↦ h.fits hsecs, fun hfits ↦ ?_⟩
  have hconfig := configure_parseKeepalive hsecs
  have hpos : 1 ≤ secs.toNat := UInt64.le_iff_toNat_le.mp hsecs
  constructor
  · intro self isServer s hself hopen hroom
    have hinterval : self.config.keepaliveInterval.asSecs.toUInt32.toNat = secs.toNat := by
      rw [hself, hconfig, toNat_asSecs_fromSecs]
      omega
    refine ⟨_, queue_sendHello isServer hopen hroom, hinterval, (accepts_iff _).mpr fun hzero ↦ ?_⟩
    have hnat := congrArg UInt32.toNat hzero
    rw [hinterval, UInt32.toNat_zero] at hnat
    omega
  · rw [hconfig]
    exact (Timers.isSome_timeoutDuration rfl).mpr (by omega)

theorem usable_iff_five : Usable 5 ↔ (5 : UInt64).toNat < 2 ^ 32 := usable_iff (by decide)

/-- 2³² seconds are announced as none at all. -/
theorem not_usable_of_cut : ¬ ∀ secs : UInt64, 1 ≤ secs → Usable secs := by
  intro hall
  have hfits := (hall (2 ^ 32) (by decide)).fits (by decide)
  revert hfits
  decide

end MetalBond.KeepaliveValues
