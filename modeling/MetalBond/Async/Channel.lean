import Mathlib.Data.List.Basic
import Mathlib.Tactic.Common

namespace Async

structure Channel (α : Type) where
  taken : List α
  queue : List α
  /-- The receiver is gone. -/
  closed : Bool

namespace Channel

variable {α : Type}

def new : Channel α := ⟨[], [], false⟩

def history (c : Channel α) : List α := c.taken ++ c.queue

def push (c : Channel α) (a : α) : Channel α := { c with queue := c.queue ++ [a] }

/-- A send that waits for a free slot fails only when the receiver is gone. -/
def send (c : Channel α) (a : α) : Bool × Channel α :=
  if c.closed then (false, c) else (true, c.push a)

def recv (c : Channel α) : Option (α × Channel α) :=
  match c.queue with
  | [] => none
  | a :: rest => some (a, { c with taken := c.taken ++ [a], queue := rest })

@[simp] theorem history_new : (new : Channel α).history = [] := rfl

@[simp] theorem closed_push (c : Channel α) (a : α) : (c.push a).closed = c.closed := rfl

@[simp] theorem queue_push (c : Channel α) (a : α) : (c.push a).queue = c.queue ++ [a] := rfl

@[simp] theorem taken_push (c : Channel α) (a : α) : (c.push a).taken = c.taken := rfl

@[simp] theorem history_push (c : Channel α) (a : α) :
    (c.push a).history = c.history ++ [a] := by
  simp [history, push]

theorem send_of_open {c : Channel α} (h : c.closed = false) (a : α) :
    c.send a = (true, c.push a) := by
  simp [send, h]

@[simp] theorem closed_send (c : Channel α) (a : α) : (c.send a).2.closed = c.closed := by
  unfold send
  split <;> rfl

theorem history_recv {c c' : Channel α} {a : α} (h : c.recv = some (a, c')) :
    c'.history = c.history := by
  unfold recv at h
  cases hq : c.queue with
  | nil => simp [hq] at h
  | cons b rest =>
    rw [hq] at h
    obtain ⟨rfl, rfl⟩ := Prod.mk.inj (Option.some.inj h)
    simp [history, hq]

theorem queue_of_recv {c c' : Channel α} {a : α} (h : c.recv = some (a, c')) :
    c.queue = a :: c'.queue := by
  unfold recv at h
  split at h
  · cases h
  · next hq =>
    cases h
    exact hq

theorem taken_of_recv {c c' : Channel α} {a : α} (h : c.recv = some (a, c')) :
    c'.taken = c.taken ++ [a] := by
  unfold recv at h
  split at h
  · cases h
  · cases h
    rfl

theorem closed_recv {c c' : Channel α} {a : α} (h : c.recv = some (a, c')) :
    c'.closed = c.closed := by
  unfold recv at h
  split at h
  · cases h
  · cases h
    rfl

def pushAll (c : Channel α) (as : List α) : Channel α := as.foldl push c

@[simp] theorem pushAll_nil (c : Channel α) : c.pushAll [] = c := rfl

@[simp] theorem pushAll_cons (c : Channel α) (a : α) (as : List α) :
    c.pushAll (a :: as) = (c.push a).pushAll as := rfl

@[simp] theorem queue_pushAll (c : Channel α) (as : List α) :
    (c.pushAll as).queue = c.queue ++ as := by
  induction as generalizing c with
  | nil => simp
  | cons a as ih => simp [ih]

@[simp] theorem history_pushAll (c : Channel α) (as : List α) :
    (c.pushAll as).history = c.history ++ as := by
  induction as generalizing c with
  | nil => simp
  | cons a as ih => simp [ih]

@[simp] theorem closed_pushAll (c : Channel α) (as : List α) :
    (c.pushAll as).closed = c.closed := by
  induction as generalizing c with
  | nil => rfl
  | cons a as ih => simp [ih]

theorem pushAll_append (c : Channel α) (as bs : List α) :
    c.pushAll (as ++ bs) = (c.pushAll as).pushAll bs := List.foldl_append

def sendAll (c : Channel α) (as : List α) : Channel α := as.foldl (fun c a ↦ (c.send a).2) c

@[simp] theorem sendAll_nil (c : Channel α) : c.sendAll [] = c := rfl

@[simp] theorem sendAll_cons (c : Channel α) (a : α) (as : List α) :
    c.sendAll (a :: as) = (c.send a).2.sendAll as := rfl

theorem sendAll_of_open {c : Channel α} (h : c.closed = false) (as : List α) :
    c.sendAll as = c.pushAll as := by
  induction as generalizing c with
  | nil => rfl
  | cons a as ih =>
    rw [sendAll_cons, send_of_open h]
    exact ih h

end Channel

inductive TrySendError
  | full
  | closed
  deriving DecidableEq

/-- A channel whose queue never holds more than `capacity` messages. -/
structure Mailbox (α : Type) (capacity : ℕ) extends Channel α where
  bounded : queue.length ≤ capacity

namespace Mailbox

variable {α : Type} {n : ℕ}

def new : Mailbox α n := ⟨.new, Nat.zero_le n⟩

instance : Inhabited (Mailbox α n) := ⟨new⟩

theorem length_push_le {m : Mailbox α n} (h : m.queue.length < n) (a : α) :
    (m.push a).queue.length ≤ n := by
  rw [Channel.queue_push, List.length_append, List.length_singleton]
  exact h

def trySend (m : Mailbox α n) (a : α) : Except TrySendError (Mailbox α n) :=
  if m.closed then .error .closed
  else if h : m.queue.length < n then .ok ⟨m.push a, length_push_le h a⟩
  else .error .full

def recv (m : Mailbox α n) : Option (α × Mailbox α n) :=
  match h : m.queue with
  | [] => none
  | a :: rest =>
    some (a, ⟨⟨m.taken ++ [a], rest, m.closed⟩, by
      have hb := m.bounded
      rw [h, List.length_cons] at hb
      exact Nat.le_of_succ_le hb⟩)

def close (m : Mailbox α n) : Mailbox α n := { m with closed := true }

@[ext] theorem ext' {m m' : Mailbox α n} (h : m.toChannel = m'.toChannel) : m = m' := by
  cases m; cases m'; simp_all

@[simp] theorem toChannel_new : (new : Mailbox α n).toChannel = .new := rfl

theorem trySend_of_room {m : Mailbox α n} (hc : m.closed = false) (hq : m.queue.length < n)
    (a : α) : m.trySend a = .ok ⟨m.push a, length_push_le hq a⟩ := by
  simp [trySend, hc, hq]

theorem trySend_of_full {m : Mailbox α n} (hc : m.closed = false) (hq : ¬ m.queue.length < n)
    (a : α) : m.trySend a = .error .full := by
  simp [trySend, hc, hq]

theorem recv_of_cons {m : Mailbox α n} {a : α} {rest : List α} (h : m.queue = a :: rest) :
    ∃ m', m.recv = some (a, m') ∧
      m'.toChannel = { m.toChannel with taken := m.taken ++ [a], queue := rest } := by
  unfold recv
  split
  · next hnil => rw [h] at hnil; cases hnil
  · next b rest' hcons =>
    rw [h] at hcons
    cases hcons
    exact ⟨_, rfl, rfl⟩

theorem history_of_recv {m m' : Mailbox α n} {a : α} (h : m.recv = some (a, m')) :
    m'.history = m.history ∧ m'.closed = m.closed := by
  cases hq : m.queue with
  | nil =>
    unfold recv at h
    split at h
    · cases h
    · next hcons =>
      rw [hq] at hcons
      cases hcons
  | cons b rest =>
    obtain ⟨m'', hrecv, hchannel⟩ := recv_of_cons hq
    cases h.symm.trans hrecv
    rw [hchannel]
    simp [Channel.history, hq]

theorem toChannel_of_trySend {m m' : Mailbox α n} {a : α} (h : m.trySend a = .ok m') :
    m'.toChannel = m.push a := by
  unfold trySend at h
  split at h
  · cases h
  · split at h
    · cases h; rfl
    · cases h

end Mailbox

end Async
