import Mathlib.Data.List.Basic
import Mathlib.Tactic.Common

namespace Streams

/-- A decoder looks at the front of a buffer: it takes a message off, waits for more, or
fails. What it does about a message it does whatever follows in the buffer. -/
structure Decoder (B M E : Type) where
  step : List B → Except E (Option M) × List B
  waits : ∀ {buf rest}, step buf = (.ok none, rest) → rest = buf
  shrinks : ∀ {buf m rest}, step buf = (.ok (some m), rest) → rest.length < buf.length
  takes : ∀ {buf m rest}, step buf = (.ok (some m), rest) →
    ∀ more, step (buf ++ more) = (.ok (some m), rest ++ more)
  fails : ∀ {buf e rest}, step buf = (.error e, rest) →
    ∀ more, step (buf ++ more) = (.error e, rest ++ more)

/-- The messages of a buffer, the error that ended it, if any, and the bytes left over. -/
structure Drained (B M E : Type) where
  messages : List M
  error : Option E
  rest : List B

namespace Drained

variable {B M E : Type}

def prepend (ms : List M) (r : Drained B M E) : Drained B M E :=
  { r with messages := ms ++ r.messages }

@[simp] theorem prepend_nil (r : Drained B M E) : r.prepend [] = r := rfl

@[simp] theorem prepend_prepend (ms ms' : List M) (r : Drained B M E) :
    (r.prepend ms').prepend ms = r.prepend (ms ++ ms') := by
  simp [prepend]

@[simp] theorem error_prepend (ms : List M) (r : Drained B M E) : (r.prepend ms).error = r.error :=
  rfl

@[simp] theorem rest_prepend (ms : List M) (r : Drained B M E) : (r.prepend ms).rest = r.rest := rfl

end Drained

namespace Decoder

variable {B M E : Type} (d : Decoder B M E)

/-- Decode until the decoder waits or fails. -/
def drain (buf : List B) : Drained B M E :=
  match _h : d.step buf with
  | (.ok (some m), rest) => (drain rest).prepend [m]
  | (.ok none, rest) => ⟨[], none, rest⟩
  | (.error e, rest) => ⟨[], some e, rest⟩
termination_by buf.length
decreasing_by exact d.shrinks _h

/-- Append one chunk after the other and drain the buffer after each, up to the first error;
the chunks after it count as left over. -/
def feed : List B → List (List B) → Drained B M E
  | buf, [] => ⟨[], none, buf⟩
  | buf, chunk :: chunks =>
    let r := d.drain (buf ++ chunk)
    match r.error with
    | some e => ⟨r.messages, some e, r.rest ++ chunks.flatten⟩
    | none => (feed r.rest chunks).prepend r.messages

variable {d} {buf rest : List B} {m : M} {e : E}

theorem drain_take (h : d.step buf = (.ok (some m), rest)) :
    d.drain buf = (d.drain rest).prepend [m] := by
  rw [drain]
  split
  · next h' =>
    cases h.symm.trans h'
    rfl
  · next h' => cases h.symm.trans h'
  · next h' => cases h.symm.trans h'

theorem drain_wait (h : d.step buf = (.ok none, rest)) : d.drain buf = ⟨[], none, buf⟩ := by
  rw [drain]
  split
  · next h' => cases h.symm.trans h'
  · next h' =>
    cases h.symm.trans h'
    rw [d.waits h]
  · next h' => cases h.symm.trans h'

theorem drain_fail (h : d.step buf = (.error e, rest)) : d.drain buf = ⟨[], some e, rest⟩ := by
  rw [drain]
  split
  · next h' => cases h.symm.trans h'
  · next h' => cases h.symm.trans h'
  · next h' =>
    cases h.symm.trans h'
    rfl

theorem drain_append (buf more : List B) :
    d.drain (buf ++ more) =
      match (d.drain buf).error with
      | some e => ⟨(d.drain buf).messages, some e, (d.drain buf).rest ++ more⟩
      | none => (d.drain ((d.drain buf).rest ++ more)).prepend (d.drain buf).messages := by
  induction hn : buf.length using Nat.strongRecOn generalizing buf with
  | ind n ih =>
    subst hn
    match h : d.step buf with
    | (.ok (some m), rest) =>
      rw [drain_take h, drain_take (d.takes h more), ih rest.length (d.shrinks h) rest rfl]
      simp only [Drained.error_prepend, Drained.rest_prepend]
      cases (d.drain rest).error with
      | none => rw [Drained.prepend_prepend]; rfl
      | some e => rfl
    | (.ok none, rest) =>
      rw [drain_wait h]
      rfl
    | (.error e, rest) => rw [drain_fail h, drain_fail (d.fails h more)]

theorem drain_rest (h : (d.drain buf).error = none) :
    d.drain (d.drain buf).rest = ⟨[], none, (d.drain buf).rest⟩ := by
  induction hn : buf.length using Nat.strongRecOn generalizing buf with
  | ind n ih =>
    subst hn
    match hstep : d.step buf with
    | (.ok (some m), rest) =>
      rw [drain_take hstep] at h ⊢
      exact ih rest.length (d.shrinks hstep) h rfl
    | (.ok none, rest) =>
      rw [drain_wait hstep]
      exact drain_wait hstep
    | (.error e, rest) =>
      rw [drain_fail hstep] at h
      cases h

/-- The front of a stream without errors gives the front of its messages. -/
theorem drain_front {more tail : List B} {ms : List M}
    (h : d.drain (buf ++ more) = ⟨ms, none, tail⟩) :
    ∃ heard waiting rest, ms = heard ++ waiting ∧ d.drain buf = ⟨heard, none, rest⟩ := by
  rw [drain_append] at h
  cases herror : (d.drain buf).error with
  | some e =>
    rw [herror] at h
    cases congrArg Drained.error h
  | none =>
    rw [herror] at h
    exact ⟨_, _, _, (congrArg Drained.messages h).symm, congrArg (Drained.mk _ · _) herror⟩

/-- A stream is decoded as if it came in one piece. -/
theorem feed_eq_drain (hbuf : d.drain buf = ⟨[], none, buf⟩) (chunks : List (List B)) :
    d.feed buf chunks = d.drain (buf ++ chunks.flatten) := by
  induction chunks generalizing buf with
  | nil => rw [feed, List.flatten_nil, List.append_nil, hbuf]
  | cons chunk chunks ih =>
    rw [feed, List.flatten_cons, ← List.append_assoc, drain_append (buf ++ chunk)]
    cases herror : (d.drain (buf ++ chunk)).error with
    | some e => rfl
    | none => simp only [ih (drain_rest herror)]

end Decoder

end Streams
