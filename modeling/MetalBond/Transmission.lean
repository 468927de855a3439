import MetalBond.MessageSizes
import MetalBond.Provenance

namespace MetalBond.Transmission

open Async Task Streams Peer MetalBondCodec Provenance
open SubscriptionRecords (Actor)

def anything (ι : Type) (server : Bool) : Outside ι where
  server := server
  confirmed := Set.univ
  asked _ := Set.univ
  announced _ := Set.univ
  wanted := Set.univ
  own := Set.univ

section Messages

variable {ε : Type} {p : Prost ε}

theorem fits_of_tellable (hcompact : p.Compact) (hshort : p.Short) {ι : Type} {O : Outside ι}
    {peers : ι → Peer} {i : ι} {msg : GeneratedMessage} (h : O.Tellable peers i msg) :
    Fits p msg := by
  have hmax : maxMessageLen = 1188 := rfl
  have hsubscription (vni : Vni) : (p.subscription.encodeToVec ⟨vni⟩).length ≤ maxMessageLen :=
    (hshort.subscription ⟨vni⟩).trans (by omega)
  cases h with
  | hello hello => exact (hshort.hello hello).trans (by omega)
  | keepalive _ => exact Nat.zero_le _
  | subscribe vni _ _ => exact hsubscription vni
  | unsubscribe vni _ _ => exact hsubscription vni
  | announcement vni dest nh _ _ => exact fits_updateMessage hcompact ..
  | requested action vni dest nh _ _ => exact fits_updateMessage hcompact ..
  | route action vni dest nh source _ _ _ => exact fits_updateMessage hcompact ..

theorem drain_nil : (codec p).drain [] = ⟨[], none, []⟩ :=
  Decoder.drain_wait (decode_short p (by simp))

theorem feed_frames (hlawful : p.Lawful) {msgs : List GeneratedMessage}
    (hfits : ∀ m ∈ msgs, Fits p m) {chunks : List Bytes}
    (hchunks : chunks.flatten <+: msgs.flatMap (frame p)) :
    ∃ heard waiting rest, msgs = heard ++ waiting ∧
      (codec p).feed [] chunks = ⟨heard, none, rest⟩ := by
  rw [Decoder.feed_eq_drain drain_nil, List.nil_append]
  obtain ⟨more, hmore⟩ := hchunks
  have hall := drain_frames hlawful hfits
  rw [← hmore] at hall
  exact Decoder.drain_front hall

end Messages

section Runs

variable {ι κ : Type} [DecidableEq ι] [DecidableEq κ] {peers : ι → Peer} {server : Bool}
variable {c₀ c : Pool (Actor ι κ) Lock World InternalUpdate Unit} {ε : Type} {p : Prost ε}

/-- Whatever a node hears and is asked to do, what it writes on a connection is understood: the
encoder refuses nothing, and of whatever part has arrived, in whatever pieces, the decoder at the
other end makes the first of the messages, in their order and unaltered, and all of them once
everything has arrived. -/
theorem understood (hlawful : p.Lawful) (hcompact : p.Compact) (hshort : p.Short)
    (hids : Function.Injective fun i ↦ (peers i).id) (hbegins : Begins peers server c₀)
    (hrun : Run (Pool.Step (Work (fun _ _ ↦ True) Set.univ Set.univ peers)) c₀ c) (i : ι) :
    ∃ written, (encodeAll p ((peers i).cellOf c.shared).tx.taken).on [] = (.ok (), written) ∧
      ∀ chunks : List Bytes, chunks.flatten <+: written → ∃ heard waiting rest,
        ((peers i).cellOf c.shared).tx.taken = heard ++ waiting ∧
        (codec p).feed [] chunks = ⟨heard, none, rest⟩ ∧
        (chunks.flatten = written → waiting = [] ∧ rest = []) := by
  have hadmits : ∀ i msg, (anything ι server).Admits i msg := by
    intro i msg
    cases msg with
    | update msg => exact fun _ _ _ _ ↦ trivial
    | hello hello => trivial
    | keepalive => trivial
    | subscribe sub => trivial
    | unsubscribe unsub => trivial
  have hrun' := hrun.mono fun _ _ hstep ↦
    hstep.mono fun _ _ _ h ↦ h.mono fun i msg _ ↦ hadmits i msg
  have hgrounded := grounded_of_run (O := anything ι server) hids hbegins hrun'
  have hfits : ∀ m ∈ ((peers i).cellOf c.shared).tx.taken, Fits p m := fun m hm ↦
    fits_of_tellable hcompact hshort (hgrounded.told i m (List.mem_append_left _ hm))
  refine ⟨_, encodeAll_of_fits hfits [], fun chunks hchunks ↦ ?_⟩
  rw [List.nil_append] at hchunks ⊢
  obtain ⟨heard, waiting, rest, htaken, hfeed⟩ := feed_frames hlawful hfits hchunks
  refine ⟨heard, waiting, rest, htaken, hfeed, fun hall ↦ ?_⟩
  rw [Decoder.feed_eq_drain drain_nil, List.nil_append, hall, drain_frames hlawful hfits] at hfeed
  have hheard := congrArg Drained.messages hfeed
  rw [htaken] at hheard
  exact ⟨List.append_right_eq_self.mp hheard, (congrArg Drained.rest hfeed).symm⟩

end Runs

def dialing : Unit → Peer := fun _ ↦ Sample.peer 1 .outgoing

noncomputable def dialedNode : Node := (exec [] (do
  insertPeer (dialing ())
  let _ ← (dialing ()).startPeer .toList) (Sample.node false)).shared

def sending : Round := ⟨false, .outgoing true, 0, 0⟩

noncomputable def greetedNode : Node :=
  (exec [] ((dialing ()).selectRound .toList sending .off) dialedNode).shared

def hello : GeneratedMessage :=
  .hello ⟨(dialing ()).config.keepaliveInterval.asSecs.toUInt32, false⟩

theorem taken_greetedNode : ((dialing ()).cellOf greetedNode).tx.taken = [hello] := rfl

theorem understood_sample : ∃ written,
    (encodeAll protobuf [hello]).on [] = (.ok (), written) ∧
      ((codec protobuf).feed [] [written]).messages = [hello] := by
  let c : Pool (Actor Unit Unit) Lock World InternalUpdate Unit :=
    ⟨fun _ ↦ ⟨[], .ret ()⟩, Sample.node false⟩
  let c₁ := c.set (.connection ()) ⟨[], .ret ()⟩ dialedNode
  let c₂ := c₁.set (.connection ()) ⟨[], .ret ()⟩ greetedNode
  let S : Actor Unit Unit → Option InternalUpdate → Code Unit → Prop :=
    Work (fun _ _ ↦ True) Set.univ Set.univ dialing
  have hconnect : Run (Pool.Step S) c c₁ :=
    Pool.run_whole (fun _ ↦ rfl) ⟨(), rfl⟩ (.connect () .toList) rfl
  have hheld : ∀ a, c₁.held a = [] := Pool.unguarded_set (fun _ ↦ rfl) _ _ _
  have hidle : c₁.Idle (.connection ()) := ⟨(), by rw [Pool.code_set, Function.update_self]⟩
  have hsend : Run (Pool.Step S) c₁ c₂ :=
    Pool.run_whole hheld hidle (.round () .toList sending .off fun _ h ↦ nomatch h) rfl
  have hbegins : Begins dialing false c :=
    ⟨fun _ ↦ ⟨(), rfl⟩, ⟨rfl, fun _ ↦ rfl, rfl, rfl, rfl, rfl, rfl, rfl, rfl⟩⟩
  obtain ⟨written, hwritten, hheard⟩ :=
    understood lawful_protobuf compact_protobuf short_protobuf
      (Function.injective_of_subsingleton _) hbegins (hconnect.trans hsend) ()
  obtain ⟨heard, waiting, rest, htaken, hfeed, hall⟩ :=
    hheard [written] (by rw [List.flatten_singleton])
  have htaken : [hello] = heard ++ waiting := taken_greetedNode.symm.trans htaken
  rw [(hall (List.flatten_singleton ..)).1, List.append_nil] at htaken
  exact ⟨written, hwritten, by rw [hfeed, htaken]⟩

end MetalBond.Transmission
