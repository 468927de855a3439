import MetalBond.Collections.Fields
import MetalBond.RouteExport

namespace MetalBond

open Collections

instance : ToString IpNet := ⟨fun net ↦ toString net.addr ++ "/" ++ toString net.prefixLen⟩

instance : ToString Destination := ⟨fun dest ↦ toString dest.net⟩

namespace Ipv4Addr

def fields (addr : Ipv4Addr) : List (List Char) :=
  addr.octets.toList.map fun octet ↦ Nat.toDigits 10 octet.toNat

theorem toList_toString (addr : Ipv4Addr) :
    (toString addr).toList = ['.'].intercalate addr.fields := by
  have htext : toString addr = ".".intercalate (addr.octets.toList.map toString) := rfl
  rw [htext, String.toList_intercalate, List.map_map, fields]
  congr 1
  refine List.map_congr_left fun octet _ ↦ ?_
  exact Nat.toList_repr

theorem mem_field {addr : Ipv4Addr} {f : List Char} (hf : f ∈ addr.fields) {c : Char}
    (hc : c ∈ f) : c ∈ hexDigits := by
  obtain ⟨octet, -, rfl⟩ := List.mem_map.mp hf
  exact mem_toDigits (by decide) (by decide) hc

theorem notMem_field {addr : Ipv4Addr} : ∀ f ∈ addr.fields, '.' ∉ f :=
  fun _ hf hc ↦ absurd (mem_field hf hc) (by decide)

theorem mem_toString {addr : Ipv4Addr} {c : Char} (hc : c ∈ (toString addr).toList) :
    c = '.' ∨ c ∈ hexDigits := by
  rw [toList_toString] at hc
  rcases mem_intercalate hc with h | ⟨f, hf, h⟩
  · exact .inl h
  · exact .inr (mem_field hf h)

theorem length_fields (addr : Ipv4Addr) : addr.fields.length = 4 := by
  rw [fields, List.length_map, List.Vector.toList_length]

theorem fields_ne_nil (addr : Ipv4Addr) : addr.fields ≠ [] := by
  intro h
  have hlen := length_fields addr
  simp [h] at hlen

theorem dot_mem_toString (addr : Ipv4Addr) : '.' ∈ (toString addr).toList := by
  by_contra hdot
  rw [toList_toString] at hdot
  have hsplit := List.splitOn_intercalate '.' notMem_field (fields_ne_nil addr)
  rw [List.splitOn_eq_singleton hdot] at hsplit
  have hlen := length_fields addr
  rw [← hsplit] at hlen
  cases hlen

theorem toString_inj {a b : Ipv4Addr} (h : toString a = toString b) : a = b := by
  have htext := congrArg String.toList h
  rw [toList_toString, toList_toString] at htext
  have hfields := intercalate_inj notMem_field notMem_field (fields_ne_nil a) (fields_ne_nil b) htext
  have hoctet : Function.Injective fun octet : UInt8 ↦ Nat.toDigits 10 octet.toNat :=
    fun _ _ hdigits ↦ UInt8.toNat_inj.mp (toDigits_inj (by decide) (by decide) hdigits)
  have hoctets := List.map_injective_iff.mpr hoctet hfields
  exact congrArg mk (Subtype.ext hoctets)

end Ipv4Addr

namespace Ipv6Addr

structure Searched (segments : List ℕ) (spans : Span × Span) : Prop where
  longest : ∃ left right, segments = left ++ .replicate spans.1.len 0 ++ right ∧
    left.length = spans.1.start
  current : ∃ left, segments = left ++ .replicate spans.2.len 0 ∧
    (spans.2.len ≠ 0 → left.length = spans.2.start)

theorem Searched.step {segments : List ℕ} {spans : Span × Span} (h : Searched segments spans)
    (x : ℕ) : Searched (segments ++ [x]) (zeroStep spans (x, segments.length)) := by
  obtain ⟨⟨left, right, hlongest, hstart⟩, before, hcurrent, hbefore⟩ := h
  have hkept : segments ++ [x] = left ++ .replicate spans.1.len 0 ++ (right ++ [x]) := by
    rw [← List.append_assoc, ← hlongest]
  by_cases hx : x = 0
  · have hnext : segments ++ [x] = before ++ .replicate (spans.2.len + 1) 0 := by
      rw [List.replicate_succ', ← List.append_assoc, ← hcurrent, hx]
    have hnextStart : before.length = if spans.2.len = 0 then segments.length
        else spans.2.start := by
      split
      · next hzero =>
        rw [hcurrent, hzero]
        simp
      · next hpos => exact hbefore hpos
    let current : Span := ⟨if spans.2.len = 0 then segments.length else spans.2.start,
      spans.2.len + 1⟩
    have hstep : zeroStep spans (x, segments.length) =
        (if current.len > spans.1.len then current else spans.1, current) := if_pos hx
    rw [hstep]
    by_cases hmore : current.len > spans.1.len
    · rw [if_pos hmore]
      exact ⟨⟨before, [], by rw [List.append_nil]; exact hnext, hnextStart⟩, before, hnext,
        fun _ ↦ hnextStart⟩
    · rw [if_neg hmore]
      exact ⟨⟨left, right ++ [x], hkept, hstart⟩, before, hnext, fun _ ↦ hnextStart⟩
  · rw [zeroStep, if_neg hx]
    exact ⟨⟨left, right ++ [x], hkept, hstart⟩, segments ++ [x], by simp, fun h ↦ absurd rfl h⟩

theorem searched (segments : List ℕ) :
    Searched segments (segments.zipIdx.foldl zeroStep (⟨0, 0⟩, ⟨0, 0⟩)) := by
  induction segments using List.reverseRecOn with
  | nil => exact ⟨⟨[], [], rfl, rfl⟩, [], rfl, fun h ↦ absurd rfl h⟩
  | append_singleton segments x ih =>
    rw [List.zipIdx_append, List.foldl_append, Nat.zero_add]
    exact ih.step x

/-- What stands between the two ends that are shown is zero. -/
theorem zeroes_spec (segments : List ℕ) : ∃ left right,
    segments = left ++ .replicate (zeroes segments).len 0 ++ right ∧
      left = segments.take (zeroes segments).start ∧
      right = segments.drop ((zeroes segments).start + (zeroes segments).len) := by
  have hspan : ∃ left right, segments = left ++ .replicate (zeroes segments).len 0 ++ right ∧
      left.length = (zeroes segments).start := (searched segments).longest
  generalize zeroes segments = span at hspan ⊢
  obtain ⟨left, right, rfl, hstart⟩ := hspan
  have hend : span.start + span.len = (left ++ List.replicate span.len 0).length := by
    simp [hstart]
  refine ⟨left, right, rfl, ?_, ?_⟩
  · rw [← hstart, List.append_assoc, List.take_left]
  · rw [hend, List.drop_left]

def words (segments : List ℕ) : List (List Char) := segments.map (Nat.toDigits 16)

theorem toList_fmtSubslice (chunk : List ℕ) :
    (fmtSubslice chunk).toList = [':'].intercalate (words chunk) := by
  rw [fmtSubslice, String.toList_intercalate, List.map_map]
  congr 1
  exact List.map_congr_left fun _ _ ↦ String.toList_ofList

theorem mem_word {segments : List ℕ} {w : List Char} (hw : w ∈ words segments) {c : Char}
    (hc : c ∈ w) : c ∈ hexDigits := by
  obtain ⟨segment, -, rfl⟩ := List.mem_map.mp hw
  exact mem_toDigits (by decide) (by decide) hc

theorem notMem_word {segments : List ℕ} : ∀ w ∈ words segments, ':' ∉ w :=
  fun _ hw hc ↦ absurd (mem_word hw hc) (by decide)

theorem word_ne_nil {segments : List ℕ} : ∀ w ∈ words segments, w ≠ [] := by
  intro w hw
  obtain ⟨segment, -, rfl⟩ := List.mem_map.mp hw
  exact Nat.toDigits_ne_nil

theorem words_inj {segments segments' : List ℕ} (h : words segments = words segments') :
    segments = segments' :=
  List.map_injective_iff.mpr (fun _ _ ↦ toDigits_inj (by decide) (by decide)) h

def segmentsText (segments : List ℕ) : List Char :=
  if (zeroes segments).len > 1 then
    elided ':' (words (segments.take (zeroes segments).start))
      (words (segments.drop ((zeroes segments).start + (zeroes segments).len)))
  else [':'].intercalate (words segments)

theorem restored_segmentsText {segments : List ℕ} (hne : segments ≠ []) :
    restored segments.length (Nat.toDigits 16 0) ((segmentsText segments).splitOn ':') =
      words segments := by
  rw [segmentsText]
  split
  · obtain ⟨left, right, heq, hleft, hright⟩ := zeroes_spec segments
    rw [← hleft, ← hright, splitOn_elided notMem_word notMem_word]
    have hlen : segments.length = (words left).length + (zeroes segments).len +
        (words right).length := by
      have hsum := congrArg List.length heq
      simpa [words, Nat.add_assoc] using hsum
    rw [hlen, restored_elided word_ne_nil word_ne_nil]
    conv_rhs => rw [heq]
    simp [words]
  · rw [List.splitOn_intercalate ':' notMem_word (by simpa [words] using hne)]
    exact restored_words word_ne_nil

theorem mem_segmentsText {segments : List ℕ} {c : Char} (hc : c ∈ segmentsText segments) :
    c = ':' ∨ c ∈ hexDigits := by
  have hchunk {chunk : List ℕ} (h : c ∈ [':'].intercalate (words chunk)) :
      c = ':' ∨ c ∈ hexDigits := by
    rcases mem_intercalate h with h | ⟨w, hw, h⟩
    · exact .inl h
    · exact .inr (mem_word hw h)
  rw [segmentsText] at hc
  split at hc
  · rcases List.mem_append.mp hc with h | h
    · exact hchunk h
    · rcases List.mem_cons.mp h with h | h
      · exact .inl h
      · rcases List.mem_cons.mp h with h | h
        · exact .inl h
        · exact hchunk h
  · exact hchunk hc

theorem segmentsText_inj {segments segments' : List ℕ} (hne : segments ≠ [])
    (hlen : segments.length = segments'.length)
    (h : segmentsText segments = segmentsText segments') : segments = segments' := by
  have hne' : segments' ≠ [] := by
    intro hnil
    rw [hnil] at hlen
    exact hne (List.length_eq_zero_iff.mp hlen)
  apply words_inj
  rw [← restored_segmentsText hne, ← restored_segmentsText hne', h, hlen]

theorem length_segmentsOf {k : ℕ} {octets : List UInt8} (h : octets.length = 2 * k) :
    (segmentsOf octets).length = k := by
  induction k generalizing octets with
  | zero =>
    rw [List.length_eq_zero_iff.mp h]
    rfl
  | succ k ih =>
    match octets, h with
    | hi :: lo :: rest, h =>
      have hrest : rest.length = 2 * k := by
        simp only [List.length_cons] at h
        omega
      rw [segmentsOf, List.length_cons, ih hrest]

theorem segmentsOf_inj {k : ℕ} {octets octets' : List UInt8} (hlen : octets.length = 2 * k)
    (hlen' : octets'.length = 2 * k) (h : segmentsOf octets = segmentsOf octets') :
    octets = octets' := by
  induction k generalizing octets octets' with
  | zero => rw [List.length_eq_zero_iff.mp hlen, List.length_eq_zero_iff.mp hlen']
  | succ k ih =>
    match octets, octets', hlen, hlen', h with
    | hi :: lo :: rest, hi' :: lo' :: rest', hlen, hlen', h =>
      simp only [List.length_cons] at hlen hlen'
      obtain ⟨hsegment, htail⟩ := List.cons_eq_cons.mp h
      have hlo := lo.toNat_lt
      have hlo' := lo'.toNat_lt
      have hhi : hi = hi' := UInt8.toNat_inj.mp (by omega)
      have hlow : lo = lo' := UInt8.toNat_inj.mp (by omega)
      rw [hhi, hlow, ih (by omega) (by omega) htail]

theorem length_segments (addr : Ipv6Addr) : addr.segments.length = 8 :=
  length_segmentsOf (by rw [List.Vector.toList_length])

theorem segments_inj {a b : Ipv6Addr} (h : a.segments = b.segments) : a = b := by
  have hoctets := segmentsOf_inj (k := 8) (by rw [List.Vector.toList_length])
    (by rw [List.Vector.toList_length]) h
  exact congrArg mk (Subtype.ext hoctets)

theorem toString_of_mapped {addr : Ipv6Addr} {ipv4 : Ipv4Addr}
    (h : addr.toIpv4Mapped = some ipv4) : toString addr = "::ffff:" ++ toString ipv4 := by
  simp only [toString, h]

theorem toList_of_not_mapped {addr : Ipv6Addr} (h : addr.toIpv4Mapped = none) :
    (toString addr).toList = segmentsText addr.segments := by
  have htext : toString addr =
      if (zeroes addr.segments).len > 1 then
        fmtSubslice (addr.segments.take (zeroes addr.segments).start) ++ "::" ++
          fmtSubslice
            (addr.segments.drop ((zeroes addr.segments).start + (zeroes addr.segments).len))
      else fmtSubslice addr.segments := by
    simp only [toString, h]
  rw [htext, segmentsText]
  split
  · simp [toList_fmtSubslice, elided]
  · exact toList_fmtSubslice _

theorem toIpv4Mapped_inj {a b : Ipv6Addr} {ipv4 : Ipv4Addr} (ha : a.toIpv4Mapped = some ipv4)
    (hb : b.toIpv4Mapped = some ipv4) : a = b := by
  unfold toIpv4Mapped at ha hb
  split at ha
  · next hfront =>
    split at hb
    · next hfront' =>
      have hdrop : (a.octets.drop 12).toList = (b.octets.drop 12).toList := by
        rw [Ipv4Addr.mk.inj ((Option.some.inj ha).trans (Option.some.inj hb).symm)]
      rw [List.Vector.toList_drop, List.Vector.toList_drop] at hdrop
      have hoctets : a.octets.toList = b.octets.toList := by
        rw [← List.take_append_drop 12 a.octets.toList, hfront, ← hfront', hdrop,
          List.take_append_drop]
      exact congrArg mk (Subtype.ext hoctets)
    · cases hb
  · cases ha

theorem dot_mem_iff {addr : Ipv6Addr} :
    '.' ∈ (toString addr).toList ↔ addr.toIpv4Mapped ≠ none := by
  cases hmapped : addr.toIpv4Mapped with
  | none =>
    rw [toList_of_not_mapped hmapped]
    refine iff_of_false (fun hdot ↦ ?_) (fun hne ↦ hne rfl)
    rcases mem_segmentsText hdot with h | h
    · exact absurd h (by decide)
    · exact absurd h (by decide)
  | some ipv4 =>
    rw [toString_of_mapped hmapped, String.toList_append]
    refine iff_of_true (List.mem_append_right _ ipv4.dot_mem_toString) (by simp)

theorem toString_inj {a b : Ipv6Addr} (h : toString a = toString b) : a = b := by
  have hkind : a.toIpv4Mapped ≠ none ↔ b.toIpv4Mapped ≠ none := by
    rw [← dot_mem_iff, ← dot_mem_iff, h]
  cases ha : a.toIpv4Mapped with
  | none =>
    have hb : b.toIpv4Mapped = none := by
      by_contra hb
      exact hkind.mpr hb ha
    apply segments_inj
    refine segmentsText_inj (fun hnil ↦ ?_) ?_ ?_
    · have hlen := a.length_segments
      rw [hnil] at hlen
      cases hlen
    · rw [length_segments, length_segments]
    · rw [← toList_of_not_mapped ha, ← toList_of_not_mapped hb, h]
  | some ipv4 =>
    obtain ⟨ipv4', hb⟩ := Option.ne_none_iff_exists'.mp (hkind.mp (by simp [ha]))
    rw [toString_of_mapped ha, toString_of_mapped hb] at h
    have htext := congrArg String.toList h
    rw [String.toList_append, String.toList_append] at htext
    have hipv4 := Ipv4Addr.toString_inj (String.toList_inj.mp (List.append_cancel_left htext))
    rw [← hipv4] at hb
    exact toIpv4Mapped_inj ha hb

theorem mem_toString {addr : Ipv6Addr} {c : Char} (hc : c ∈ (toString addr).toList) :
    c = ':' ∨ c = '.' ∨ c ∈ hexDigits := by
  cases hmapped : addr.toIpv4Mapped with
  | none =>
    rw [toList_of_not_mapped hmapped] at hc
    exact (mem_segmentsText hc).imp_right .inr
  | some ipv4 =>
    rw [toString_of_mapped hmapped, String.toList_append] at hc
    rcases List.mem_append.mp hc with h | h
    · have hfront : "::ffff:".toList = [':', ':', 'f', 'f', 'f', 'f', ':'] := rfl
      have hf : 'f' ∈ hexDigits := by decide
      rw [hfront] at h
      simp only [List.mem_cons, List.not_mem_nil, or_false] at h
      rcases h with rfl | rfl | rfl | rfl | rfl | rfl | rfl <;> simp [hf]
    · exact .inr (Ipv4Addr.mem_toString h)

end Ipv6Addr

namespace IpAddr

theorem mem_toString {addr : IpAddr} {c : Char} (hc : c ∈ (toString addr).toList) :
    c = ':' ∨ c = '.' ∨ c ∈ hexDigits := by
  cases addr with
  | v4 addr => exact .inr (Ipv4Addr.mem_toString hc)
  | v6 addr => exact Ipv6Addr.mem_toString hc

/-- The text of an IPv6 address with a dot in it is the one of a mapped address, which starts
with colons. -/
theorem toString_v4_ne_v6 (a : Ipv4Addr) (b : Ipv6Addr) : toString a ≠ toString b := by
  intro h
  have hdot := a.dot_mem_toString
  rw [h, Ipv6Addr.dot_mem_iff] at hdot
  obtain ⟨ipv4, hmapped⟩ := Option.ne_none_iff_exists'.mp hdot
  rw [Ipv6Addr.toString_of_mapped hmapped] at h
  have hcolon : ':' ∈ (toString a).toList := by
    rw [h, String.toList_append]
    exact List.mem_append_left _ (by decide)
  rcases Ipv4Addr.mem_toString hcolon with h | h
  · exact absurd h (by decide)
  · exact absurd h (by decide)

theorem toString_inj {a b : IpAddr} (h : toString a = toString b) : a = b := by
  cases a with
  | v4 a =>
    cases b with
    | v4 b => exact congrArg v4 (Ipv4Addr.toString_inj h)
    | v6 b => exact absurd h (toString_v4_ne_v6 a b)
  | v6 a =>
    cases b with
    | v4 b => exact absurd h.symm (toString_v4_ne_v6 b a)
    | v6 b => exact congrArg v6 (Ipv6Addr.toString_inj h)

end IpAddr

theorem toString_uint32_inj {a b : UInt32} (h : toString a = toString b) : a = b := by
  have htext : Nat.toDigits 10 a.toNat = Nat.toDigits 10 b.toNat := by
    rw [← Nat.toList_repr, ← Nat.toList_repr]
    exact congrArg String.toList h
  exact UInt32.toNat_inj.mp (toDigits_inj (by decide) (by decide) htext)

theorem toString_uint8_inj {a b : UInt8} (h : toString a = toString b) : a = b := by
  have htext : Nat.toDigits 10 a.toNat = Nat.toDigits 10 b.toNat := by
    rw [← Nat.toList_repr, ← Nat.toList_repr]
    exact congrArg String.toList h
  exact UInt8.toNat_inj.mp (toDigits_inj (by decide) (by decide) htext)

namespace IpNet

theorem eq_of_addr {a b : IpNet} (haddr : a.addr = b.addr) (hlen : a.prefixLen = b.prefixLen) :
    a = b := by
  obtain ⟨_, _, _⟩ | ⟨_, _, _⟩ := a <;> obtain ⟨_, _, _⟩ | ⟨_, _, _⟩ := b
  · cases haddr
    cases hlen
    rfl
  · cases haddr
  · cases haddr
  · cases haddr
    cases hlen
    rfl

theorem toList_toString (net : IpNet) :
    (toString net).toList = (toString net.addr).toList ++ '/' :: (toString net.prefixLen).toList := by
  have htext : toString net = toString net.addr ++ "/" ++ toString net.prefixLen := rfl
  rw [htext, String.toList_append, String.toList_append, List.append_assoc]
  rfl

theorem toString_inj {a b : IpNet} (h : toString a = toString b) : a = b := by
  have htext := congrArg String.toList h
  rw [toList_toString, toList_toString] at htext
  have hslash (addr : IpAddr) : '/' ∉ (toString addr).toList := by
    intro hc
    rcases addr.mem_toString hc with h | h | h <;> exact absurd h (by decide)
  obtain ⟨haddr, hlen⟩ := cut_inj (hslash _) (hslash _) htext
  exact eq_of_addr (IpAddr.toString_inj (String.toList_inj.mp haddr))
    (toString_uint8_inj (String.toList_inj.mp hlen))

end IpNet

theorem Destination.toString_inj {a b : Destination} (h : toString a = toString b) : a = b :=
  congrArg mk (IpNet.toString_inj h)

namespace NextHop

theorem toList_toString (nh : NextHop) : (toString nh).toList = (toString nh.targetAddress).toList ++
    if nh.targetVni = 0 then [] else ' ' :: ("(VNI: " ++ toString nh.targetVni ++ ")").toList := by
  have htext : toString nh = if nh.targetVni ≠ 0 then
      toString nh.targetAddress ++ " (VNI: " ++ toString nh.targetVni ++ ")"
    else toString nh.targetAddress := rfl
  rw [htext]
  by_cases hvni : nh.targetVni = 0
  · rw [if_neg (not_not_intro hvni), if_pos hvni, List.append_nil]
  · rw [if_pos hvni, if_neg hvni]
    simp

/-- Neither the type nor the ports of a next hop are in its text. -/
theorem toString_eq_iff {a b : NextHop} : toString a = toString b ↔
    a.targetAddress = b.targetAddress ∧ a.targetVni = b.targetVni := by
  constructor
  · intro h
    have hspace (nh : NextHop) : ' ' ∉ (toString nh.targetAddress).toList := by
      intro hc
      rcases nh.targetAddress.mem_toString hc with h | h | h <;> exact absurd h (by decide)
    have haddr {addr addr' : IpAddr} (h : (toString addr).toList = (toString addr').toList) :
        addr = addr' := IpAddr.toString_inj (String.toList_inj.mp h)
    have htext := congrArg String.toList h
    rw [toList_toString, toList_toString] at htext
    by_cases ha : a.targetVni = 0
    · by_cases hb : b.targetVni = 0
      · rw [if_pos ha, if_pos hb, List.append_nil, List.append_nil] at htext
        exact ⟨haddr htext, ha.trans hb.symm⟩
      · rw [if_pos ha, if_neg hb, List.append_nil] at htext
        exact absurd (htext ▸ List.mem_append_right _ List.mem_cons_self) (hspace a)
    · by_cases hb : b.targetVni = 0
      · rw [if_neg ha, if_pos hb, List.append_nil] at htext
        exact absurd (htext ▸ List.mem_append_right _ List.mem_cons_self) (hspace b)
      · rw [if_neg ha, if_neg hb] at htext
        obtain ⟨hfront, hend⟩ := cut_inj (hspace a) (hspace b) htext
        simp only [String.toList_append] at hend
        have hvni := List.append_cancel_left (List.append_cancel_right hend)
        exact ⟨haddr hfront, toString_uint32_inj (String.toList_inj.mp hvni)⟩
  · rintro ⟨haddr, hvni⟩
    apply String.toList_inj.mp
    rw [toList_toString, toList_toString, haddr, hvni]

end NextHop

end MetalBond
