import MetalBond.Netlink
import MetalBond.NodeCode

namespace MetalBond.AnnounceOption

open Async Task

inductive AnnouncementError
  | malformed (ann : String)
  | vni (part : List Char)
  | destination (part : List Char)
  | nextHop (part : List Char)
  | malformedNat (ann : String)
  | fromPort (part : List Char)
  | toPort (part : List Char)
  | portRange (ann : String)
  deriving DecidableEq

inductive ClientError
  | announcement (e : AnnouncementError)
  | call (e : Error)

structure FromStr where
  ipNet : List Char → Option IpNet
  ipAddr : List Char → Option IpAddr

def u16FromStr : List Char → Option UInt16
  | '+' :: digits => checked digits
  | digits => checked digits
where
  checked (digits : List Char) : Option UInt16 :=
    (digitsToNat digits).bind fun n ↦ if n < UInt16.size then some (.ofNat n) else none

/-- One of the names, in any letter case. The only letters outside ASCII whose lower case is
inside are those of `k` and `i`, which are in none of the names. -/
def Named (names : List String) (part : List Char) : Prop :=
  part.map Char.toLower ∈ names.map String.toList

instance (names : List String) (part : List Char) : Decidable (Named names part) :=
  inferInstanceAs (Decidable (_ ∈ _))

def nextHopTypeFromStr (part : List Char) : NextHopType :=
  if Named ["std", "standard"] part then .standard
  else if Named ["lb", "loadbalancer", "loadbalancer_target"] part then .loadbalancerTarget
  else if Named ["nat"] part then .nat
  else .standard

def parsed {α : Type} (e : AnnouncementError) : Option α → Except AnnouncementError α
  | none => .error e
  | some a => .ok a

/-- The type and the ports, from the parts after the first three. -/
def parseOptions (ann : String) (options : List (List Char)) :
    Except AnnouncementError (NextHopType × UInt16 × UInt16) :=
  let hopType := (options.head?.map nextHopTypeFromStr).getD .standard
  if hopType = .nat then
    match options with
    | [_, fromPart, toPart] => do
      let fromPort ← parsed (.fromPort fromPart) (u16FromStr fromPart)
      let toPort ← parsed (.toPort toPart) (u16FromStr toPart)
      return (hopType, fromPort, toPort)
    | _ => .error (.malformedNat ann)
  else if 1 < options.length then .error (.portRange ann)
  else .ok (hopType, 0, 0)

section Parser

variable (fromStr : FromStr)

def parseAnnouncement (ann : String) : Except AnnouncementError Route :=
  match ann.toList.splitOn '#' with
  | first :: second :: third :: options =>
    if 3 < options.length then .error (.malformed ann)
    else do
      let vni ← parsed (.vni first) (vniFromStr first)
      let net ← parsed (.destination second) (fromStr.ipNet second)
      let addr ← parsed (.nextHop third) (fromStr.ipAddr third)
      let x ← parseOptions ann options
      return (vni, ⟨net⟩, ⟨addr, 0, x.1, x.2.1, x.2.2⟩)
  | _ => .error (.malformed ann)

def announceAll : List String → Code (Except ClientError Unit)
  | [] => return .ok ()
  | ann :: rest =>
    match parseAnnouncement fromStr ann with
    | .error e => return .error (.announcement e)
    | .ok r => do
      match ← announceRoute r.1 r.2.1 r.2.2 with
      | .error e => return .error (.call e)
      | .ok _ => announceAll rest

end Parser

/-- The parts after the first three, with the type and the ports that they ask for. The type
is standard for the texts of `Standard`. -/
inductive Asks (Standard : List Char → Prop) :
    List (List Char) → NextHopType → UInt16 → UInt16 → Prop
  | nothing : Asks Standard [] .standard 0 0
  | standard (part : List Char) : Standard part → Asks Standard [part] .standard 0 0
  | loadbalancer (part : List Char) :
    Named ["lb", "loadbalancer", "loadbalancer_target"] part →
    Asks Standard [part] .loadbalancerTarget 0 0
  | nat (part fromPart toPart : List Char) (fromPort toPort : UInt16) : Named ["nat"] part →
    u16FromStr fromPart = some fromPort → u16FromStr toPart = some toPort →
    Asks Standard [part, fromPart, toPart] .nat fromPort toPort

/-- A text of parts between number signs, and the route that it describes. -/
inductive Describes (fromStr : FromStr) (Standard : List Char → Prop) (ann : String) : Route → Prop
  | mk (first second third : List Char) (options : List (List Char)) (vni : Vni) (net : IpNet)
    (addr : IpAddr) (hopType : NextHopType) (fromPort toPort : UInt16) :
    ann.toList = ['#'].intercalate (first :: second :: third :: options) →
    (∀ part ∈ first :: second :: third :: options, '#' ∉ part) →
    vniFromStr first = some vni → fromStr.ipNet second = some net →
    fromStr.ipAddr third = some addr → Asks Standard options hopType fromPort toPort →
    Describes fromStr Standard ann (vni, ⟨net⟩, ⟨addr, 0, hopType, fromPort, toPort⟩)

/-- Every text that is no name of another type counts as standard. -/
def Other (part : List Char) : Prop :=
  ¬ Named ["lb", "loadbalancer", "loadbalancer_target"] part ∧ ¬ Named ["nat"] part

theorem notMem_of_mem_splitOn {x : Char} {xs part : List Char} (h : part ∈ xs.splitOn x) :
    x ∉ part := by
  induction xs generalizing part with
  | nil =>
    rw [List.splitOn_nil, List.mem_singleton] at h
    simp [h]
  | cons y ys ih =>
    rw [List.splitOn_cons_eq_if_modifyHead] at h
    split at h
    · rcases List.mem_cons.mp h with rfl | h
      · simp
      · exact ih h
    · next hne =>
      obtain ⟨head, tail, hsplit⟩ := List.exists_cons_of_ne_nil (List.splitOn_ne_nil x ys)
      rw [hsplit] at h ih
      rcases List.mem_cons.mp h with rfl | h
      · have hhead := ih List.mem_cons_self
        have hy : x ≠ y := fun he ↦ hne (by simp [he])
        simp [hhead, hy]
      · exact ih (List.mem_cons_of_mem head h)

theorem splitOn_eq_iff {x : Char} {xs : List Char} {parts : List (List Char)} (hne : parts ≠ []) :
    xs.splitOn x = parts ↔ xs = [x].intercalate parts ∧ ∀ part ∈ parts, x ∉ part := by
  constructor
  · rintro rfl
    exact ⟨(List.intercalate_splitOn x).symm, fun part ↦ notMem_of_mem_splitOn⟩
  · rintro ⟨rfl, hfree⟩
    exact List.splitOn_intercalate x hfree hne

theorem parsed_bind {α β : Type} {e : AnnouncementError} {o : Option α}
    {k : α → Except AnnouncementError β} {b : β} :
    (parsed e o >>= k) = .ok b ↔ ∃ a, o = some a ∧ k a = .ok b := by
  cases o with
  | none => simp [parsed, Bind.bind, Except.bind]
  | some a => simp [parsed, Bind.bind, Except.bind]

theorem Named.not {names names' : List String} {part : List Char} (h : Named names part)
    (hdisjoint : ∀ name ∈ names.map String.toList, name ∉ names'.map String.toList) :
    ¬ Named names' part :=
  hdisjoint _ h

theorem nextHopTypeFromStr_nat {part : List Char} :
    nextHopTypeFromStr part = .nat ↔ Named ["nat"] part := by
  constructor
  · intro h
    by_contra hnat
    rw [nextHopTypeFromStr, if_neg hnat] at h
    split at h
    · cases h
    · split at h <;> cases h
  · intro h
    have hstandard : ¬ Named ["std", "standard"] part := h.not (by decide)
    have hloadbalancer : ¬ Named ["lb", "loadbalancer", "loadbalancer_target"] part :=
      h.not (by decide)
    rw [nextHopTypeFromStr, if_neg hstandard, if_neg hloadbalancer, if_pos h]

theorem nextHopTypeFromStr_loadbalancer {part : List Char} :
    nextHopTypeFromStr part = .loadbalancerTarget ↔
      Named ["lb", "loadbalancer", "loadbalancer_target"] part := by
  constructor
  · intro h
    by_contra hloadbalancer
    rw [nextHopTypeFromStr, if_neg hloadbalancer] at h
    split at h
    · cases h
    · split at h <;> cases h
  · intro h
    have hstandard : ¬ Named ["std", "standard"] part := h.not (by decide)
    rw [nextHopTypeFromStr, if_neg hstandard, if_pos h]

theorem nextHopTypeFromStr_standard {part : List Char} :
    nextHopTypeFromStr part = .standard ↔ Other part := by
  rw [Other, ← nextHopTypeFromStr_nat, ← nextHopTypeFromStr_loadbalancer]
  cases nextHopTypeFromStr part <;> simp

section Options

variable {ann : String} {hopType : NextHopType} {fromPort toPort : UInt16}

theorem parseOptions_single {part : List Char} :
    parseOptions ann [part] = .ok (hopType, fromPort, toPort) ↔
      hopType ≠ .nat ∧ nextHopTypeFromStr part = hopType ∧ fromPort = 0 ∧ toPort = 0 := by
  have heq : parseOptions ann [part] = if nextHopTypeFromStr part = .nat then
      .error (.malformedNat ann) else .ok (nextHopTypeFromStr part, 0, 0) := rfl
  rw [heq]
  split
  · next hnat =>
    refine iff_of_false (by simp) fun h ↦ h.1 ?_
    rw [← h.2.1, hnat]
  · next hnat =>
    simp only [Except.ok.injEq, Prod.mk.injEq]
    constructor
    · rintro ⟨rfl, rfl, rfl⟩
      exact ⟨hnat, rfl, rfl, rfl⟩
    · rintro ⟨-, rfl, rfl, rfl⟩
      exact ⟨rfl, rfl, rfl⟩

theorem parseOptions_ports {part fromPart toPart : List Char} :
    parseOptions ann [part, fromPart, toPart] = .ok (hopType, fromPort, toPort) ↔
      hopType = .nat ∧ nextHopTypeFromStr part = .nat ∧ u16FromStr fromPart = some fromPort ∧
        u16FromStr toPart = some toPort := by
  have heq : parseOptions ann [part, fromPart, toPart] =
      if nextHopTypeFromStr part = .nat then do
        let fromPort ← parsed (.fromPort fromPart) (u16FromStr fromPart)
        let toPort ← parsed (.toPort toPart) (u16FromStr toPart)
        return (nextHopTypeFromStr part, fromPort, toPort)
      else .error (.portRange ann) := rfl
  rw [heq]
  split
  · next hnat =>
    simp only [hnat, parsed_bind, Pure.pure, Except.pure, Except.ok.injEq, Prod.mk.injEq]
    constructor
    · rintro ⟨_, hfrom, _, hto, rfl, rfl, rfl⟩
      exact ⟨rfl, trivial, hfrom, hto⟩
    · rintro ⟨rfl, -, hfrom, hto⟩
      exact ⟨_, hfrom, _, hto, rfl, rfl, rfl⟩
  · next hnat => exact iff_of_false (by simp) fun h ↦ hnat h.2.1

theorem parseOptions_ne_ok {options : List (List Char)} (hmany : 1 < options.length)
    (hne : options.length ≠ 3) (x : NextHopType × UInt16 × UInt16) :
    parseOptions ann options ≠ .ok x := by
  unfold parseOptions
  split
  · exact absurd rfl hne
  · simp only [if_pos hmany]
    split <;> simp

theorem parseOptions_eq_ok {options : List (List Char)} :
    parseOptions ann options = .ok (hopType, fromPort, toPort) ↔
      Asks Other options hopType fromPort toPort := by
  constructor
  · intro h
    rcases options with _ | ⟨part, _ | ⟨fromPart, _ | ⟨toPart, _ | ⟨extra, rest⟩⟩⟩⟩
    · cases h
      exact .nothing
    · obtain ⟨hnat, rfl, rfl, rfl⟩ := parseOptions_single.mp h
      cases htype : nextHopTypeFromStr part with
      | standard => exact .standard part (nextHopTypeFromStr_standard.mp htype)
      | nat => exact absurd htype hnat
      | loadbalancerTarget => exact .loadbalancer part (nextHopTypeFromStr_loadbalancer.mp htype)
    · exact absurd h (parseOptions_ne_ok (by simp) (by simp) _)
    · obtain ⟨rfl, hnat, hfrom, hto⟩ := parseOptions_ports.mp h
      exact .nat part fromPart toPart fromPort toPort (nextHopTypeFromStr_nat.mp hnat) hfrom hto
    · exact absurd h (parseOptions_ne_ok (by simp) (by simp) _)
  · intro h
    cases h with
    | nothing => rfl
    | standard part hpart =>
      exact parseOptions_single.mpr
        ⟨by decide, nextHopTypeFromStr_standard.mpr hpart, rfl, rfl⟩
    | loadbalancer part hpart =>
      exact parseOptions_single.mpr
        ⟨by decide, nextHopTypeFromStr_loadbalancer.mpr hpart, rfl, rfl⟩
    | nat part fromPart toPart _ _ hpart hfrom hto =>
      exact parseOptions_ports.mpr ⟨rfl, nextHopTypeFromStr_nat.mpr hpart, hfrom, hto⟩

theorem Asks.length_le {Standard : List Char → Prop} {options : List (List Char)}
    (h : Asks Standard options hopType fromPort toPort) : options.length ≤ 3 := by
  cases h <;> simp

end Options

section Parser

variable {fromStr : FromStr} {ann : String} {r : Route}

theorem parseAnnouncement_eq_ok :
    parseAnnouncement fromStr ann = .ok r ↔ Describes fromStr Other ann r := by
  constructor
  · intro h
    unfold parseAnnouncement at h
    split at h
    · next first second third options hsplit =>
      obtain ⟨htext, hfree⟩ := (splitOn_eq_iff (List.cons_ne_nil _ _)).mp hsplit
      split at h
      · cases h
      · simp only [parsed_bind] at h
        obtain ⟨vni, hvni, net, hnet, addr, haddr, h⟩ := h
        cases hoptions : parseOptions ann options with
        | error e =>
          rw [hoptions] at h
          cases h
        | ok x =>
          rw [hoptions] at h
          cases h
          exact .mk first second third options vni net addr _ _ _ htext hfree hvni hnet haddr
            (parseOptions_eq_ok.mp hoptions)
    · cases h
  · intro h
    cases h with
    | mk first second third options vni net addr hopType fromPort toPort htext hfree hvni hnet haddr
        hasks =>
      have hsplit := (splitOn_eq_iff (List.cons_ne_nil _ _)).mpr ⟨htext, hfree⟩
      have hlen : ¬ 3 < options.length := Nat.not_lt.mpr hasks.length_le
      rw [parseAnnouncement, hsplit]
      simp only [if_neg hlen, parsed_bind]
      refine ⟨vni, hvni, net, hnet, addr, haddr, ?_⟩
      rw [parseOptions_eq_ok.mpr hasks]
      rfl

/-- The parser accepts what describes a route, and the route is announced as described before
the loop goes on; anything else ends the program. -/
theorem announce_iff (fromStr : FromStr) (ann : String) :
    (∀ r, parseAnnouncement fromStr ann = .ok r ↔ Describes fromStr Other ann r) ∧
      (∀ r, Describes fromStr Other ann r → ∀ rest, announceAll fromStr (ann :: rest) = do
        match ← announceRoute r.1 r.2.1 r.2.2 with
        | .error e => return .error (.call e)
        | .ok _ => announceAll fromStr rest) ∧
      ((∀ r, ¬ Describes fromStr Other ann r) → ∃ e, ∀ rest,
        announceAll fromStr (ann :: rest) = return .error (.announcement e)) := by
  refine ⟨fun r ↦ parseAnnouncement_eq_ok, fun r hr rest ↦ ?_, fun hnone ↦ ?_⟩
  · rw [announceAll, parseAnnouncement_eq_ok.mpr hr]
  · cases hparse : parseAnnouncement fromStr ann with
    | ok r => exact absurd (parseAnnouncement_eq_ok.mp hparse) (hnone r)
    | error e =>
      refine ⟨e, fun rest ↦ ?_⟩
      rw [announceAll, hparse]

end Parser

def sampleNet : IpNet := .v4 ⟨⟨⟨[10, 0, 0, 0], rfl⟩⟩, 8, by decide⟩

def sampleAddr : IpAddr := .v4 ⟨⟨[192, 0, 2, 1], rfl⟩⟩

def known : FromStr where
  ipNet part := if part = "10.0.0.0/8".toList then some sampleNet else none
  ipAddr part := if part = "192.0.2.1".toList then some sampleAddr else none

/-- A type that is misspelt becomes the standard one. -/
theorem unknown_type_accepted : ¬ ∀ (fromStr : FromStr) (ann : String) (r : Route),
    parseAnnouncement fromStr ann = .ok r ↔
      Describes fromStr (Named ["std", "standard"]) ann r := by
  intro hall
  let ann := "1#10.0.0.0/8#192.0.2.1#LBB"
  have hparse : parseAnnouncement known ann =
      .ok (1, ⟨sampleNet⟩, ⟨sampleAddr, 0, .standard, 0, 0⟩) := by
    refine parseAnnouncement_eq_ok.mpr (.mk "1".toList "10.0.0.0/8".toList "192.0.2.1".toList
      ["LBB".toList] 1 sampleNet sampleAddr .standard 0 0 ?_ ?_ ?_ ?_ ?_ ?_)
    · decide
    · decide
    · decide
    · rfl
    · rfl
    · exact .standard _ ⟨by decide, by decide⟩
  have hactual : ann.toList.splitOn '#' =
      ["1".toList, "10.0.0.0/8".toList, "192.0.2.1".toList, "LBB".toList] := by decide
  cases (hall known ann _).mp hparse with
  | mk first second third options _ _ _ _ _ _ htext hfree _ _ _ hasks =>
    have hsplit := (splitOn_eq_iff (List.cons_ne_nil _ _)).mpr ⟨htext, hfree⟩
    rw [hactual] at hsplit
    have hoptions : options = ["LBB".toList] := by
      injection hsplit with _ hrest
      injection hrest with _ hrest
      injection hrest with _ hrest
      exact hrest.symm
    rw [hoptions] at hasks
    cases hasks with
    | standard _ hpart => exact absurd hpart (by decide)

end MetalBond.AnnounceOption
