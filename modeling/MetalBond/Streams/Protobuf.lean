import Mathlib.Algebra.Order.Group.Nat
import Mathlib.Data.List.Basic
import Mathlib.Data.Option.Basic
import Mathlib.Tactic.Common

namespace Streams.Protobuf

/-- Seven bits to a byte, the lowest first; all bytes but the last have their high bit set. -/
def varint (n : ℕ) : List UInt8 :=
  if n < 128 then [n.toUInt8] else (n % 128 + 128).toUInt8 :: varint (n / 128)
termination_by n
decreasing_by omega

/-- At most `k` bytes with their high bit set; the tenth byte of a number has one bit only. -/
def readVarintUpTo : ℕ → List UInt8 → Option (ℕ × List UInt8)
  | _, [] => none
  | 0, b :: bs => if b.toNat < 2 then some (b.toNat, bs) else none
  | k + 1, b :: bs =>
    if b.toNat < 128 then some (b.toNat, bs)
    else (readVarintUpTo k bs).map fun r ↦ (b.toNat - 128 + 128 * r.1, r.2)

def readVarint : List UInt8 → Option (ℕ × List UInt8) := readVarintUpTo 9

theorem readVarintUpTo_varint {n k : ℕ} (h : n < 2 * 128 ^ k) (rest : List UInt8) :
    readVarintUpTo k (varint n ++ rest) = some (n, rest) := by
  have hbyte {n : ℕ} (h : n < 256) : n.toUInt8.toNat = n := by
    rw [Nat.toUInt8_eq, UInt8.toNat_ofNat']
    omega
  induction k generalizing n with
  | zero =>
    have hsmall : n < 2 := by simpa using h
    rw [varint, if_pos (by omega)]
    simp [readVarintUpTo, hbyte (by omega : n < 256), hsmall]
  | succ k ih =>
    rw [varint]
    split
    · next hsmall => simp [readVarintUpTo, hbyte (by omega : n < 256), hsmall]
    · have hdiv : n / 128 < 2 * 128 ^ k := by
        rw [pow_succ] at h
        exact Nat.div_lt_of_lt_mul (by omega)
      have hlarge : ¬ n % 128 + 128 < 128 := by omega
      rw [List.cons_append, readVarintUpTo, hbyte (by omega), if_neg hlarge, ih hdiv]
      simp only [Option.map_some, Option.some.injEq, Prod.mk.injEq, and_true]
      omega

theorem readVarint_varint {n : ℕ} (h : n < 2 ^ 64) (rest : List UInt8) :
    readVarint (varint n ++ rest) = some (n, rest) :=
  readVarintUpTo_varint (h.trans_le (by decide)) rest

theorem length_varint_le {n k : ℕ} (h : n < 128 ^ (k + 1)) : (varint n).length ≤ k + 1 := by
  induction k generalizing n with
  | zero => rw [varint, if_pos (by simpa using h), List.length_singleton]
  | succ k ih =>
    rw [varint]
    split
    · simp
    · have hdiv : n / 128 < 128 ^ (k + 1) := by
        rw [pow_succ] at h
        exact Nat.div_lt_of_lt_mul (by rwa [mul_comm] at h)
      have hlen := ih hdiv
      simp only [List.length_cons]
      omega

theorem length_varint_uint32 (x : UInt32) : (varint x.toNat).length ≤ 5 :=
  length_varint_le (x.toNat_lt.trans (by decide))

theorem length_varint_uint64 (x : UInt64) : (varint x.toNat).length ≤ 10 :=
  length_varint_le (x.toNat_lt.trans (by decide))

theorem length_varint_small {n : ℕ} (h : n < 128) : (varint n).length = 1 := by
  rw [varint, if_pos h, List.length_singleton]

inductive WireType
  | varint
  | sixtyFourBit
  | lengthDelimited
  | startGroup
  | endGroup
  | thirtyTwoBit
  deriving DecidableEq

def WireType.tryFrom : ℕ → Option WireType
  | 0 => some varint
  | 1 => some sixtyFourBit
  | 2 => some lengthDelimited
  | 3 => some startGroup
  | 4 => some endGroup
  | 5 => some thirtyTwoBit
  | _ => none

inductive Value
  | varint (n : ℕ)
  | bytes (bs : List UInt8)
  deriving DecidableEq

abbrev Field := ℕ × Value

def Field.encode : Field → List UInt8
  | (num, .varint n) => Protobuf.varint (num * 8) ++ Protobuf.varint n
  | (num, .bytes bs) => Protobuf.varint (num * 8 + 2) ++ (Protobuf.varint bs.length ++ bs)

def Value.Small : Value → Prop
  | .varint n => n < 2 ^ 64
  | .bytes _ => True

structure Field.Valid (f : Field) : Prop where
  positive : 0 < f.1
  number : f.1 < 2 ^ 29
  value : f.2.Small

def decodeKey (buf : List UInt8) : Option ((ℕ × WireType) × List UInt8) := do
  let (key, buf) ← readVarint buf
  if key < 2 ^ 32 ∧ 8 ≤ key then
    let wireType ← WireType.tryFrom (key % 8)
    return ((key / 8, wireType), buf)
  else none

def advance (len : ℕ) (buf : List UInt8) : Option (List UInt8) :=
  if len ≤ buf.length then some (buf.drop len) else none

/-- The fields of a group, up to its end; `fuel` bounds their number. -/
def skipGroup (skip : WireType → ℕ → List UInt8 → Option (List UInt8)) (tag : ℕ) :
    ℕ → List UInt8 → Option (List UInt8)
  | 0, _ => none
  | fuel + 1, buf => do
    let ((innerTag, wireType), buf) ← decodeKey buf
    if wireType = .endGroup then
      if innerTag = tag then some buf else none
    else
      let buf ← skip wireType innerTag buf
      skipGroup skip tag fuel buf

/-- Groups are nested at most as deep as `limit` says. -/
def skipField : ℕ → WireType → ℕ → List UInt8 → Option (List UInt8)
  | 0, _, _, _ => none
  | limit + 1, wireType, tag, buf =>
    match wireType with
    | .varint => (readVarint buf).map Prod.snd
    | .thirtyTwoBit => advance 4 buf
    | .sixtyFourBit => advance 8 buf
    | .lengthDelimited => do
      let (len, buf) ← readVarint buf
      advance len buf
    | .startGroup => skipGroup (skipField limit) tag buf.length buf
    | .endGroup => none

/-- Only values of the wire types that the messages have are kept. -/
def readField (limit : ℕ) (buf : List UInt8) : Option ((ℕ × Option Value) × List UInt8) := do
  let ((tag, wireType), buf) ← decodeKey buf
  match wireType with
  | .varint =>
    let (n, buf) ← readVarint buf
    return ((tag, some (.varint n)), buf)
  | .lengthDelimited =>
    let (len, buf) ← readVarint buf
    let rest ← advance len buf
    return ((tag, some (.bytes (buf.take len))), rest)
  | wireType =>
    let buf ← skipField limit wireType tag buf
    return ((tag, none), buf)

theorem decodeKey_varint {num k : ℕ} (wireType : WireType) (hk : k < 8)
    (hwire : WireType.tryFrom k = some wireType) (hpos : 0 < num) (hnum : num < 2 ^ 29)
    (rest : List UInt8) :
    decodeKey (varint (num * 8 + k) ++ rest) = some ((num, wireType), rest) := by
  have hkey : num * 8 + k < 2 ^ 32 ∧ 8 ≤ num * 8 + k := by omega
  have hmod : (num * 8 + k) % 8 = k := by omega
  have hdiv : (num * 8 + k) / 8 = num := by omega
  rw [decodeKey, readVarint_varint (hkey.1.trans (by decide)), Option.bind_eq_bind,
    Option.bind_some]
  simp only [if_pos hkey, hmod, hdiv, hwire]
  rfl

theorem advance_append (bs rest : List UInt8) : advance bs.length (bs ++ rest) = some rest := by
  simp [advance]

theorem readField_encode {f : Field} (hf : f.Valid) (hlen : f.encode.length < 2 ^ 64) (limit : ℕ)
    (rest : List UInt8) :
    readField limit (f.encode ++ rest) = some ((f.1, some f.2), rest) := by
  obtain ⟨num, n | bs⟩ := f
  · have hkey := decodeKey_varint .varint (by omega : 0 < 8) rfl hf.positive
      hf.number (varint n ++ rest)
    rw [Field.encode, List.append_assoc, readField, show varint (num * 8) = varint (num * 8 + 0)
      from rfl, hkey]
    change (do
      let (n, buf) ← readVarint (varint n ++ rest)
      return ((num, some (Value.varint n)), buf)) = _
    rw [readVarint_varint hf.value]
    rfl
  · have hbytes : bs.length < 2 ^ 64 := by
      simp only [Field.encode, List.length_append] at hlen
      omega
    have hkey := decodeKey_varint .lengthDelimited (by omega : 2 < 8) rfl hf.positive
      hf.number (varint bs.length ++ (bs ++ rest))
    rw [Field.encode, List.append_assoc, List.append_assoc, readField, hkey]
    change (do
      let (len, buf) ← readVarint (varint bs.length ++ (bs ++ rest))
      let rest ← advance len buf
      return ((num, some (Value.bytes (buf.take len))), rest)) = _
    rw [readVarint_varint hbytes]
    change (do
      let after ← advance bs.length (bs ++ rest)
      return ((num, some (Value.bytes ((bs ++ rest).take bs.length))), after)) = _
    rw [advance_append, List.take_left]
    rfl

theorem varint_ne_nil (n : ℕ) : varint n ≠ [] := by
  rw [varint]
  split <;> exact List.cons_ne_nil _ _

theorem encode_ne_nil (f : Field) : f.encode ≠ [] := by
  obtain ⟨num, n | bs⟩ := f <;> exact fun h ↦ varint_ne_nil _ (List.append_eq_nil_iff.mp h).1

def encodeFields (fs : List Field) : List UInt8 := fs.flatMap Field.encode

/-- `fuel` bounds the number of fields. -/
def readFields (limit : ℕ) : ℕ → List UInt8 → Option (List (ℕ × Option Value))
  | _, [] => some []
  | 0, _ :: _ => none
  | fuel + 1, b :: bs => do
    let (f, rest) ← readField limit (b :: bs)
    let fs ← readFields limit fuel rest
    return f :: fs

def parse (limit : ℕ) (buf : List UInt8) : Option (List (ℕ × Option Value)) :=
  readFields limit buf.length buf

theorem readFields_encodeFields {fs : List Field} (hfs : ∀ f ∈ fs, f.Valid)
    (hlen : (encodeFields fs).length < 2 ^ 64) (limit : ℕ) {fuel : ℕ} (h : fs.length ≤ fuel) :
    readFields limit fuel (encodeFields fs) = some (fs.map fun f ↦ (f.1, some f.2)) := by
  induction fs generalizing fuel with
  | nil => cases fuel <;> rfl
  | cons f fs ih =>
    cases fuel with
    | zero => simp at h
    | succ fuel =>
      have hsum : (encodeFields (f :: fs)).length =
          f.encode.length + (encodeFields fs).length := by simp [encodeFields]
      have hread : readField limit (encodeFields (f :: fs)) =
          some ((f.1, some f.2), encodeFields fs) :=
        readField_encode (hfs f List.mem_cons_self) (by omega) limit _
      have hrest := ih (fun f' hf' ↦ hfs f' (List.mem_cons_of_mem f hf')) (by omega)
        (Nat.le_of_succ_le_succ h)
      cases hbytes : encodeFields (f :: fs) with
      | nil => exact absurd (List.append_eq_nil_iff.mp hbytes).1 (encode_ne_nil f)
      | cons b bs =>
        rw [hbytes] at hread
        simp [readFields, hread, hrest]

theorem length_le_encodeFields (fs : List Field) : fs.length ≤ (encodeFields fs).length := by
  induction fs with
  | nil => simp
  | cons f fs ih =>
    have hpos := List.length_pos_of_ne_nil (encode_ne_nil f)
    simp only [encodeFields, List.flatMap_cons, List.length_append, List.length_cons] at ih ⊢
    omega

theorem parse_encodeFields {fs : List Field} (hfs : ∀ f ∈ fs, f.Valid)
    (hlen : (encodeFields fs).length < 2 ^ 64) (limit : ℕ) :
    parse limit (encodeFields fs) = some (fs.map fun f ↦ (f.1, some f.2)) :=
  readFields_encodeFields hfs hlen limit (length_le_encodeFields fs)

/-- How a message is written as fields and how a field changes what was read of it so far, within
a limit on how deep messages and groups are nested. -/
structure Format (α : Type) where
  fields : α → List Field
  blank : α
  mergeField : ℕ → α → ℕ → Option Value → Option α
  valid : ∀ m, ∀ f ∈ fields m, f.Valid

namespace Format

variable {α : Type} (F : Format α)

def encode (m : α) : List UInt8 := encodeFields (F.fields m)

def merge (limit : ℕ) (m : α) (buf : List UInt8) : Option α := do
  let fs ← parse limit buf
  fs.foldlM (fun m f ↦ F.mergeField limit m f.1 f.2) m

def recursionLimit : ℕ := 100

def decode (buf : List UInt8) : Option α := F.merge recursionLimit F.blank buf

/-- A field that holds a message adds to the message that is there. -/
def mergeMessage (limit : ℕ) (o : Option α) (buf : List UInt8) : Option α :=
  match limit with
  | 0 => none
  | limit + 1 => F.merge limit (o.getD F.blank) buf

@[simp] abbrev put (limit : ℕ) (m : α) (f : Field) : Option α := F.mergeField limit m f.1 (some f.2)

theorem merge_encode {limit : ℕ} {m₀ m : α} (hlen : (F.encode m).length < 2 ^ 64)
    (h : (F.fields m).foldlM (F.put limit) m₀ = some m) :
    F.merge limit m₀ (F.encode m) = some m := by
  rw [merge, encode, parse_encodeFields (F.valid m) hlen, Option.bind_eq_bind, Option.bind_some,
    List.foldlM_map]
  exact h

end Format

@[simp] def asVarint : Option Value → Option ℕ
  | some (.varint n) => some n
  | _ => none

@[simp] def asBytes : Option Value → Option (List UInt8)
  | some (.bytes bs) => some bs
  | _ => none

def ignored {α : Type} (limit : ℕ) (m : α) : Option α := if limit = 0 then none else some m

/-- A field is left out when it has its default. -/
def uint32Field (num : ℕ) (x : UInt32) : List Field :=
  if x = 0 then [] else [(num, .varint x.toNat)]

def boolField (num : ℕ) (b : Bool) : List Field := if b then [(num, .varint 1)] else []

/-- A negative number is extended to 64 bits. -/
def int32Field (num : ℕ) (x : Int32) : List Field :=
  if x = 0 then [] else [(num, .varint x.toInt64.toUInt64.toNat)]

def bytesField (num : ℕ) (bs : List UInt8) : List Field :=
  if bs = [] then [] else [(num, .bytes bs)]

def messageField {α : Type} (F : Format α) (num : ℕ) : Option α → List Field
  | none => []
  | some m => [(num, .bytes (F.encode m))]

def readInt32 (n : ℕ) : Int32 := (UInt64.ofNat n).toInt64.toInt32

@[simp] theorem readInt32_toNat (x : Int32) : readInt32 x.toInt64.toUInt64.toNat = x := by
  simp [readInt32]

section Valid

variable {num : ℕ} (hpos : 0 < num) (hnum : num < 2 ^ 29)

include hpos hnum

theorem valid_uint32Field (x : UInt32) : ∀ f ∈ uint32Field num x, f.Valid := by
  unfold uint32Field
  split
  · exact fun f hf ↦ absurd hf List.not_mem_nil
  · exact List.forall_mem_singleton.mpr ⟨hpos, hnum, x.toNat_lt.trans (by decide)⟩

theorem valid_boolField (b : Bool) : ∀ f ∈ boolField num b, f.Valid := by
  unfold boolField
  split
  · exact List.forall_mem_singleton.mpr ⟨hpos, hnum, by simp [Value.Small]⟩
  · exact fun f hf ↦ absurd hf List.not_mem_nil

theorem valid_int32Field (x : Int32) : ∀ f ∈ int32Field num x, f.Valid := by
  unfold int32Field
  split
  · exact fun f hf ↦ absurd hf List.not_mem_nil
  · exact List.forall_mem_singleton.mpr ⟨hpos, hnum, x.toInt64.toUInt64.toNat_lt⟩

theorem valid_bytesField (bs : List UInt8) : ∀ f ∈ bytesField num bs, f.Valid := by
  unfold bytesField
  split
  · exact fun f hf ↦ absurd hf List.not_mem_nil
  · exact List.forall_mem_singleton.mpr ⟨hpos, hnum, trivial⟩

theorem valid_messageField {α : Type} (F : Format α) (o : Option α) :
    ∀ f ∈ messageField F num o, f.Valid := by
  cases o with
  | none => exact fun f hf ↦ absurd hf List.not_mem_nil
  | some m => exact List.forall_mem_singleton.mpr ⟨hpos, hnum, trivial⟩

end Valid

theorem valid_append {fs fs' : List Field} (h : ∀ f ∈ fs, f.Valid) (h' : ∀ f ∈ fs', f.Valid) :
    ∀ f ∈ fs ++ fs', f.Valid := List.forall_mem_append.mpr ⟨h, h'⟩

section Size

variable {num : ℕ} (h : num < 15)

theorem encodeFields_append (fs fs' : List Field) :
    encodeFields (fs ++ fs') = encodeFields fs ++ encodeFields fs' := List.flatMap_append

theorem length_le_messageField {α : Type} (F : Format α) (m : α) :
    (F.encode m).length ≤ (encodeFields (messageField F num (some m))).length := by
  simp [messageField, encodeFields, Field.encode]
  omega

include h

theorem length_uint32Field (x : UInt32) : (encodeFields (uint32Field num x)).length ≤ 6 := by
  have hlen := length_varint_uint32 x
  unfold uint32Field
  split
  · simp [encodeFields]
  · simp [encodeFields, Field.encode, length_varint_small (by omega : num * 8 < 128)]
    omega

theorem length_int32Field (x : Int32) : (encodeFields (int32Field num x)).length ≤ 11 := by
  have hlen := length_varint_uint64 x.toInt64.toUInt64
  unfold int32Field
  split
  · simp [encodeFields]
  · simp [encodeFields, Field.encode, length_varint_small (by omega : num * 8 < 128)]
    omega

theorem length_boolField (b : Bool) : (encodeFields (boolField num b)).length ≤ 2 := by
  cases b with
  | false => simp [boolField, encodeFields]
  | true =>
    simp [boolField, encodeFields, Field.encode, length_varint_small (by omega : num * 8 < 128),
      length_varint_small (by omega : 1 < 128)]

theorem length_bytesField {bs : List UInt8} (hbs : bs.length < 128) :
    (encodeFields (bytesField num bs)).length ≤ bs.length + 2 := by
  unfold bytesField
  split
  · simp [encodeFields]
  · simp [encodeFields, Field.encode, length_varint_small (by omega : num * 8 + 2 < 128),
      length_varint_small hbs]
    omega

theorem length_messageField {α : Type} {F : Format α} {m : α} (hm : (F.encode m).length < 128) :
    (encodeFields (messageField F num (some m))).length = (F.encode m).length + 2 := by
  simp [messageField, encodeFields, Field.encode, length_varint_small (by omega : num * 8 + 2 < 128),
    length_varint_small hm]
  omega

end Size

section Merge

variable {α : Type} {merge : α → Field → Option α} {m m' : α} {num : ℕ}

theorem foldlM_append_of {m'' : α} {fs fs' : List Field} (h : fs.foldlM merge m = some m')
    (h' : fs'.foldlM merge m' = some m'') : (fs ++ fs').foldlM merge m = some m'' := by
  rw [List.foldlM_append, h]
  exact h'

theorem foldlM_uint32Field {x : UInt32} (hzero : x = 0 → m' = m)
    (h : merge m (num, .varint x.toNat) = some m') :
    (uint32Field num x).foldlM merge m = some m' := by
  unfold uint32Field
  split
  · next hx => simp [hzero hx]
  · simp [h]

theorem foldlM_int32Field {x : Int32} (hzero : x = 0 → m' = m)
    (h : merge m (num, .varint x.toInt64.toUInt64.toNat) = some m') :
    (int32Field num x).foldlM merge m = some m' := by
  unfold int32Field
  split
  · next hx => simp [hzero hx]
  · simp [h]

theorem foldlM_boolField {b : Bool} (hfalse : b = false → m' = m)
    (h : b = true → merge m (num, .varint 1) = some m') :
    (boolField num b).foldlM merge m = some m' := by
  cases b with
  | false => simp [boolField, hfalse rfl]
  | true => simp [boolField, h rfl]

theorem foldlM_bytesField {bs : List UInt8} (hnil : bs = [] → m' = m)
    (h : merge m (num, .bytes bs) = some m') : (bytesField num bs).foldlM merge m = some m' := by
  unfold bytesField
  split
  · next hbs => simp [hnil hbs]
  · simp [h]

theorem foldlM_messageField {β : Type} {F : Format β} {o : Option β} (hnone : o = none → m' = m)
    (h : ∀ b, o = some b → merge m (num, .bytes (F.encode b)) = some m') :
    (messageField F num o).foldlM merge m = some m' := by
  cases o with
  | none => simp [messageField, hnone rfl]
  | some b => simp [messageField, h b rfl]

end Merge

end Streams.Protobuf
