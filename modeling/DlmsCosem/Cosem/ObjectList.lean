import DlmsCosem.Cosem.Access
import DlmsCosem.Cosem.Profile

/-!
# Object lists

An association lists its objects, and with each of them what may be done with its attributes.
`forEachAttributeRight` shows these rights to a visitor. The rights of version 3 are a bit string, and are
taken from its first byte in two ways: `accessByte` takes the byte as it is, `forEachAttributeRight` takes
the number that the bits spell and drops all but the first eight of them. The two agree if and only if no
bit string of fewer than eight bits begins with another byte than zero (`Seq.WholeModes`).
-/

namespace Dlms

/-! ## Numbers of a value -/

/-- `u8::try_from`. -/
def u8TryFrom (n : Nat) : Option UInt8 := if n < 256 then some (.ofNat n) else none

/-- `i8::try_from`. -/
def i8TryFrom (v : Int) : Option Int8 := if -128 ≤ v ∧ v ≤ 127 then some (.ofInt v) else none

namespace BitStr

/-- `bit`: the bit of index `i`, from the most significant one of the first byte on. -/
def bit (b : BitStr) (i : Nat) : Bool :=
  if b.bits ≤ i then false else (b.bytes.getD (i / 8) 0 &&& (0x80 >>> UInt8.ofNat (i % 8))) != 0

/-- The number that the first `n` bits spell. -/
def bitsU32 (b : BitStr) (n : Nat) : UInt32 :=
  (List.range n).foldl (fun v i => (v <<< 1) ||| (b.bit i).toUInt32) 0

/-- `to_u32`. -/
def toU32 (b : BitStr) : UInt32 := b.bitsU32 (min b.bits 32)

end BitStr

namespace Data

/-- `as_i64`. -/
def asI64 : Data → Option Int
  | integer v | deltaInteger v => some v.toInt
  | long v | deltaLong v => some v.toInt
  | doubleLong v | deltaDoubleLong v => some v.toInt
  | long64 v => some v.toInt
  | unsigned v | deltaUnsigned v => some v.toNat
  | longUnsigned v | deltaLongUnsigned v => some v.toNat
  | doubleLongUnsigned v | deltaDoubleLongUnsigned v => some v.toNat
  | long64Unsigned v => if v.toNat < 2 ^ 63 then some v.toNat else none
  | enum v => some v.toNat
  | _ => none

/-- `as_u64`. -/
def asU64 : Data → Option Nat
  | long64Unsigned v => some v.toNat
  | d => do
    let v ← d.asI64
    if 0 ≤ v then some v.toNat else none

/-- `as_obis`. -/
def asObis (d : Data) : Option Obis := do
  let b ← d.asBytes
  if b.length = 6 then some (.ofBytes b) else none

end Data

/-- `get`: the element at an index. -/
def Seq.get (s : Seq) (index : Nat) : Result Data :=
  match s.iter.collect.1[index]? with
  | some item => item
  | none => Error.fail .invalidLength s.base

/-- `ok_or_else` with the error of a value of the wrong kind. -/
def orInvalid {α : Type} : Option α → Result α
  | some a => .ok a
  | none => Error.fail .invalidValue 0

/-! ## Rights -/

/-- The bits that have a name. -/
def AttributeAccess.all : UInt8 := 0x01 ||| 0x02 ||| 0x04 ||| 0x08 ||| 0x10 ||| 0x20 ||| 0x40 ||| 0x80

/-- `from_bits_truncate`. -/
def AttributeAccess.fromBitsTruncate (bits : UInt8) : AttributeAccess := ⟨bits &&& all⟩

/-- The versions of the association class, as far as they write access modes in different ways. -/
inductive AssociationVersion
  | legacy
  | v3
  deriving Repr, DecidableEq

/-- The rights on one attribute. -/
structure AttributeRight where
  attributeId : Int8
  access : AttributeAccess
  hasSelectors : Bool
  deriving Repr, DecidableEq

/-- An entry of an object list. -/
structure ObjectListEntry where
  classId : UInt16
  version : UInt8
  logicalName : Obis
  accessRights : Option Data
  deriving DecidableEq

/-- `access_byte`. -/
def accessByte : Data → Option UInt8
  | .bitString b => b.bytes.head?
  | other => do u8TryFrom (← other.asU64)

/-- The flags that `for_each_attribute_right` makes of an access mode of version 3. -/
def modeByte : Data → UInt8
  | .bitString b => (b.toU32 >>> UInt32.ofNat (min (b.bits - 8) 24)).toUInt8
  | other => (u8TryFrom (other.asU64.getD 0)).getD 0

namespace ObjectListEntry

/-- `from_data`. -/
def fromData (d : Data) : Result ObjectListEntry := do
  let s ← orInvalid d.asStructure
  let classId ← orInvalid (← s.get 0).asU64
  let classId ← orInvalid (if classId < 65536 then some (UInt16.ofNat classId) else none)
  let version ← orInvalid (← s.get 1).asU64
  let version ← orInvalid (u8TryFrom version)
  let logicalName ← orInvalid (← s.get 2).asObis
  let accessRights := (s.get 3).toOption
  return { classId, version, logicalName, accessRights }

/-- The attribute rights, where they are an array. -/
def attributeRights (entry : ObjectListEntry) : Option Seq := do
  let rights ← entry.accessRights
  let s ← rights.asStructure
  let list ← (s.get 0).toOption
  list.asArray

/-- What one element of the attribute rights says. -/
def attributeRight (version : AssociationVersion) (item : Result Data) : Result AttributeRight := do
  let e ← orInvalid (← item).asStructure
  let id ← orInvalid (← e.get 0).asI64
  let attributeId ← orInvalid (i8TryFrom id)
  let mode ← e.get 1
  let access := match version with
    | .legacy => AttributeAccess.fromLegacy ((u8TryFrom (mode.asU64.getD 0)).getD 0)
    | .v3 => .fromBitsTruncate (modeByte mode)
  let hasSelectors := match e.get 2 with
    | .ok d => d != .null
    | .error _ => false
  return { attributeId, access, hasSelectors }

section

variable {S : Type} (version : AssociationVersion) (f : AttributeRight → Prog Error S Unit)

/-- The elements one after another. -/
def visitRights : List (Result Data) → Prog Error S Unit
  | [] => pure ()
  | item :: items => do
    let right ← Prog.ofExcept (attributeRight version item)
    f right
    visitRights items

/-- `for_each_attribute_right`. -/
def forEachAttributeRight (entry : ObjectListEntry) : Prog Error S Unit :=
  match entry.attributeRights with
  | none => pure ()
  | some list => visitRights version f list.iter.collect.1

end

end ObjectListEntry

/-! ## The first byte -/

namespace BitStr

variable {b : BitStr} {n m : Nat}

/-- `bitsU32` in plain numbers. -/
def bitsNat (b : BitStr) (n : Nat) : Nat :=
  (List.range n).foldl (fun v i => 2 * v + (b.bit i).toNat) 0

theorem bitsNat_succ : b.bitsNat (n + 1) = 2 * b.bitsNat n + (b.bit n).toNat := by
  rw [bitsNat, List.range_succ, List.foldl_append]
  rfl

theorem bitsU32_succ : b.bitsU32 (n + 1) = (b.bitsU32 n <<< 1) ||| (b.bit n).toUInt32 := by
  rw [bitsU32, List.range_succ, List.foldl_append]
  rfl

theorem bitsNat_lt (n : Nat) : b.bitsNat n < 2 ^ n := by
  induction n with
  | zero => exact Nat.one_pos
  | succ n ih =>
    have hbit := (b.bit n).toNat_lt
    rw [bitsNat_succ, pow_succ]
    omega

/-- The first 32 bits fit. -/
theorem toNat_bitsU32 (hn : n ≤ 32) : (b.bitsU32 n).toNat = b.bitsNat n := by
  induction n with
  | zero => rfl
  | succ n ih =>
    have hlt := b.bitsNat_lt n
    have hpow : 2 ^ n ≤ 2 ^ 31 := Nat.pow_le_pow_right (by omega) (by omega)
    have hbit := (b.bit n).toNat_lt
    have hshift : (b.bitsU32 n <<< 1).toNat = b.bitsNat n <<< 1 := by
      rw [UInt32.toNat_shiftLeft, ih (by omega)]
      refine Nat.mod_eq_of_lt ?_
      have hone : (1 : UInt32).toNat % 32 = 1 := rfl
      rw [hone, Nat.shiftLeft_eq]
      omega
    have hbool : (b.bit n).toUInt32.toNat = (b.bit n).toNat := by cases b.bit n <;> rfl
    rw [bitsU32_succ, bitsNat_succ, UInt32.toNat_or, hshift, hbool,
      ← Nat.shiftLeft_add_eq_or_of_lt (i := 1) (by omega), Nat.shiftLeft_eq, pow_one, Nat.mul_comm]

/-- Bits behind the first `n` are divided away. -/
theorem bitsNat_div (n m : Nat) : b.bitsNat (n + m) / 2 ^ m = b.bitsNat n := by
  induction m with
  | zero => rw [Nat.add_zero, pow_zero, Nat.div_one]
  | succ m ih =>
    have hbit := (b.bit (n + m)).toNat_lt
    have hhalf : (2 * b.bitsNat (n + m) + (b.bit (n + m)).toNat) / 2 = b.bitsNat (n + m) := by omega
    rw [← Nat.add_assoc, bitsNat_succ, pow_succ', ← Nat.div_div_eq_div_mul, hhalf, ih]

/-- A bit of a byte. -/
theorem bit_toNat (byte : UInt8) {i : Nat} (hi : i < 8) :
    ((byte &&& (0x80 >>> UInt8.ofNat i)) != 0).toNat = byte.toNat / 2 ^ (7 - i) % 2 := by
  have hall : ∀ (i : Fin 8) (v : Fin 256),
      ((UInt8.ofNat v &&& (0x80 >>> UInt8.ofNat i)) != 0).toNat = v / 2 ^ (7 - i.val) % 2 := by
    decide +kernel
  have h := hall ⟨i, hi⟩ ⟨byte.toNat, byte.toNat_lt⟩
  rwa [UInt8.ofNat_toNat] at h

/-- Up to eight bits are in the first byte. -/
theorem bitsNat_first (hn : n ≤ 8) (hbits : n ≤ b.bits) :
    b.bitsNat n = (b.bytes.getD 0 0).toNat / 2 ^ (8 - n) := by
  induction n with
  | zero =>
    have hlt := (b.bytes.getD 0 0).toNat_lt
    exact (Nat.div_eq_of_lt hlt).symm
  | succ n ih =>
    have hbit : (b.bit n).toNat = (b.bytes.getD 0 0).toNat / 2 ^ (7 - n) % 2 := by
      rw [bit, if_neg (by omega), Nat.div_eq_of_lt hn, Nat.mod_eq_of_lt hn, bit_toNat _ hn]
    have hpow : 8 - n = 7 - n + 1 := by omega
    have hsub : 8 - (n + 1) = 7 - n := by omega
    rw [bitsNat_succ, ih (by omega) (by omega), hbit, hpow, hsub, pow_succ, ← Nat.div_div_eq_div_mul]
    omega

end BitStr

/-- Fewer than eight bits, of which the first byte is not the number that they spell. -/
def BitStr.Short (b : BitStr) : Prop := 0 < b.bits ∧ b.bits < 8 ∧ b.bytes.head? ≠ some 0

instance : DecidablePred BitStr.Short := fun _ => inferInstanceAs (Decidable (_ ∧ _ ∧ _))

/-- The bits of a mode in front of the ninth, as many as it has. -/
theorem modeByte_bitString (b : BitStr) :
    (modeByte (.bitString b)).toNat = (b.bytes.getD 0 0).toNat / 2 ^ (8 - b.bits) := by
  have hlt := (b.bytes.getD 0 0).toNat_lt
  have hmin : min b.bits 32 ≤ 32 := Nat.min_le_right _ _
  have hshift : (UInt32.ofNat (min (b.bits - 8) 24)).toNat % 32 = min (b.bits - 8) 24 := by
    rw [UInt32.toNat_ofNat']
    omega
  have hbits : b.toU32.toNat / 2 ^ min (b.bits - 8) 24 = (b.bytes.getD 0 0).toNat / 2 ^ (8 - b.bits) := by
    rw [BitStr.toU32, BitStr.toNat_bitsU32 hmin]
    by_cases h : 8 ≤ b.bits
    · have hsplit : min b.bits 32 = 8 + min (b.bits - 8) 24 := by omega
      have hzero : 8 - b.bits = 8 - 8 := by omega
      rw [hsplit, BitStr.bitsNat_div, BitStr.bitsNat_first le_rfl h, hzero]
    · have hmin : min b.bits 32 = b.bits := by omega
      have hzero : min (b.bits - 8) 24 = 0 := by omega
      rw [hmin, hzero, pow_zero, Nat.div_one, BitStr.bitsNat_first (by omega) le_rfl]
  have hle := Nat.div_le_self (b.bytes.getD 0 0).toNat (2 ^ (8 - b.bits))
  rw [modeByte, UInt32.toNat_toUInt8, UInt32.toNat_shiftRight, hshift, Nat.shiftRight_eq_div_pow, hbits]
  exact Nat.mod_eq_of_lt (by omega)

/-- The two ways to take a number agree: what is not one is zero. -/
theorem modeByte_number {mode : Data} (h : ∀ b, mode ≠ .bitString b) :
    modeByte mode = (accessByte mode).getD 0 := by
  have hnumber : ∀ v : Option Nat, (u8TryFrom (v.getD 0)).getD 0 = (v.bind u8TryFrom).getD 0 := by
    intro v
    cases v <;> rfl
  unfold modeByte accessByte
  split
  · exact absurd rfl (h _)
  · exact hnumber _

/-- The two ways to take a mode agree. -/
theorem modeByte_eq_iff {mode : Data}
    (h : ∀ b, mode = .bitString b → b.bytes.length = (b.bits + 7) / 8) :
    modeByte mode = (accessByte mode).getD 0 ↔ ∀ b, mode = .bitString b → ¬ b.Short := by
  cases mode with
  | bitString b =>
    have hlen := h b rfl
    have hshort : (∀ b', Data.bitString b = .bitString b' → ¬ b'.Short) ↔ ¬ b.Short := by simp
    rw [hshort, ← UInt8.toNat_inj, modeByte_bitString, accessByte, BitStr.Short]
    match hbytes : b.bytes with
    | [] =>
      rw [hbytes, List.length_nil] at hlen
      exact iff_of_true (Nat.zero_div _) (by omega)
    | byte :: tail =>
      rw [hbytes, List.length_cons] at hlen
      have hlt := byte.toNat_lt
      have hzero : byte = 0 ↔ byte.toNat = 0 := UInt8.toNat_inj.symm
      rw [List.getD_cons_zero, List.head?_cons, Option.getD_some, ne_eq, Option.some.injEq, hzero]
      by_cases hbits : 8 ≤ b.bits
      · have hnone : 8 - b.bits = 0 := by omega
        rw [hnone, pow_zero, Nat.div_one]
        exact iff_of_true rfl (by omega)
      · -- At least one bit is dropped, and that halves the byte.
        have hpow : 2 ≤ 2 ^ (8 - b.bits) := by
          calc 2 = 2 ^ 1 := rfl
            _ ≤ 2 ^ (8 - b.bits) := Nat.pow_le_pow_right (by omega) (by omega)
        have hdiv : byte.toNat / 2 ^ (8 - b.bits) = byte.toNat ↔ byte.toNat = 0 := by
          refine ⟨fun hd => ?_, fun h0 => by rw [h0, Nat.zero_div]⟩
          by_contra hne
          exact absurd hd (Nat.div_lt_self (Nat.pos_of_ne_zero hne) hpow).ne
        rw [hdiv]
        omega
  | _ => exact iff_of_true (modeByte_number nofun) nofun

/-! ## Elements -/

theorem AttributeAccess.fromBitsTruncate_inj {a b : UInt8} (h : fromBitsTruncate a = fromBitsTruncate b) :
    a = b := by
  have hall : all = -1 := by decide
  simpa [fromBitsTruncate, hall] using h

theorem orInvalid_ok {α : Type} {o : Option α} {a : α} : orInvalid o = .ok a ↔ o = some a := by
  cases o with
  | none => exact iff_of_false nofun nofun
  | some b => rw [orInvalid, Except.ok.injEq, Option.some.injEq]

theorem i8TryFrom_eq_some {v : Int} {i : Int8} : i8TryFrom v = some i ↔ v = i.toInt := by
  have hlow := i.le_toInt
  have hhigh := i.toInt_lt
  unfold i8TryFrom
  split
  · rename_i h
    have hv : (Int8.ofInt v).toInt = v := Int8.toInt_ofInt_of_le (by omega) (by omega)
    rw [Option.some.injEq, ← Int8.toInt_inj, hv]
  · exact iff_of_false nofun (by omega)

/-- A bit string that was decoded has the bytes that its bits need. -/
theorem Data.decodeAt_bits (left : Nat) : Prog.Yields (decodeAt left) fun d =>
    ∀ b, d = .bitString b → b.bytes.length = (b.bits + 7) / 8 := by
  cases left with
  | zero => exact fun _ => nofun
  | succ left =>
    refine (Prog.Yields.any Read.u8).bind fun byte _ => ?_
    cases DataTag.fromU8 byte with
    | none => exact fun _ => nofun
    | some tag =>
      cases tag with
      | nullData | dontCare => exact .pure nofun
      | bitString =>
        refine (Prog.Yields.any Read.length).bind fun bits _ => ?_
        refine Prog.Yields.map (.of_ok Read.length_take) fun bytes hlen => ?_
        rintro _ ⟨⟩
        exact hlen
      | _ => exact (Prog.Yields.any _).map fun _ _ => nofun

theorem Seq.get_bits {s : Seq} {i : Nat} {d : Data} (h : s.get i = .ok d) :
    ∀ b, d = .bitString b → b.bytes.length = (b.bits + 7) / 8 := by
  unfold get at h
  split at h
  · rename_i item hitem
    obtain rfl : item = .ok d := h
    obtain ⟨r, r', hr⟩ := SeqIter.decoded_of_mem (List.mem_of_getElem? hitem)
    exact (Data.decodeAt_bits _).of_run hr
  · cases h

namespace ObjectListEntry

/-- The item is the rights on this attribute, with this access mode. -/
def IsRight (item : Result Data) (id : Int8) (mode : Data) : Prop :=
  ∃ e d, item = .ok (.structure e) ∧ e.get 0 = .ok d ∧ d.asI64 = some id.toInt ∧ e.get 1 = .ok mode

/-- The flags are the first byte of the access mode. -/
def Reports (item : Result Data) (right : AttributeRight) : Prop :=
  ∃ mode, IsRight item right.attributeId mode ∧
    right.access = .fromBitsTruncate ((accessByte mode).getD 0)

variable {item : Result Data} {id : Int8} {mode mode' : Data} {right : AttributeRight}

theorem IsRight.unique {id' : Int8} (h : IsRight item id mode) (h' : IsRight item id' mode') :
    mode = mode' := by
  obtain ⟨e, d, rfl, -, -, hmode⟩ := h
  obtain ⟨e', d', he, -, -, hmode'⟩ := h'
  obtain rfl : e = e' := by simpa using he
  exact Except.ok.inj (hmode.symm.trans hmode')

theorem IsRight.bits (h : IsRight item id mode) :
    ∀ b, mode = .bitString b → b.bytes.length = (b.bits + 7) / 8 := by
  obtain ⟨e, d, -, -, -, hmode⟩ := h
  exact Seq.get_bits hmode

theorem attributeRight_ok (h : attributeRight .v3 item = .ok right) :
    ∃ mode, IsRight item right.attributeId mode ∧ right.access = .fromBitsTruncate (modeByte mode) := by
  obtain ⟨entry, hitem, h⟩ := Result.bind_ok.mp h
  obtain ⟨e, he, h⟩ := Result.bind_ok.mp h
  obtain ⟨d, hd, h⟩ := Result.bind_ok.mp h
  obtain ⟨id, hid, h⟩ := Result.bind_ok.mp h
  obtain ⟨attributeId, hattr, h⟩ := Result.bind_ok.mp h
  obtain ⟨mode, hmode, h⟩ := Result.bind_ok.mp h
  obtain rfl := Except.ok.inj h
  obtain rfl := i8TryFrom_eq_some.mp (orInvalid_ok.mp hattr)
  have hentry : entry = .structure e := by
    cases entry with
    | «structure» s => exact congrArg Data.structure (Except.ok.inj he)
    | _ => cases he
  exact ⟨mode, ⟨e, d, by rw [hitem, hentry], hd, orInvalid_ok.mp hid, hmode⟩, rfl⟩

theorem IsRight.attributeRight (h : IsRight item id mode) : ∃ right,
    ObjectListEntry.attributeRight .v3 item = .ok right := by
  obtain ⟨e, d, rfl, hd, hid, hmode⟩ := h
  refine ⟨_, Result.bind_ok.mpr ⟨_, rfl, Result.bind_ok.mpr ⟨e, rfl, Result.bind_ok.mpr ⟨d, hd,
    Result.bind_ok.mpr ⟨id.toInt, orInvalid_ok.mpr hid, Result.bind_ok.mpr ⟨id,
      orInvalid_ok.mpr (i8TryFrom_eq_some.mpr rfl), Result.bind_ok.mpr ⟨mode, hmode, rfl⟩⟩⟩⟩⟩⟩⟩

/-- An element that is read is reported faithfully but where its mode is short. -/
theorem reports_iff (h : attributeRight .v3 item = .ok right) :
    Reports item right ↔ ∀ id mode b, IsRight item id mode → mode = .bitString b → ¬ b.Short := by
  obtain ⟨mode, hright, haccess⟩ := attributeRight_ok h
  have hiff := modeByte_eq_iff hright.bits
  constructor
  · rintro ⟨mode', hright', haccess'⟩ id mode'' b hright'' hb
    obtain rfl := hright'.unique hright
    obtain rfl := hright''.unique hright
    exact hiff.mp (AttributeAccess.fromBitsTruncate_inj (haccess.symm.trans haccess')) b hb
  · intro hwhole
    refine ⟨mode, hright, ?_⟩
    rw [haccess, hiff.mpr fun b hb => hwhole _ _ b hright hb]

/-! ## Visits -/

section

variable {S : Type} {done : List (Result Data)} {shown : List AttributeRight}

/-- `f`, and a note of everything that it was called with. -/
def noting (f : AttributeRight → Prog Error S Unit) :
    AttributeRight → Prog Error (S × List AttributeRight) Unit := fun right (s, shown) =>
  ((f right s).1, (f right s).2, shown ++ [right])

/-- The calls stand for a part of the elements, in order: for all of them, where the visit ended well. -/
def Visited (R : Result Data → AttributeRight → Prop) (items : List (Result Data)) (result : Result Unit)
    (shown : List AttributeRight) : Prop :=
  ∃ done rest, items = done ++ rest ∧ List.Forall₂ R done shown ∧ (result = .ok () → rest = [])

/-- The visitor is called once for each element that is read, until it refuses one. -/
theorem visitRights_visited (f : AttributeRight → Prog Error S Unit) (items : List (Result Data))
    (version : AssociationVersion) (s : S) (rights : List AttributeRight) :
    ∃ shown, (visitRights version (noting f) items (s, rights)).2.2 = rights ++ shown ∧
      Visited (fun item right => attributeRight version item = .ok right) items
        (visitRights version (noting f) items (s, rights)).1 shown := by
  induction items generalizing s rights with
  | nil => exact ⟨[], (List.append_nil _).symm, [], [], rfl, .nil, fun _ => rfl⟩
  | cons item items ih =>
    rw [visitRights, Prog.bind_run, Prog.ofExcept_run]
    cases hright : attributeRight version item with
    | error e => exact ⟨[], (List.append_nil _).symm, [], item :: items, rfl, .nil, nofun⟩
    | ok right =>
      dsimp only
      rw [Prog.bind_run, noting]
      match hf : f right s with
      | (.error e, s') => exact ⟨[right], rfl, [item], items, rfl, .cons hright .nil, nofun⟩
      | (.ok (), s') =>
        obtain ⟨shown, hshown, done, rest, hitems, hall, hend⟩ := ih s' (rights ++ [right])
        refine ⟨right :: shown, ?_, item :: done, rest, by rw [hitems]; rfl, .cons hright hall, hend⟩
        rw [List.append_assoc] at hshown
        exact hshown

/-- A visitor that refuses nothing comes past the elements that are read. -/
theorem visitRights_append {version : AssociationVersion}
    (h : List.Forall₂ (fun item right => attributeRight version item = .ok right) done shown)
    (items : List (Result Data)) (rights : List AttributeRight) (s : S) :
    visitRights version (noting fun _ => pure ()) (done ++ items) (s, rights) =
      visitRights version (noting fun _ => pure ()) items (s, rights ++ shown) := by
  induction h generalizing rights with
  | nil => rw [List.nil_append, List.append_nil]
  | @cons item right done shown hright _ ih =>
    rw [List.cons_append, visitRights, hright, Prog.ofExcept_ok, Prog.pure_bind_run, Prog.bind_run]
    have hone : noting (fun _ => (pure () : Prog Error S Unit)) right (s, rights) =
        (.ok (), s, rights ++ [right]) := rfl
    rw [hone]
    dsimp only
    rw [ih, List.append_assoc]
    rfl

end

end ObjectListEntry

/-- No element is a short mode, as far as they are read: up to the first that is no attribute right. -/
def Seq.WholeModes (list : Seq) : Prop :=
  ∀ done item rest id b, list.iter.collect.1 = done ++ item :: rest →
    (∀ x ∈ done, ∃ id mode, ObjectListEntry.IsRight x id mode) →
    ObjectListEntry.IsRight item id (.bitString b) → ¬ b.Short

namespace Seq.WholeModes

open ObjectListEntry

variable {list : Seq}

/-- Where the modes are whole, what was read was reported faithfully. -/
theorem reports (h : list.WholeModes) {front done rest : List (Result Data)} {shown : List AttributeRight}
    (hitems : list.iter.collect.1 = front ++ (done ++ rest))
    (hfront : ∀ x ∈ front, ∃ id mode, IsRight x id mode)
    (hall : List.Forall₂ (fun item right => attributeRight .v3 item = .ok right) done shown) :
    List.Forall₂ Reports done shown := by
  induction hall generalizing front with
  | nil => exact .nil
  | @cons item right done shown hright _ ih =>
    obtain ⟨mode, hmode, -⟩ := attributeRight_ok hright
    have hnext : list.iter.collect.1 = (front ++ [item]) ++ (done ++ rest) := by
      rw [hitems, List.append_assoc]
      rfl
    refine .cons ((reports_iff hright).mpr fun id mode b hmode hb => ?_) (ih hnext fun x hx => ?_)
    · subst hb
      exact h front item (done ++ rest) id b hitems hfront hmode
    · rcases List.mem_append.mp hx with hx | hx
      · exact hfront x hx
      · rw [List.mem_singleton.mp hx]
        exact ⟨_, _, hmode⟩

theorem exists_rights {done : List (Result Data)} (h : ∀ x ∈ done, ∃ id mode, IsRight x id mode) :
    ∃ shown, List.Forall₂ (fun item right => attributeRight .v3 item = .ok right) done shown := by
  induction done with
  | nil => exact ⟨[], .nil⟩
  | cons x done ih =>
    obtain ⟨_, _, hx⟩ := h x (List.mem_cons_self ..)
    obtain ⟨right, hright⟩ := hx.attributeRight
    obtain ⟨shown, hshown⟩ := ih fun y hy => h y (List.mem_cons_of_mem _ hy)
    exact ⟨right :: shown, .cons hright hshown⟩

/-- A visitor that refuses nothing is shown every element that is read, short modes among them. -/
theorem of_visited (h : Visited Reports list.iter.collect.1
      (visitRights .v3 (noting fun _ => (pure () : Prog Error Unit Unit)) list.iter.collect.1 ((), [])).1
      (visitRights .v3 (noting fun _ => (pure () : Prog Error Unit Unit)) list.iter.collect.1 ((), [])).2.2) :
    list.WholeModes := by
  intro done item rest id b hitems hdone hitem
  obtain ⟨shown, hshown⟩ := exists_rights hdone
  obtain ⟨right, hright⟩ := hitem.attributeRight
  -- The visitor was shown the elements up to this one, and then perhaps more of them.
  have hone : List.Forall₂ (fun item right => attributeRight .v3 item = .ok right) (done ++ [item])
      (shown ++ [right]) := List.rel_append hshown (.cons hright .nil)
  have hsplit : done ++ item :: rest = done ++ [item] ++ rest := by simp
  have hrun := visitRights_append hone rest [] ()
  obtain ⟨more, hmore, -⟩ := visitRights_visited (fun _ => (pure () : Prog Error Unit Unit)) rest .v3 ()
    ([] ++ (shown ++ [right]))
  rw [hitems, hsplit, hrun, hmore, List.nil_append] at h
  obtain ⟨done', rest', hparts, hall, -⟩ := h
  rw [List.append_assoc] at hall
  have hdrop := List.forall₂_drop_append _ _ _ hall
  have hlen := hall.length_eq
  rw [List.length_append] at hlen
  -- What stands for it in the report is this element.
  generalize htail : done'.drop shown.length = tail at hdrop
  cases hdrop with
  | @cons x _ tail _ hreports _ =>
    have hx : (done' ++ rest').drop shown.length = x :: (tail ++ rest') := by
      rw [List.drop_append_of_le_length (by omega), htail]
      rfl
    have hitem' : (done ++ [item] ++ rest).drop shown.length = item :: rest := by
      rw [← hshown.length_eq, List.append_assoc, List.drop_left]
      rfl
    rw [← hparts, hitem', List.cons.injEq] at hx
    rw [← hx.1] at hreports
    exact (reports_iff hright).mp hreports id _ b hitem rfl

end Seq.WholeModes

/-- Each call reports an element faithfully, in order and until one is refused, if and only if no access
mode is a short one. -/
theorem attribute_rights_faithful {entry : ObjectListEntry} {list : Seq}
    (h : entry.attributeRights = some list) :
    (∀ (S : Type) (f : AttributeRight → Prog Error S Unit) (s : S) (result : Result Unit) (s' : S)
        (shown : List AttributeRight),
      entry.forEachAttributeRight .v3 (ObjectListEntry.noting f) (s, []) = (result, s', shown) →
      ObjectListEntry.Visited ObjectListEntry.Reports list.iter.collect.1 result shown) ↔
      list.WholeModes := by
  unfold ObjectListEntry.forEachAttributeRight
  rw [h]
  dsimp only
  constructor
  · intro hall
    exact .of_visited (hall Unit (fun _ => pure ()) () _ _ _ rfl)
  · intro hwhole S f s result s' shown hrun
    obtain ⟨shown', hshown, done, rest, hitems, hread, hend⟩ :=
      ObjectListEntry.visitRights_visited f list.iter.collect.1 .v3 s []
    rw [hrun] at hshown hend
    obtain rfl : shown = shown' := hshown
    have hfront : list.iter.collect.1 = [] ++ (done ++ rest) := hitems
    exact ⟨done, rest, hitems, hwhole.reports hfront nofun hread, hend⟩

/-- An entry with one right, of eight bits. -/
theorem attribute_rights_faithful_eight : (Seq.mk 1 [2, 2, 15, 2, 4, 8, 3] 19 13).WholeModes ∧
    ∀ (S : Type) (f : AttributeRight → Prog Error S Unit) (s : S) (result : Result Unit) (s' : S)
      (shown : List AttributeRight),
      (ObjectListEntry.mk 3 0 ⟨1, 0, 1, 8, 0, 255⟩
        (some (.structure ⟨2, [1, 1, 2, 2, 15, 2, 4, 8, 3, 1, 0], 17, 14⟩))).forEachAttributeRight .v3
          (ObjectListEntry.noting f) (s, []) = (result, s', shown) →
        ObjectListEntry.Visited ObjectListEntry.Reports
          (Seq.mk 1 [2, 2, 15, 2, 4, 8, 3] 19 13).iter.collect.1 result shown := by
  have hitems : (Seq.mk 1 [2, 2, 15, 2, 4, 8, 3] 19 13).iter.collect.1 =
      [.ok (.structure ⟨2, [15, 2, 4, 8, 3], 21, 12⟩)] := by decide +kernel
  have hmode : (Seq.mk 2 [15, 2, 4, 8, 3] 21 12).get 1 = .ok (.bitString ⟨8, [3]⟩) := by decide +kernel
  have hwhole : (Seq.mk 1 [2, 2, 15, 2, 4, 8, 3] 19 13).WholeModes := by
    intro done item rest id b hsplit _ hitem
    rw [hitems] at hsplit
    cases done with
    | nil =>
      obtain ⟨e, d, rfl, -, -, hb⟩ := hitem
      obtain rfl : _ = e := Data.structure.inj (Except.ok.inj (List.cons.inj hsplit).1)
      obtain rfl := Data.bitString.inj (Except.ok.inj (hmode.symm.trans hb))
      decide
    | cons x done => exact absurd (congrArg List.length hsplit) (by simp)
  exact ⟨hwhole, (attribute_rights_faithful (by decide +kernel)).mpr hwhole⟩

/-- An entry with one right: on attribute 2, with two bits of access, both set. -/
def shortEntry : Bytes := [0x02, 0x04, 0x12, 0, 3, 0x11, 0, 0x09, 6, 1, 0, 1, 8, 0, 255,
  0x02, 0x02, 0x01, 0x01, 0x02, 0x03, 0x0F, 0x02, 0x04, 0x02, 0xC0, 0x00, 0x01, 0x00]

/-- The flags of the two bits are 3, and the byte that they are in is 0xC0. -/
theorem attribute_rights_short : ∃ (entry : ObjectListEntry) (list e : Seq) (mode : Data),
    (Read.fromBytes Data.decode shortEntry >>= ObjectListEntry.fromData) = .ok entry ∧
      entry.attributeRights = some list ∧ list.iter.collect.1 = [.ok (.structure e)] ∧
      e.get 1 = .ok mode ∧ accessByte mode = some 0xC0 ∧
      entry.forEachAttributeRight .v3 (ObjectListEntry.noting fun _ => (pure () : Prog Error Unit Unit))
        ((), []) = (.ok (), (), [⟨2, .fromBitsTruncate 3, false⟩]) ∧
      ¬ ObjectListEntry.Visited ObjectListEntry.Reports list.iter.collect.1 (.ok ())
        [⟨2, .fromBitsTruncate 3, false⟩] := by
  have hitems : (Seq.mk 1 [2, 3, 15, 2, 4, 2, 192, 0] 19 13).iter.collect.1 =
      [.ok (.structure ⟨3, [15, 2, 4, 2, 192, 0], 21, 12⟩)] := by decide +kernel
  have hmode : (Seq.mk 3 [15, 2, 4, 2, 192, 0] 21 12).get 1 = .ok (.bitString ⟨2, [192]⟩) := by
    decide +kernel
  refine ⟨⟨3, 0, ⟨1, 0, 1, 8, 0, 255⟩, some (.structure ⟨2, [1, 1, 2, 3, 15, 2, 4, 2, 192, 0, 1, 0], 17, 14⟩)⟩,
    ⟨1, [2, 3, 15, 2, 4, 2, 192, 0], 19, 13⟩, _, _, by decide +kernel, by decide +kernel, hitems, hmode, rfl,
    by decide +kernel, ?_⟩
  rintro ⟨done, rest, hdone, hall, hend⟩
  obtain rfl := hend rfl
  rw [hitems, List.append_nil] at hdone
  subst hdone
  cases hall with
  | cons hreports _ =>
    obtain ⟨mode, ⟨e, d, he, -, -, hmode'⟩, haccess⟩ := hreports
    obtain rfl : _ = e := Data.structure.inj (Except.ok.inj he)
    obtain rfl := Except.ok.inj (hmode.symm.trans hmode')
    exact absurd haccess (by decide)

end Dlms
