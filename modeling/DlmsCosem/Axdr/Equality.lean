import DlmsCosem.Axdr.Iteration
import DlmsCosem.Axdr.Levels
import DlmsCosem.Axdr.Shortest

/-!
# Equality of values

`PartialEq` of a sequence is written by hand and looks at the elements only. That of a compact array is
derived, and looks at the place the array was decoded at and at the levels left there as well. So two
values decoded from the same bytes are equal wherever these stand (`decodeAt_eq_iff`), unless they are
compact arrays.
-/

namespace Dlms

/-- `PartialEq` of sequences. -/
def Seq.eq (s t : Seq) : Bool := s.count == t.count && s.raw == t.raw

/-- `PartialEq` of compact arrays, as it is derived: every field. -/
def CompactArray.eq (c d : CompactArray) : Bool :=
  c.desc == d.desc && c.contents == d.contents && c.descBase == d.descBase &&
    c.contentsBase == d.contentsBase && c.left == d.left

namespace Data

/-- A bit pattern that is not a number. -/
def isNan32 (bits : UInt32) : Bool := 0x7F800000 < bits &&& 0x7FFFFFFF

def isNan64 (bits : UInt64) : Bool := 0x7FF0000000000000 < bits &&& 0x7FFFFFFFFFFFFFFF

/-- `==` of floating-point numbers: none equals what is not a number, and both zeros are equal. -/
def eqF32 (a b : UInt32) : Bool := !isNan32 a && !isNan32 b && (a == b || (a ||| b) &&& 0x7FFFFFFF == 0)

def eqF64 (a b : UInt64) : Bool :=
  !isNan64 a && !isNan64 b && (a == b || (a ||| b) &&& 0x7FFFFFFFFFFFFFFF == 0)

/-- `PartialEq`, as it is derived: the same variant with equal fields. -/
def eq : Data → Data → Bool
  | array s, array t => s.eq t
  | .structure s, .structure t => s.eq t
  | compactArray c, compactArray d => c.eq d
  | float32 a, float32 b => eqF32 a b
  | float64 a, float64 b => eqF64 a b
  | d, e => d == e

/-- The value is no number. -/
def isNan : Data → Bool
  | float32 bits => isNan32 bits
  | float64 bits => isNan64 bits
  | _ => false

end Data

/-! ## Equality of values with the same contents -/

theorem Seq.eq_iff {s t : Seq} : s.eq t = true ↔ s.erased = t.erased := by
  simp [Seq.eq, Seq.erased]

theorem CompactArray.eq_iff {c d : CompactArray} : c.eq d = true ↔ c = d := by
  cases c
  cases d
  simp [CompactArray.eq, and_assoc]

namespace Data

/-- Alike values are equal, if they are no compact arrays of different places. -/
theorem Alike.eq_iff {d e : Data} (h : d.Alike e) (hnan : d.isNan = false) :
    d.eq e = true ↔ ∀ c c', d = compactArray c → e = compactArray c' → c = c' := by
  cases d with
  | array s =>
    obtain ⟨t, rfl, hst⟩ := h.symm.of_seq
    exact ⟨fun _ => nofun, fun _ => Seq.eq_iff.mpr hst.symm⟩
  | «structure» s =>
    cases e with
    | «structure» t => exact ⟨fun _ => nofun, fun _ => Seq.eq_iff.mpr (Data.structure.inj h)⟩
    | _ => cases h
  | compactArray c =>
    obtain ⟨c', rfl, -⟩ := h.symm.of_compactArray
    refine CompactArray.eq_iff.trans ⟨?_, fun hall => hall c c' rfl rfl⟩
    rintro rfl _ _ ⟨⟩ ⟨⟩
    rfl
  | float32 a =>
    obtain rfl : float32 a = e := by cases e <;> first | exact h | cases h
    refine ⟨fun _ => nofun, fun _ => ?_⟩
    simp [eq, eqF32, show isNan32 a = false from hnan]
  | float64 a =>
    obtain rfl : float64 a = e := by cases e <;> first | exact h | cases h
    refine ⟨fun _ => nofun, fun _ => ?_⟩
    simp [eq, eqF64, show isNan64 a = false from hnan]
  | _ =>
    refine ⟨fun _ => nofun, fun _ => ?_⟩
    cases e <;> cases h
    all_goals exact beq_self_eq_true (α := Data) _

end Data

/-! ## Where a decoded value stood -/

/-- The bytes that a decoder read are those before what it left. -/
theorem Echoes.elsewhere {α β : Type} {S : α → β → Prop} {m : Read α} {m' : Read β} (h : Echoes S m m')
    {r r' : Reader} {a : α} {e : Bytes} (hm : m r = (.ok a, r')) (he : r.rest = e ++ r'.rest) :
    r.Consumed e r'.rest r' ∧ Takes m' e (S a) := by
  obtain ⟨bs, tail, hc, ht⟩ := h r a r' hm
  obtain rfl : bs = e := by
    have hrest := hc.rest
    rw [he, hc.after] at hrest
    exact (List.append_cancel_right hrest).symm
  exact ⟨⟨he, hc.advanced⟩, ht⟩

theorem DataTag.asU8_inj {s t : DataTag} (h : s.asU8 = t.asU8) : s = t :=
  Option.some.inj (by rw [← fromU8_asU8 s, ← fromU8_asU8 t, h])

theorem CompactArray.decodeBody_placed {left : Nat} {r r' : Reader} {c : CompactArray}
    (h : decodeBody left r = (.ok c, r')) :
    c.left = left ∧ c.descBase = r.offset ∧ c.contentsBase + c.contents.length = r'.offset := by
  unfold decodeBody at h
  split at h
  · cases h
  · obtain ⟨descBase, r₁, hbase, h⟩ := Prog.bind_ok h
    obtain ⟨used, r₂, -, h⟩ := Prog.bind_ok h
    obtain ⟨desc, r₃, -, h⟩ := Prog.bind_ok h
    obtain ⟨len, r₄, -, h⟩ := Prog.bind_ok h
    obtain ⟨contentsBase, r₅, hcontents, h⟩ := Prog.bind_ok h
    obtain ⟨contents, r₆, htake, h⟩ := Prog.bind_ok h
    obtain ⟨rfl, rfl⟩ : CompactArray.mk desc contents descBase contentsBase left = c ∧ r₆ = r' := by
      simpa using h
    obtain ⟨rfl, rfl⟩ : r.offset = descBase ∧ r = r₁ := by simpa [Read.offset] using hbase
    obtain ⟨rfl, rfl⟩ : r₄.offset = contentsBase ∧ r₄ = r₅ := by simpa [Read.offset] using hcontents
    refine ⟨rfl, rfl, ?_⟩
    rw [(Read.take_ok htake).2.2.offset, Read.length_take htake]

namespace Data

/-- A decoded value begins with its tag, and a compact array keeps its place and the levels left. -/
structure Placed (left : Nat) (r r' : Reader) (d : Data) : Prop where
  head : r.rest.head? = some d.tag.asU8
  compact : ∀ c, d = compactArray c → c.left + 1 = left ∧ c.descBase = r.offset + 1 ∧
    c.contentsBase + c.contents.length = r'.offset

theorem decodeAt_placed {left : Nat} {r r' : Reader} {d : Data} (h : decodeAt left r = (.ok d, r')) :
    d.Placed left r r' := by
  cases left with
  | zero => cases h
  | succ left =>
    obtain ⟨b, r₁, hb, h⟩ := Prog.bind_ok h
    obtain ⟨hhead, hadv⟩ : r.rest.head? = some b ∧ r.Advanced 1 r₁ := by
      obtain ⟨hrest, hadv⟩ := Read.u8_ok hb
      exact ⟨by rw [hrest]; rfl, hadv⟩
    cases htag : DataTag.fromU8 b with
    | none =>
      rw [htag] at h
      cases h
    | some tag =>
      rw [htag] at h
      obtain rfl := DataTag.asU8_of_fromU8 htag
      cases tag with
      | nullData | dontCare =>
        obtain rfl := Except.ok.inj (Prod.mk.inj h).1
        exact ⟨hhead, nofun⟩
      | bitString =>
        obtain ⟨bits, r₂, -, h⟩ := Prog.bind_ok h
        obtain ⟨bytes, r₃, -, h⟩ := Prog.bind_ok h
        obtain rfl := Except.ok.inj (Prod.mk.inj h).1
        exact ⟨hhead, nofun⟩
      | compactArray =>
        obtain ⟨c, r₂, hbody, h⟩ := Prog.bind_ok h
        obtain ⟨rfl, rfl⟩ : compactArray c = d ∧ r₂ = r' := by simpa using h
        obtain ⟨hleft, hdesc, hcontents⟩ := CompactArray.decodeBody_placed hbody
        refine ⟨hhead, ?_⟩
        rintro _ ⟨⟩
        exact ⟨by rw [hleft], by rw [hdesc, hadv.offset], hcontents⟩
      | _ =>
        obtain ⟨v, r₂, -, h⟩ := Prog.bind_ok h
        obtain rfl := Except.ok.inj (Prod.mk.inj h).1
        exact ⟨hhead, nofun⟩

theorem of_tag_compactArray {d : Data} (h : d.tag = .compactArray) : ∃ c, d = compactArray c := by
  cases d with
  | compactArray c => exact ⟨c, rfl⟩
  | _ => cases h

theorem Alike.tag {d e : Data} (h : d.Alike e) : d.tag = e.tag := by
  have herased : ∀ d : Data, d.erased.tag = d.tag := fun d => by cases d <;> rfl
  rw [← herased d, ← herased e, h]

section SameBytes

variable {left₁ left₂ : Nat} {r₁ r₁' r₂ r₂' : Reader} {e : Bytes} {d₁ d₂ : Data}

/-- What a decoder consumed is its value's bytes, which begin with the tag. -/
theorem decodeAt_consumed (h₁ : decodeAt left₁ r₁ = (.ok d₁, r₁')) (he₁ : r₁.rest = e ++ r₁'.rest) :
    r₁.Consumed e r₁'.rest r₁' ∧ e.head? = some d₁.tag.asU8 := by
  obtain ⟨hc, ht⟩ := (decodeAt_mono (Nat.le_refl left₁)).elsewhere h₁ he₁
  refine ⟨hc, ?_⟩
  obtain ⟨d, r, hd, halike, -⟩ := ht (Reader.new e) [] (List.append_nil e).symm
  have hhead := (decodeAt_placed hd).head
  rwa [show d.tag = d₁.tag from halike.tag.symm] at hhead

/-- What is decoded from the same bytes with fewer levels left and with more. -/
theorem decodeAt_alike_of_le (hle : left₁ ≤ left₂) (h₁ : decodeAt left₁ r₁ = (.ok d₁, r₁'))
    (he₁ : r₁.rest = e ++ r₁'.rest) (h₂ : decodeAt left₂ r₂ = (.ok d₂, r₂'))
    (he₂ : r₂.rest = e ++ r₂'.rest) : d₁.Alike d₂ := by
  obtain ⟨-, ht⟩ := (decodeAt_mono hle).elsewhere h₁ he₁
  obtain ⟨d, r, hd, halike, -⟩ := ht r₂ r₂'.rest he₂
  rw [h₂] at hd
  obtain rfl := Except.ok.inj (Prod.mk.inj hd).1
  exact halike

/-- Values decoded from the same bytes are equal, if and only if the bytes are no compact array, or stand
at one place with one number of levels left. -/
theorem decodeAt_eq_iff (h₁ : decodeAt left₁ r₁ = (.ok d₁, r₁')) (he₁ : r₁.rest = e ++ r₁'.rest)
    (h₂ : decodeAt left₂ r₂ = (.ok d₂, r₂')) (he₂ : r₂.rest = e ++ r₂'.rest) (hnan : d₁.isNan = false) :
    d₁.eq d₂ = true ↔
      (e.head? = some DataTag.compactArray.asU8 → r₁.offset = r₂.offset ∧ left₁ = left₂) := by
  have halike : d₁.Alike d₂ := by
    obtain hle | hle := Nat.le_total left₁ left₂
    · exact decodeAt_alike_of_le hle h₁ he₁ h₂ he₂
    · exact (decodeAt_alike_of_le hle h₂ he₂ h₁ he₁).symm
  obtain ⟨hc₁, hhead⟩ := decodeAt_consumed h₁ he₁
  obtain ⟨hc₂, -⟩ := decodeAt_consumed h₂ he₂
  have hoff₁ := hc₁.advanced.offset
  have hoff₂ := hc₂.advanced.offset
  have hp₁ := decodeAt_placed h₁
  have hp₂ := decodeAt_placed h₂
  rw [halike.eq_iff hnan, hhead, Option.some.injEq]
  constructor
  · intro hall htag
    obtain ⟨c₁, rfl⟩ := of_tag_compactArray (DataTag.asU8_inj htag)
    obtain ⟨c₂, rfl, -⟩ := halike.symm.of_compactArray
    obtain rfl := hall c₁ c₂ rfl rfl
    obtain ⟨hleft₁, hdesc₁, -⟩ := hp₁.compact c₁ rfl
    obtain ⟨hleft₂, hdesc₂, -⟩ := hp₂.compact c₁ rfl
    omega
  · rintro hplace c₁ c₂ rfl rfl
    obtain ⟨hleft₁, hdesc₁, hcontents₁⟩ := hp₁.compact c₁ rfl
    obtain ⟨hleft₂, hdesc₂, hcontents₂⟩ := hp₂.compact c₂ rfl
    obtain ⟨hoffset, hleft⟩ := hplace rfl
    have herased : c₁.erased = c₂.erased := Data.compactArray.inj halike
    obtain ⟨hdesc, hcontents⟩ : c₁.desc = c₂.desc ∧ c₁.contents = c₂.contents := by
      simpa [CompactArray.erased] using herased
    -- The end of the contents is the end of the value.
    have hlen := congrArg List.length hcontents
    have hbase : c₁.descBase = c₂.descBase := by omega
    have hcontentsBase : c₁.contentsBase = c₂.contentsBase := by omega
    have hlevels : c₁.left = c₂.left := by omega
    apply CompactArray.eq_iff.mp
    simp [CompactArray.eq, hdesc, hcontents, hbase, hcontentsBase, hlevels]

end SameBytes

/-- The same five bytes on their own and in a structure. -/
theorem compact_array_unequal :
    Read.fromBytes decode [0x13, 0x11, 0x02, 0x07, 0x09] =
        .ok (compactArray ⟨[0x11], [0x07, 0x09], 1, 3, 15⟩) ∧
      Read.fromBytes decode [0x02, 0x01, 0x13, 0x11, 0x02, 0x07, 0x09] =
        .ok (.structure ⟨1, [0x13, 0x11, 0x02, 0x07, 0x09], 2, 15⟩) ∧
      (Seq.iter ⟨1, [0x13, 0x11, 0x02, 0x07, 0x09], 2, 15⟩).next.1 =
        some (.ok (compactArray ⟨[0x11], [0x07, 0x09], 3, 5, 14⟩)) ∧
      (compactArray ⟨[0x11], [0x07, 0x09], 1, 3, 15⟩).eq
        (compactArray ⟨[0x11], [0x07, 0x09], 3, 5, 14⟩) = false := by
  decide +kernel

/-- An octet string at the start of one frame and in an array of another. -/
theorem decodeAt_eq_iff_sample :
    (octetString [0x07, 0x09]).eq (octetString [0x07, 0x09]) = true ↔
      ([0x09, 0x02, 0x07, 0x09].head? = some DataTag.compactArray.asU8 → 0 = 2 ∧ 16 = 15) :=
  @decodeAt_eq_iff 16 15 (Reader.new [0x09, 0x02, 0x07, 0x09])
    ⟨[0x09, 0x02, 0x07, 0x09], 4, 0, by decide⟩ ⟨[0x01, 0x01, 0x09, 0x02, 0x07, 0x09], 2, 0, by decide⟩
    ⟨[0x01, 0x01, 0x09, 0x02, 0x07, 0x09], 6, 0, by decide⟩ [0x09, 0x02, 0x07, 0x09] _ _
    (by decide +kernel) rfl (by decide +kernel) rfl rfl

end Data

end Dlms
