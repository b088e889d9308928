import DlmsCosem.Axdr.RoundTrip

/-!
# The same value with more levels left

How deep a value may nest is counted from the outside, so an element of a sequence is decoded with
fewer levels left than a value that stands alone. What a decoder takes with few levels it takes with
more (`Data.decodeAt_mono`), and its value is `Alike`: equal but for the place and the levels, which
are how equality of sequences is defined in the source.
-/

namespace Dlms

/-! ## Values without their place and level -/

/-- Without the place it was read at and the levels left there. -/
def Seq.erased (s : Seq) : Seq := { s with base := 0, left := 0 }

def CompactArray.erased (c : CompactArray) : CompactArray :=
  { c with descBase := 0, contentsBase := 0, left := 0 }

namespace Data

def erased : Data → Data
  | array s => array s.erased
  | .structure s => .structure s.erased
  | compactArray c => compactArray c.erased
  | d => d

/-- The same tag and the same contents. -/
def Alike (d e : Data) : Prop := d.erased = e.erased

theorem Alike.refl (d : Data) : d.Alike d := rfl

theorem Alike.symm {d e : Data} (h : d.Alike e) : e.Alike d := Eq.symm h

theorem Alike.trans {d e f : Data} (h : d.Alike e) (h' : e.Alike f) : d.Alike f := Eq.trans h h'

@[simp] theorem encode_erased (d : Data) : d.erased.encode = d.encode := by
  cases d <;> rfl

@[simp] theorem erased_unplaced (d : Data) : d.unplaced.erased = d.erased := by
  cases d <;> rfl

theorem Alike.encode {d e : Data} (h : d.Alike e) : d.encode = e.encode := by
  rw [← encode_erased d, ← encode_erased e, h]

theorem Same.alike {d e : Data} (h : d.Same e) : d.Alike e := by
  rw [Alike, ← erased_unplaced d, ← erased_unplaced e, h]

theorem Alike.of_seq {s : Seq} {d : Data} (h : d.Alike (array s)) :
    ∃ t, d = array t ∧ t.erased = s.erased := by
  cases d with
  | array t => exact ⟨t, rfl, Data.array.inj h⟩
  | _ => cases h

theorem Alike.of_compactArray {c : CompactArray} {d : Data} (h : d.Alike (compactArray c)) :
    ∃ e, d = compactArray e ∧ e.erased = c.erased := by
  cases d with
  | compactArray e => exact ⟨e, rfl, Data.compactArray.inj h⟩
  | _ => cases h

end Data

/-! ## Decoders with more levels -/

/-- What `m` reads is read by a decoder that it echoes. -/
theorem Takes.through {α β : Type} {m : Read α} {m' : Read β} {S : α → β → Prop} {P : α → Prop}
    {bs : Bytes} (h : Takes m bs P) (hs : Echoes S m m') : ∃ a, P a ∧ Takes m' bs (S a) := by
  obtain ⟨a, r, hr, ha, hadv⟩ := h (Reader.new bs) [] (by simp [Reader.new])
  obtain ⟨cs, tail, hc, ht⟩ := hs _ a r hr
  have hrest : bs ++ [] = cs ++ tail := by simpa [Reader.new] using hc.rest
  have hlen : bs.length = cs.length := by
    have h₁ := hc.advanced.pos
    have h₂ := hadv.pos
    omega
  obtain ⟨rfl, -⟩ := List.append_inj hrest hlen
  exact ⟨a, ha, ht⟩

theorem CompactArray.decodeBody_mono {left left' : Nat} (h : left ≤ left') :
    Echoes (fun c d => c.erased = d.erased) (decodeBody left) (decodeBody left') := by
  unfold decodeBody
  by_cases h0 : left = 0
  · rw [if_pos h0]
    exact .fail
  · rw [if_neg h0, if_neg (by omega)]
    refine Echoes.offset.bind fun o o' _ => .probe (TypeDesc.parseAt_mono h).void fun desc _ =>
      Echoes.length.andThen fun n => Echoes.offset.bind fun p p' _ => (Echoes.take n).map ?_
    rintro contents _ rfl
    rfl

namespace Data

theorem skip_mono {left left' : Nat} (h : left ≤ left') : Echoes Eq (skip left) (skip left') := by
  induction left generalizing left' with
  | zero => exact .fail
  | succ left ih =>
    obtain ⟨k, rfl⟩ : ∃ k, left' = k + 1 := ⟨left' - 1, by omega⟩
    have hle : left ≤ k := by omega
    have ih := ih hle
    refine Echoes.u8.andThen fun b => ?_
    cases DataTag.fromU8 b with
    | none => exact .errBack
    | some tag =>
      cases tag <;> first
        | exact .skip _
        | exact Echoes.length.andThen fun n => ih.times n
        | exact Echoes.length.andThen fun n => .skip _
        | exact (CompactArray.decodeBody_mono hle).void

theorem decodeSeq_mono {left left' : Nat} (h : left ≤ left') :
    Echoes (fun s t => s.erased = t.erased) (decodeSeq left) (decodeSeq left') :=
  Echoes.length.andThen fun n => Echoes.offset.bind fun _ _ _ =>
    .probe ((skip_mono h).times n) fun _ _ => .pure rfl

/-- The value of a decoder that does not look at the levels. -/
theorem alike_of_eq {α : Type} (g : α → Data) : ∀ a b, a = b → (g a).Alike (g b) :=
  fun a b h => by subst h; exact .refl _

theorem decodeAt_mono {left left' : Nat} (h : left ≤ left') :
    Echoes Alike (decodeAt left) (decodeAt left') := by
  cases left with
  | zero => exact .fail
  | succ left =>
    obtain ⟨k, rfl⟩ : ∃ k, left' = k + 1 := ⟨left' - 1, by omega⟩
    have hle : left ≤ k := by omega
    refine Echoes.u8.andThen fun b => ?_
    cases DataTag.fromU8 b with
    | none => exact .errBack
    | some tag =>
      cases tag with
      | nullData | dontCare => exact .pure (.refl _)
      | array => exact (decodeSeq_mono hle).map fun _ _ hs => congrArg array hs
      | «structure» => exact (decodeSeq_mono hle).map fun _ _ hs => congrArg Data.structure hs
      | compactArray =>
        exact (CompactArray.decodeBody_mono hle).map fun _ _ hc => congrArg compactArray hc
      | bitString =>
        exact Echoes.length.andThen fun bits =>
          (Echoes.take _).map (alike_of_eq fun bytes => bitString { bits, bytes })
      | octetString | visibleString | utf8String => exact Echoes.lengthPrefixed.map (alike_of_eq _)
      | boolean => exact Echoes.u8.map (alike_of_eq fun v => boolean (v != 0))
      | unsigned | enum | deltaUnsigned => exact Echoes.u8.map (alike_of_eq _)
      | bcd | integer | deltaInteger => exact Echoes.i8.map (alike_of_eq _)
      | long | deltaLong => exact Echoes.i16.map (alike_of_eq _)
      | longUnsigned | deltaLongUnsigned => exact Echoes.u16.map (alike_of_eq _)
      | doubleLong | deltaDoubleLong => exact Echoes.i32.map (alike_of_eq _)
      | doubleLongUnsigned | float32 | deltaDoubleLongUnsigned => exact Echoes.u32.map (alike_of_eq _)
      | long64 => exact Echoes.i64.map (alike_of_eq _)
      | long64Unsigned | float64 => exact Echoes.u64.map (alike_of_eq _)
      | dateTime => exact (Echoes.take 12).map (alike_of_eq fun bs => dateTime (.fromBytes bs))
      | date => exact (Echoes.take 5).map (alike_of_eq fun bs => date (.fromBytes bs))
      | time => exact (Echoes.take 4).map (alike_of_eq fun bs => time (.fromBytes bs))

end Data

end Dlms
