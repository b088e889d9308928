import DlmsCosem.Axdr.Constructed
import DlmsCosem.Axdr.Equality
import DlmsCosem.Codec.Restores

/-!
# Values that stay where they were

A value that is written and read back equals what was written, unless it is no number or a compact
array that is written somewhere else than where it was decoded: `Data.Stays` says where a compact array
has to be written.
-/

namespace Dlms

open Ber

namespace Data

/-- `PartialEq` holds between the value and what is read back of it at `o`. A compact array was decoded
there, at the top of a frame, from lengths in the shortest form. -/
def Stays (d : Data) (o : Nat) : Prop :=
  match d with
  | compactArray c => c.left + 1 = maxDepth ∧ c.descBase = o + 1 ∧
      c.contentsBase = o + 1 + c.desc.length + Emit.lengthSize c.contents.length
  | d => d.isNan = false

instance (d : Data) (o : Nat) : Decidable (d.Stays o) := by
  unfold Stays
  split <;> infer_instance

theorem Stays.not_nan {d : Data} {o : Nat} (h : d.Stays o) : d.isNan = false := by
  cases d <;> first | exact h | rfl

/-- No compact array without a place. -/
def Based (d : Data) : Prop := ∀ c, d = compactArray c → c.descBase ≠ 0

/-- `from_parts` puts a compact array nowhere. -/
theorem Public.described {d : Data} (h : d.Public) (hbase : d.Based) : d.Described := by
  rintro c rfl
  cases h with
  | decoded hle hd => exact (hd.comesBack hle).described c rfl
  | scalar htag => exact absurd rfl htag
  | string hbs _ => cases hbs
  | compactArray _ hnew =>
    obtain rfl := CompactArray.fromParts_ok hnew
    exact absurd rfl (hbase _ rfl)

theorem compactArray_size {c : CompactArray} (hw : WellSized (compactArray c).encode) :
    c.contents.length < 2 ^ 32 ∧ (compactArray c).encode.size =
      1 + (c.desc.length + (Emit.lengthSize c.contents.length + c.contents.length)) := by
  have hbody : WellSized (Emit.length c.contents.length ++ Emit.bytes c.contents) :=
    (WellSized.append (a := Emit.bytes c.desc) hw.append.2).2
  have hlt : c.contents.length < 2 ^ 32 := by
    refine Emit.length_lt hbody.1 ?_
    have hsize := hbody.append.2.2
    rwa [Emit.size, Emit.bytes_data] at hsize
  have hcontents := (Emit.length_sized hlt).append (.bytes c.contents)
  exact ⟨hlt, ((Emit.Sized.u8 _).append ((Emit.Sized.bytes c.desc).append hcontents)).size⟩

/-- What is read back of a value that a program holds, at any place. -/
theorem Public.takes {d : Data} (h : d.Public) (hw : WellSized d.encode) (hbase : d.Based) :
    Takes decode d.encode.data (d.Alike ·) :=
  (h.comesBack hw.1 (h.described hbase)).takes

theorem eq_not_nan {d e : Data} (h : d.eq e = true) : d.isNan = false := by
  cases d with
  | float32 a =>
    cases e with
    | float32 b =>
      simp only [eq, eqF32, Bool.and_eq_true, Bool.not_eq_true'] at h
      exact h.1.1
    | _ => cases h
  | float64 a =>
    cases e with
    | float64 b =>
      simp only [eq, eqF64, Bool.and_eq_true, Bool.not_eq_true'] at h
      exact h.1.1
    | _ => cases h
  | _ => rfl

theorem eq_compactArray {c : CompactArray} {e : Data} (h : (compactArray c).eq e = true) :
    e = compactArray c := by
  cases e with
  | compactArray c' => exact congrArg compactArray (CompactArray.eq_iff.mp h).symm
  | _ => cases h

/-- A value that a program holds equals what is read back of it where it stays, and only there. -/
theorem Public.restores {d : Data} (h : d.Public) :
    Restores decode d.encode d.Stays (d.eq · = true) where
  back hw r tail hr ho := by
    have hbase : d.Based := by
      rintro c rfl
      rw [ho.2.1]
      exact Nat.succ_ne_zero _
    obtain ⟨e, r', hm, halike, hadv⟩ := h.takes hw hbase r tail hr
    refine ⟨e, r', hm, (halike.eq_iff ho.not_nan).mpr ?_, hadv⟩
    rintro c c' rfl rfl
    obtain ⟨hleft, hdesc, hcontents⟩ := (decodeAt_placed hm).compact c' rfl
    obtain ⟨hsleft, hsdesc, hscontents⟩ := ho
    have hsize := (compactArray_size hw).2
    have hend := hadv.offset
    have herased : c.erased = c'.erased := Data.compactArray.inj halike
    obtain ⟨heqdesc, heqcontents⟩ : c.desc = c'.desc ∧ c.contents = c'.contents := by
      simpa [CompactArray.erased] using herased
    have hlen := congrArg List.length heqcontents
    unfold Emit.size at hsize
    obtain ⟨desc, contents, descBase, contentsBase, left⟩ := c
    obtain ⟨desc', contents', descBase', contentsBase', left'⟩ := c'
    dsimp only at *
    rw [heqdesc, heqcontents]
    congr 1 <;> omega
  only hw r tail hr e r' hm heq := by
    cases d with
    | compactArray c =>
      obtain rfl := eq_compactArray heq
      obtain ⟨hleft, hdesc, hcontents⟩ := (decodeAt_placed hm).compact c rfl
      have hbase : (Data.compactArray c).Based := by
        rintro _ ⟨⟩
        rw [hdesc]
        exact Nat.succ_ne_zero _
      obtain ⟨e, r₂, hm₂, -, hadv⟩ := h.takes hw hbase r tail hr
      obtain ⟨-, rfl⟩ := Prod.mk.inj (hm.symm.trans hm₂)
      have hsize := (compactArray_size hw).2
      have hend := hadv.offset
      unfold Emit.size at hsize
      exact ⟨hleft, hdesc, by omega⟩
    | _ => exact eq_not_nan heq

end Data

end Dlms
