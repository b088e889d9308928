import Mathlib.Data.List.Basic
import Mathlib.Tactic.Cases

/-!
# Text in bytes

Bytes are text where they are UTF-8. A byte below 0x80 is a character of its own and never a part of
another one, so text may be cut in front of it (`Valid.split`), and what follows text is text exactly
where both together are (`Valid.append_iff`).
-/

namespace Text

/-- These bytes are UTF-8. -/
def Valid (bs : List UInt8) : Prop := bs.toByteArray.IsValidUTF8

instance (bs : List UInt8) : Decidable (Valid bs) := inferInstanceAs (Decidable bs.toByteArray.IsValidUTF8)

/-- The characters of some text, in bytes. -/
def bytesOf (cs : List Char) : List UInt8 := cs.flatMap String.utf8EncodeChar

/-- Where a byte first stands. -/
theorem idxOf?_append_cons {front behind : List UInt8} {x : UInt8} (h : x ∉ front) :
    (front ++ x :: behind).idxOf? x = some front.length := by
  rw [List.idxOf?_eq_some_iff]
  refine ⟨by simp, by simp, fun j hj heq => h ?_⟩
  rw [List.getElem_append_left hj] at heq
  rw [← heq]
  exact List.getElem_mem hj

theorem toByteArray_append (as bs : List UInt8) :
    (as ++ bs).toByteArray = as.toByteArray ++ bs.toByteArray := by
  apply ByteArray.ext
  simp [ByteArray.data_append]

theorem toByteArray_injective {as bs : List UInt8} (h : as.toByteArray = bs.toByteArray) : as = bs := by
  have hdata := congrArg (fun b : ByteArray => b.data.toList) h
  simpa using hdata

theorem valid_iff {bs : List UInt8} : Valid bs ↔ ∃ cs, bytesOf cs = bs := by
  constructor
  · rintro ⟨cs, hcs⟩
    exact ⟨cs, (toByteArray_injective hcs).symm⟩
  · rintro ⟨cs, rfl⟩
    exact ⟨cs, rfl⟩

variable {as bs : List UInt8} {x : UInt8}

namespace Valid

theorem nil : Valid [] := valid_iff.mpr ⟨[], rfl⟩

theorem append (ha : Valid as) (hb : Valid bs) : Valid (as ++ bs) := by
  unfold Valid
  rw [toByteArray_append]
  exact ByteArray.IsValidUTF8.append ha hb

/-- What follows text is text if and only if both together are. -/
theorem append_iff (h : Valid as) : Valid (as ++ bs) ↔ Valid bs := by
  obtain ⟨cs, rfl⟩ := valid_iff.mp h
  induction cs with
  | nil => exact Iff.rfl
  | cons c cs ih =>
    have hc : (c :: cs).flatMap String.utf8EncodeChar ++ bs =
        String.utf8EncodeChar c ++ (bytesOf cs ++ bs) := by
      rw [List.flatMap_cons, List.append_assoc]
      rfl
    have hfirst : (String.utf8EncodeChar c).toByteArray = [c].utf8Encode := by
      rw [List.utf8Encode, List.flatMap_singleton]
    unfold Valid bytesOf
    rw [hc, toByteArray_append, hfirst, ByteArray.isValidUTF8_utf8Encode_singleton_append_iff]
    exact ih (valid_iff.mpr ⟨cs, rfl⟩)

theorem flatten {chunks : List (List UInt8)} (h : ∀ chunk ∈ chunks, Valid chunk) :
    Valid chunks.flatten := by
  induction chunks with
  | nil => exact .nil
  | cons chunk chunks ih =>
    rw [List.flatten_cons]
    exact (h chunk (List.mem_cons_self ..)).append (ih fun c hc => h c (List.mem_cons_of_mem _ hc))

end Valid

/-- A byte that begins a character. -/
def Leads (x : UInt8) : Prop := x < 0x80 ∨ 0xC0 ≤ x

instance (x : UInt8) : Decidable (Leads x) := inferInstanceAs (Decidable (_ ∨ _))

theorem leads_of_first {x : UInt8} (h : x.IsUTF8FirstByte) : Leads x := by
  have hall : ∀ n : Fin 256, (UInt8.ofFin n).IsUTF8FirstByte → Leads (UInt8.ofFin n) := by decide +kernel
  exact hall x.toFin h

theorem first_of_ascii {x : UInt8} (h : x < 0x80) : x.IsUTF8FirstByte := by
  have hall : ∀ n : Fin 256, UInt8.ofFin n < 0x80 → (UInt8.ofFin n).IsUTF8FirstByte := by decide +kernel
  exact hall x.toFin h

/-- Text may be cut in front of a byte below 0x80. -/
theorem Valid.split (h : Valid (as ++ x :: bs)) (hx : x < 0x80) : Valid as ∧ Valid (x :: bs) := by
  obtain ⟨cs, hcs⟩ := valid_iff.mp h
  suffices hsplit : Valid as by exact ⟨hsplit, hsplit.append_iff.mp h⟩
  clear h
  induction cs generalizing as with
  | nil =>
    have hlen := congrArg List.length hcs
    simp [bytesOf] at hlen
  | cons c cs ih =>
    rw [bytesOf, List.flatMap_cons] at hcs
    by_cases hlen : as.length < (String.utf8EncodeChar c).length
    · -- The byte stands in the first character, so it begins it.
      have hat : (String.utf8EncodeChar c)[as.length] = x := by
        have hget := congrArg (·[as.length]?) hcs
        rw [← Option.some_inj, ← List.getElem?_eq_getElem hlen]
        simpa [List.getElem?_append_left hlen, List.getElem?_append_right] using hget
      have hfirst : (String.utf8EncodeChar c)[as.length].IsUTF8FirstByte := by
        rw [hat]
        exact first_of_ascii hx
      have hzero : as.length = 0 := UInt8.isUTF8FirstByte_getElem_utf8EncodeChar.mp hfirst
      rw [List.eq_nil_of_length_eq_zero hzero]
      exact .nil
    · obtain ⟨more, rfl⟩ : ∃ more, as = String.utf8EncodeChar c ++ more := by
        have hpre : String.utf8EncodeChar c <+: as ++ x :: bs := ⟨_, hcs⟩
        obtain ⟨more, hmore⟩ := List.prefix_of_prefix_length_le hpre (List.prefix_append as _) (by omega)
        exact ⟨more, hmore.symm⟩
      rw [List.append_assoc, List.append_cancel_left_eq] at hcs
      have hchar : Valid (String.utf8EncodeChar c) :=
        valid_iff.mpr ⟨[c], List.flatMap_singleton ..⟩
      exact hchar.append (ih hcs)

theorem Valid.ascii (hx : x < 0x80) : Valid [x] := by
  have hall : ∀ n : Fin 256, UInt8.ofFin n < 0x80 → Valid [UInt8.ofFin n] := by decide +kernel
  exact hall x.toFin hx

/-- Text may be cut behind a byte below 0x80. -/
theorem Valid.behind (as : List UInt8) (h : Valid (as ++ x :: bs)) (hx : x < 0x80) : Valid bs :=
  (ascii hx).append_iff.mp (h.split hx).2

/-- The first byte of text begins a character. -/
theorem Valid.leads (h : Valid (x :: bs)) : Leads x := by
  obtain ⟨cs, hcs⟩ := valid_iff.mp h
  cases cs with
  | nil => cases hcs
  | cons c cs =>
    have hpos : 0 < (String.utf8EncodeChar c).length := by
      rw [String.length_utf8EncodeChar]
      exact c.utf8Size_pos
    have hat : (String.utf8EncodeChar c)[0] = x := by
      have hget := congrArg (·[0]?) hcs
      rw [← Option.some_inj, ← List.getElem?_eq_getElem hpos]
      simpa [bytesOf, List.getElem?_append_left hpos] using hget
    rw [← hat]
    exact leads_of_first (UInt8.isUTF8FirstByte_getElem_utf8EncodeChar.mpr rfl)

end Text
