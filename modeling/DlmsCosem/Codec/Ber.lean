import DlmsCosem.Codec.Writer
import Mathlib.Tactic.IntervalCases

/-!
# BER

As much of BER as the association-control APDUs need: identifiers of one byte and definite
lengths. `readTlv` refuses an indefinite length and an identifier of several bytes. The encoders
write the shortest length; `readTlv_writeTlv` and `iterTlv_concat` read back what they wrote.
-/

namespace Dlms
namespace Ber

/-- A tag, the contents, and where the contents start. -/
structure Tlv where
  tag : UInt8
  value : Bytes
  offset : Nat
  deriving Repr, DecidableEq

namespace Tlv

/-- True when the identifier says that the contents are TLVs. -/
def isConstructed (t : Tlv) : Bool := t.tag &&& 0x20 != 0

/-- The tag number, for an identifier in the context class. -/
def contextNumber (t : Tlv) : Option UInt8 :=
  if t.tag &&& 0xC0 == 0x80 then some (t.tag &&& 0x1F) else none

/-- A reader over the contents, with offsets of the enclosing buffer. -/
def reader (t : Tlv) : Reader := Reader.withBase t.value t.offset

/-- The contents as one byte. -/
def asU8 (t : Tlv) : Result UInt8 :=
  match t.value with
  | [v] => .ok v
  | _ => Error.fail .invalidLength t.offset

end Tlv

/-- The length of a TLV whose tag has been read. -/
def readLen : Read Nat := do
  let first ← Read.u8
  if first < 0x80 then
    return first.toNat
  else
    let n := (first &&& 0x7F).toNat
    if n == 0 || 4 < n then
      Read.errBack .invalidLength 1
    else
      return beNat (← Read.take n)

/-- Read one TLV. -/
def readTlv : Read Tlv := do
  let tag ← Read.u8
  if tag &&& 0x1F == 0x1F then
    Read.errBack (.invalidTag tag) 1
  else
    let len ← readLen
    let offset ← Read.offset
    let value ← Read.take len
    return { tag, value, offset }

/-- The TLVs that are left, at most `fuel` of them. -/
def iterFrom : Nat → Reader → List (Result Tlv)
  | 0, _ => []
  | fuel + 1, r =>
    if r.isEmpty then [] else
      match readTlv r with
      | (item, r') => item :: iterFrom fuel r'

/-- The TLVs of a buffer. A TLV takes a byte at least, so there are no more of them than bytes. -/
def iterTlv (bytes : Bytes) (base : Nat) : List (Result Tlv) :=
  iterFrom bytes.length (Reader.withBase bytes base)

/-- A loop over the TLVs of a buffer, up to the first error. -/
def foldTlvs {α : Type} (f : α → Tlv → Result α) (init : α) (items : List (Result Tlv)) :
    Result α :=
  items.foldlM (fun out item => item >>= f out) init

/-! ## Writing -/

/-- Write a definite length in the shortest form. The code is that of `write_length`. -/
def writeLen (len : Nat) : Emit :=
  if len < 0x80 then Emit.u8 (UInt8.ofNat len)
  else
    let be := beBytes 8 len
    let first := (be.findIdx? (· != 0)).getD 7
    let n := 8 - first
    if 4 < n then Emit.fail .invalidLength
    else Emit.u8 (0x80 ||| UInt8.ofNat n) ++ Emit.bytes (be.drop first)

/-- Write a tag, a length and the contents. -/
def writeTlv (tag : UInt8) (value : Bytes) : Emit :=
  Emit.u8 tag ++ writeLen value.length ++ Emit.bytes value

/-- Write a tag, the measured length of `body`, and `body`. -/
def writeConstructed (tag : UInt8) (body : Emit) : Emit :=
  match body.fault with
  | some f => Emit.failAt (body.countingError f)
  | none => Emit.u8 tag ++ writeLen body.size ++ body

/-- Write a field that is there. -/
def opt {α : Type} (o : Option α) (f : α → Emit) : Emit :=
  match o with
  | some a => f a
  | none => Emit.empty

/-! ## Reading back -/

theorem beNat_drop_zeros {be : Bytes} {n : Nat} (h : ∀ b ∈ be.take n, b = 0) :
    beNat (be.drop n) = beNat be := by
  induction n generalizing be with
  | zero => rfl
  | succ n ih =>
    cases be with
    | nil => rfl
    | cons b be =>
      simp only [List.take_succ_cons, List.mem_cons, forall_eq_or_imp] at h
      rw [List.drop_succ_cons, ih h.2, beNat_cons, h.1]
      simp

/-- The leading zeros that the shortest form leaves out. -/
theorem leading_zeros {len : Nat} (h0 : 0 < len) (h : len < 2 ^ 32) :
    ∃ first, ((beBytes 8 len).findIdx? (· != 0)).getD 7 = first ∧ 4 ≤ first ∧ first < 8 ∧
      beNat ((beBytes 8 len).drop first) = len := by
  have hbe : beNat (beBytes 8 len) = len := by
    rw [beNat_beBytes, Nat.mod_eq_of_lt (by omega)]
  cases hi : (beBytes 8 len).findIdx? (· != 0) with
  | none =>
    have hz : ∀ b ∈ (beBytes 8 len).take 8, b = 0 := by
      intro b hb
      simpa using List.findIdx?_eq_none_iff.mp hi b (List.mem_of_mem_take hb)
    have := beNat_drop_zeros hz
    rw [hbe, List.drop_of_length_le (by simp)] at this
    simp only [beNat, List.foldl_nil] at this
    omega
  | some i =>
    obtain ⟨hlt, hp, hz⟩ := List.findIdx?_eq_some_iff_getElem.mp hi
    rw [length_beBytes] at hlt
    refine ⟨i, rfl, ?_, hlt, ?_⟩
    · by_contra hi4
      have hhigh : ∀ k, 4 ≤ k → UInt8.ofNat (len / 256 ^ k) = 0 := by
        intro k hk
        have : 256 ^ 4 ≤ 256 ^ k := Nat.pow_le_pow_right (by norm_num) hk
        rw [Nat.div_eq_of_lt (by omega)]
        rfl
      rw [getElem_beBytes, hhigh _ (by omega)] at hp
      cases hp
    · rw [beNat_drop_zeros, hbe]
      intro b hb
      obtain ⟨j, hj, rfl⟩ := List.mem_iff_getElem.mp hb
      rw [List.length_take] at hj
      rw [List.getElem_take]
      simpa using hz j (by omega)

/-- A length of at most four bytes is written without a fault and read back. -/
theorem readLen_writeLen {len : Nat} (h : len < 2 ^ 32) :
    (writeLen len).fault = none ∧ Reads readLen (writeLen len).data fun _ => len := by
  unfold writeLen readLen
  by_cases hshort : len < 0x80
  · rw [if_pos hshort]
    refine ⟨rfl, ?_⟩
    rw [Emit.u8_data]
    rw [← List.append_nil [UInt8.ofNat len]]
    refine (Reads.u8 _).andThen ?_
    have hlt : UInt8.ofNat len < 0x80 := by
      rw [UInt8.lt_iff_toNat_lt, UInt8.toNat_ofNat']
      exact Nat.lt_of_le_of_lt (Nat.mod_le _ _) hshort
    rw [if_pos hlt, UInt8.toNat_ofNat', Nat.mod_eq_of_lt (by omega)]
    exact Reads.pure _
  · rw [if_neg hshort]
    obtain ⟨first, hf, h4, h8, hbe⟩ := leading_zeros (by omega) h
    simp only [hf]
    have hn : ¬ 4 < 8 - first := by omega
    rw [if_neg hn]
    refine ⟨by rw [Emit.append_fault_of_none rfl]; rfl, ?_⟩
    rw [Emit.append_data rfl, Emit.u8_data, Emit.bytes_data]
    refine (Reads.u8 _).andThen ?_
    have hlen : ((beBytes 8 len).drop first).length = 8 - first := by simp
    obtain ⟨n, hn8⟩ : ∃ n, n = 8 - first := ⟨_, rfl⟩
    rw [← hn8] at hlen hn ⊢
    have hn0 : 0 < n := by omega
    have hn4 : n ≤ 4 := by omega
    have hmask : (((0x80 ||| UInt8.ofNat n) &&& 0x7F : UInt8).toNat = n) ∧
        ¬ (0x80 ||| UInt8.ofNat n : UInt8) < 0x80 := by
      clear hn8 hlen hn
      interval_cases n <;> decide
    rw [if_neg hmask.2]
    simp only [hmask.1]
    rw [if_neg (by simp; omega)]
    have h' := (Reads.take hlen).andThen (f := fun bs => pure (beNat bs)) (Reads.pure _)
    rw [List.append_nil, hbe] at h'
    exact h'

variable (tag : UInt8) {value : Bytes}

theorem writeTlv_fault (h : value.length < 2 ^ 32) : (writeTlv tag value).fault = none := by
  have hl := (readLen_writeLen h).1
  rw [writeTlv, Emit.append_fault_of_none, Emit.bytes_fault]
  rw [Emit.append_fault_of_none (Emit.u8_fault _), hl]

theorem writeTlv_data (h : value.length < 2 ^ 32) :
    (writeTlv tag value).data = [tag] ++ ((writeLen value.length).data ++ value) := by
  have hl := (readLen_writeLen h).1
  rw [writeTlv, Emit.append_data, Emit.append_data (Emit.u8_fault _), Emit.bytes_data,
    Emit.u8_data, List.append_assoc]
  rw [Emit.append_fault_of_none (Emit.u8_fault _), hl]

/-- Where the contents of a written TLV start. -/
def headerLen (value : Bytes) : Nat := 1 + (writeLen value.length).data.length

/-- A TLV that was written is read back. -/
theorem readTlv_writeTlv (htag : (tag &&& 0x1F == 0x1F) = false) (h : value.length < 2 ^ 32) :
    Reads readTlv (writeTlv tag value).data fun o => ⟨tag, value, o + headerLen value⟩ := by
  rw [writeTlv_data tag h]
  refine (Reads.u8 tag).bind fun o r tail ho hr => ?_
  rw [htag]
  obtain ⟨r₁, h₁, hadv₁⟩ := (readLen_writeLen h).2 r _ (by rw [hr, List.append_assoc])
  have hr₁ : r₁.rest = value ++ tail := by
    rw [hadv₁.rest, hr, List.append_assoc, List.drop_left]
  obtain ⟨r₂, h₂, hadv₂⟩ := Reads.take rfl r₁ tail hr₁
  refine ⟨r₂, ?_, by rw [List.length_append]; exact hadv₁.trans hadv₂⟩
  change (readLen >>= _) r = _
  rw [Prog.bind_run_ok h₁]
  change (Read.take value.length >>= _) r₁ = _
  rw [Prog.bind_run_ok h₂, Prog.pure_run, hadv₁.offset, ho, headerLen, List.length_singleton,
    Nat.add_assoc]

theorem writeTlv_size_pos (h : value.length < 2 ^ 32) :
    0 < (writeTlv tag value).size := by
  rw [Emit.size, writeTlv_data tag h, List.length_append, List.length_singleton]
  omega

theorem writeConstructed_of_fits {body : Emit} (hf : body.fault = none)
    (h : body.size < 2 ^ 32) :
    (writeConstructed tag body).fault = none ∧
      (writeConstructed tag body).data = (writeTlv tag body.data).data := by
  have hl := (readLen_writeLen h).1
  have hhead : (Emit.u8 tag ++ writeLen body.size).fault = none := by
    rw [Emit.append_fault_of_none (Emit.u8_fault _), hl]
  rw [writeConstructed, hf]
  refine ⟨by rw [Emit.append_fault_of_none hhead, hf], ?_⟩
  rw [Emit.append_data hhead, writeTlv_data tag h, Emit.append_data (Emit.u8_fault _),
    List.append_assoc]
  rfl

/-- A length of more than four bytes is refused. -/
theorem writeLen_lt {len : Nat} (hf : (writeLen len).fault = none) (h : len < 2 ^ 64) :
    len < 2 ^ 32 := by
  by_contra hlen
  unfold writeLen at hf
  rw [if_neg (by omega)] at hf
  simp only at hf
  split at hf
  · cases hf
  · rename_i hn
    have hbe : beNat (beBytes 8 len) = len := by
      rw [beNat_beBytes, Nat.mod_eq_of_lt (by omega)]
    have hz : ∀ b ∈ (beBytes 8 len).take 4, b = 0 := by
      intro b hb
      obtain ⟨j, hj, rfl⟩ := List.mem_iff_getElem.mp hb
      rw [List.length_take, length_beBytes] at hj
      rw [List.getElem_take]
      cases hi : (beBytes 8 len).findIdx? (· != 0) with
      | none =>
        simpa using List.findIdx?_eq_none_iff.mp hi _ (List.getElem_mem _)
      | some i =>
        rw [hi, Option.getD_some] at hn
        obtain ⟨_, _, hz⟩ := List.findIdx?_eq_some_iff_getElem.mp hi
        simpa using hz j (by omega)
    have hlt := beNat_lt ((beBytes 8 len).drop 4)
    rw [beNat_drop_zeros hz, hbe, List.length_drop, length_beBytes] at hlt
    omega

/-- An encoder without a fault whose bytes fit in memory. -/
def WellSized (e : Emit) : Prop := e.fault = none ∧ e.size < 2 ^ 64

theorem WellSized.append {a b : Emit} (h : WellSized (a ++ b)) : WellSized a ∧ WellSized b := by
  obtain ⟨hf, hs⟩ := h
  obtain ⟨ha, hb⟩ := Emit.append_fault_eq_none.mp hf
  rw [Emit.size, Emit.append_data ha, List.length_append] at hs
  exact ⟨⟨ha, Nat.lt_of_le_of_lt (Nat.le_add_right _ _) hs⟩,
    ⟨hb, Nat.lt_of_le_of_lt (Nat.le_add_left _ _) hs⟩⟩

theorem WellSized.tlv {tag : UInt8} {value : Bytes} (h : WellSized (writeTlv tag value)) :
    value.length < 2 ^ 32 := by
  obtain ⟨h₁, h₂⟩ := h.append
  refine writeLen_lt h₁.append.2.1 ?_
  have := h₂.2
  rwa [Emit.size, Emit.bytes_data] at this

theorem WellSized.constructed {tag : UInt8} {body : Emit} (h : WellSized (writeConstructed tag body)) :
    WellSized body ∧ body.size < 2 ^ 32 := by
  unfold writeConstructed at h
  split at h
  · cases h.1
  · obtain ⟨h₁, h₂⟩ := h.append
    exact ⟨h₂, writeLen_lt h₁.append.2.1 h₂.2⟩

/-! ## How long an encoding gets -/

/-- An encoder without a fault that writes at most `n` bytes. -/
def Bounded (e : Emit) (n : Nat) : Prop := e.fault = none ∧ e.size ≤ n

namespace Bounded

variable {a b body : Emit} {m n : Nat}

theorem append (ha : Bounded a m) (hb : Bounded b n) : Bounded (a ++ b) (m + n) := by
  refine ⟨Emit.append_fault_eq_none.mpr ⟨ha.1, hb.1⟩, ?_⟩
  rw [Emit.size, Emit.append_data ha.1, List.length_append]
  exact Nat.add_le_add ha.2 hb.2

theorem opt {β : Type} {o : Option β} {enc : β → Emit} (h : ∀ x, o = some x → Bounded (enc x) n) :
    Bounded (Ber.opt o enc) n := by
  cases o with
  | none => exact ⟨rfl, Nat.zero_le _⟩
  | some x => exact h x rfl

theorem writeLen {len : Nat} (h : len < 2 ^ 32) : Bounded (writeLen len) 5 := by
  refine ⟨(readLen_writeLen h).1, ?_⟩
  unfold Ber.writeLen Emit.size
  by_cases hshort : len < 0x80
  · rw [if_pos hshort, Emit.u8_data]; simp
  · rw [if_neg hshort]
    obtain ⟨first, hf, h4, h8, -⟩ := leading_zeros (by omega) h
    simp only [hf]
    rw [if_neg (by omega), Emit.append_data rfl, Emit.u8_data, Emit.bytes_data,
      List.length_append, List.length_drop, length_beBytes, List.length_singleton]
    omega

theorem tlv (tag : UInt8) {value : Bytes} (h : value.length ≤ n) (hn : n < 2 ^ 32) :
    Bounded (writeTlv tag value) (n + 6) := by
  have hlen : Bounded (Ber.writeLen value.length) 5 := writeLen (by omega)
  refine ⟨writeTlv_fault tag (by omega), ?_⟩
  rw [Emit.size, writeTlv_data tag (by omega), List.length_append, List.length_append,
    List.length_singleton]
  have := hlen.2
  unfold Emit.size at this
  omega

theorem constructed (tag : UInt8) (h : Bounded body n) (hn : n < 2 ^ 32) :
    Bounded (writeConstructed tag body) (n + 6) := by
  have hsize := h.2
  obtain ⟨hf, hd⟩ := writeConstructed_of_fits tag h.1 (by omega)
  refine ⟨hf, ?_⟩
  rw [Emit.size, hd]
  exact (tlv tag hsize hn).2

end Bounded

/-! ## The length of a length -/

end Ber

namespace Emit

/-- How many bytes a length takes. -/
def lengthSize (len : Nat) : Nat :=
  if len < 0x80 then 1 else if len < 0x100 then 2 else if len < 0x10000 then 3
  else if len < 0x1000000 then 4 else 5

/-- An encoder without a fault that writes `n` bytes. -/
structure Sized (e : Emit) (n : Nat) : Prop where
  fault : e.fault = none
  size : e.size = n

namespace Sized

variable {a b : Emit} {m n : Nat}

theorem append (ha : Sized a m) (hb : Sized b n) : Sized (a ++ b) (m + n) :=
  ⟨append_fault_eq_none.mpr ⟨ha.fault, hb.fault⟩, by
    rw [Emit.size, append_data ha.fault, List.length_append]
    exact congrArg₂ (· + ·) ha.size hb.size⟩

theorem bytes (bs : Bytes) : Sized (Emit.bytes bs) bs.length :=
  ⟨rfl, congrArg List.length (bytes_data bs)⟩

theorem u8 (b : UInt8) : Sized (Emit.u8 b) 1 := bytes _

theorem u16 (v : UInt16) : Sized (Emit.u16 v) 2 := bytes (beBytes 2 v.toNat)

theorem u32 (v : UInt32) : Sized (Emit.u32 v) 4 := bytes (beBytes 4 v.toNat)

end Sized

theorem lengthSize_le (len : Nat) : lengthSize len ≤ 5 := by
  unfold lengthSize
  split_ifs <;> omega

theorem lengthSize_pos (len : Nat) : 0 < lengthSize len := by
  unfold lengthSize
  split_ifs <;> omega

theorem lengthSize_mono {m n : Nat} (h : m ≤ n) : lengthSize m ≤ lengthSize n := by
  unfold lengthSize
  split_ifs <;> omega

/-- The first byte that is not zero says how long a number is. -/
theorem drop_leading {len first : Nat} (h : ((beBytes 8 len).findIdx? (· != 0)).getD 7 = first)
    (h0 : 0 < len) (hlen : len < 2 ^ 32) : 256 ^ (7 - first) ≤ len ∧ len < 256 ^ (8 - first) := by
  obtain ⟨first', hf, h4, h8, hnat⟩ := Ber.leading_zeros h0 hlen
  obtain rfl : first' = first := hf.symm.trans h
  have hlt := beNat_lt ((beBytes 8 len).drop first')
  rw [hnat, List.length_drop, length_beBytes] at hlt
  refine ⟨?_, hlt⟩
  cases hi : (beBytes 8 len).findIdx? (· != 0) with
  | none =>
    rw [hi] at hf
    obtain rfl : 7 = first' := hf
    exact h0
  | some i =>
    rw [hi] at hf
    obtain rfl : i = first' := hf
    obtain ⟨hlt', hp, -⟩ := List.findIdx?_eq_some_iff_getElem.mp hi
    by_contra hsmall
    rw [getElem_beBytes, show 8 - 1 - i = 7 - i by omega, Nat.div_eq_of_lt (by omega)] at hp
    cases hp

theorem length_sized {len : Nat} (h : len < 2 ^ 32) : Sized (length len) (lengthSize len) := by
  have hf : (length len).fault = none := (Ber.readLen_writeLen h).1
  refine ⟨hf, ?_⟩
  by_cases hs : len < 0x80
  · rw [length, if_pos hs, lengthSize, if_pos hs]
    exact (Sized.u8 _).size
  · obtain ⟨first, hfirst, h4, h8, -⟩ := Ber.leading_zeros (by omega) h
    obtain ⟨hlo, hhi⟩ := drop_leading hfirst (by omega) h
    have hsize : (length len).size = 1 + (8 - first) := by
      simp only [length]
      rw [if_neg hs, hfirst, if_neg (by omega), Emit.size, append_data rfl]
      simp [Nat.add_comm]
    rw [hsize]
    unfold lengthSize
    rw [if_neg hs]
    clear hfirst hf hsize
    interval_cases first <;> simp only [Nat.reduceSub, Nat.reducePow] at hlo hhi
    · rw [if_neg (by omega), if_neg (by omega), if_neg (by omega)]
    · rw [if_neg (by omega), if_neg (by omega), if_pos (by omega)]
    · rw [if_neg (by omega), if_pos (by omega)]
    · rw [if_pos (by omega)]

theorem lengthPrefixed_sized {bs : Bytes} (h : bs.length < 2 ^ 32) :
    Sized (lengthPrefixed bs) (lengthSize bs.length + bs.length) :=
  (length_sized h).append (.bytes bs)

end Emit

namespace Ber

/-! ## A loop over written TLVs -/

@[simp] theorem foldTlvs_nil {α : Type} (f : α → Tlv → Result α) (a : α) :
    foldTlvs f a [] = .ok a := rfl

@[simp] theorem foldTlvs_ok {α : Type} (f : α → Tlv → Result α) (a : α) (t : Tlv)
    (items : List (Result Tlv)) :
    foldTlvs f a (.ok t :: items) = f a t >>= fun b => foldTlvs f b items := rfl

/-- The loop `f` takes `a` to `b` over the TLVs that `e` writes, and goes on with what follows. -/
def Folds {α : Type} (f : α → Tlv → Result α) (a : α) (e : Emit) (b : α) : Prop :=
  ∀ fuel r tail, r.rest = e.data ++ tail → e.size ≤ fuel →
    ∃ fuel' r', foldTlvs f a (iterFrom fuel r) = foldTlvs f b (iterFrom fuel' r') ∧
      fuel ≤ fuel' + e.size ∧ r.Advanced e.size r'

namespace Folds

variable {α : Type} {f : α → Tlv → Result α} {a b c : α}

theorem empty : Folds f a Emit.empty a :=
  fun fuel r _ _ _ => ⟨fuel, r, rfl, Nat.le_refl _, .refl r⟩

theorem append {e₁ e₂ : Emit} (hf : e₁.fault = none) (h₁ : Folds f a e₁ b) (h₂ : Folds f b e₂ c) :
    Folds f a (e₁ ++ e₂) c := by
  intro fuel r tail hr hfuel
  have hsize : (e₁ ++ e₂).size = e₁.size + e₂.size := by
    rw [Emit.size, Emit.append_data hf, List.length_append]; rfl
  rw [Emit.append_data hf, List.append_assoc] at hr
  rw [hsize] at hfuel ⊢
  obtain ⟨fuel₁, r₁, he₁, hf₁, hadv₁⟩ := h₁ fuel r _ hr (by omega)
  have hr₁ : r₁.rest = e₂.data ++ tail := by
    rw [hadv₁.rest, hr, Emit.size, List.drop_left]
  obtain ⟨fuel₂, r₂, he₂, hf₂, hadv₂⟩ := h₂ fuel₁ r₁ tail hr₁ (by omega)
  exact ⟨fuel₂, r₂, he₁.trans he₂, by omega, hadv₁.trans hadv₂⟩

/-- One TLV: the body of the loop runs on it. -/
theorem tlv {tag : UInt8} {value : Bytes} (htag : (tag &&& 0x1F == 0x1F) = false)
    (h : value.length < 2 ^ 32) (hstep : ∀ o, f a ⟨tag, value, o⟩ = .ok b) :
    Folds f a (writeTlv tag value) b := by
  intro fuel r tail hr hfuel
  obtain ⟨r', hread, hadv⟩ := readTlv_writeTlv tag htag h r tail hr
  have hpos := writeTlv_size_pos tag h
  obtain ⟨fuel', rfl⟩ : ∃ n, fuel = n + 1 := ⟨fuel - 1, by omega⟩
  have hne : r.isEmpty = false := by
    rw [Bool.eq_false_iff, Ne, Reader.isEmpty_iff, hr, ← List.length_eq_zero_iff,
      List.length_append]
    change ¬ (writeTlv tag value).size + _ = 0
    omega
  refine ⟨fuel', r', ?_, by omega, hadv⟩
  rw [iterFrom, hne, if_neg Bool.false_ne_true, hread]
  simp only [foldTlvs_ok, hstep]
  rfl

/-- One TLV whose contents another encoder writes. -/
theorem constructed {tag : UInt8} {body : Emit} (htag : (tag &&& 0x1F == 0x1F) = false)
    (hf : body.fault = none) (h : body.size < 2 ^ 32)
    (hstep : ∀ o, f a ⟨tag, body.data, o⟩ = .ok b) : Folds f a (writeConstructed tag body) b := by
  have hdata := (writeConstructed_of_fits tag hf h).2
  have := tlv (f := f) htag h hstep
  unfold Folds Emit.size at this ⊢
  rw [hdata]
  exact this

/-- `append` for encoders known to be well sized together. -/
theorem snoc {e₁ e₂ : Emit} (hw : WellSized (e₁ ++ e₂)) (h₁ : WellSized e₁ → Folds f a e₁ b)
    (h₂ : WellSized e₂ → Folds f b e₂ c) : Folds f a (e₁ ++ e₂) c :=
  append hw.append.1.1 (h₁ hw.append.1) (h₂ hw.append.2)

/-- A field that may be missing: `set o` is the loop's value once the field is `o`. -/
theorem opt {β : Type} {o : Option β} {enc : β → Emit} (set : Option β → α) (hnone : set none = a)
    (hw : WellSized (Ber.opt o enc))
    (h : ∀ b, o = some b → WellSized (enc b) → Folds f a (enc b) (set (some b))) :
    Folds f a (Ber.opt o enc) (set o) := by
  cases o with
  | none => rw [hnone]; exact empty
  | some b => exact h b rfl hw

/-- The whole loop. -/
theorem run {e : Emit} (h : Folds f a e b) (base : Nat) :
    foldTlvs f a (iterTlv e.data base) = .ok b := by
  obtain ⟨fuel', r', he, -, hadv⟩ := h e.data.length (Reader.withBase e.data base) [] (by simp)
    (Nat.le_refl _)
  have hend : r'.isEmpty = true := by
    rw [Reader.isEmpty_iff, hadv.rest, Reader.withBase_rest, Emit.size, List.drop_length]
  rw [iterTlv, he]
  cases fuel' with
  | zero => rfl
  | succ n => rw [iterFrom, hend]; rfl

end Folds

end Ber
end Dlms
