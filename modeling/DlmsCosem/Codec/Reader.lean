import DlmsCosem.Lib.Prog
import DlmsCosem.Codec.Error

/-!
# The reader

A `Reader` is a cursor over a byte string. `base` is where that string starts in the frame it was
cut from, so that an error names a byte of the frame. A decoder of `α` is a `Read α`: a program
over the cursor. The cursor stays where a failed decoder left it.
-/

namespace Dlms

/-- A cursor over `buf`, at `pos`. -/
structure Reader where
  buf : Bytes
  pos : Nat
  base : Nat
  pos_le : pos ≤ buf.length
  deriving DecidableEq

/-- A decoder. -/
abbrev Read (α : Type) := Prog Error Reader α

namespace Reader

/-- A reader over bytes that start at `base` of the enclosing frame. -/
def withBase (buf : Bytes) (base : Nat) : Reader := ⟨buf, 0, base, buf.start_le⟩

/-- A reader over a whole frame. -/
def new (buf : Bytes) : Reader := withBase buf 0

/-- How many bytes are left. -/
def remaining (r : Reader) : Nat := r.buf.length - r.pos

/-- True at the end of the bytes. -/
def isEmpty (r : Reader) : Bool := r.remaining == 0

/-- Where the cursor is in the enclosing frame. -/
def offset (r : Reader) : Nat := r.base + r.pos

/-- The bytes that are left. -/
def rest (r : Reader) : Bytes := r.buf.drop r.pos

/-- An error at the cursor. -/
def err (r : Reader) (kind : ErrorKind) : Error := ⟨kind, r.offset⟩

@[simp] theorem withBase_buf (b : Bytes) (n : Nat) : (withBase b n).buf = b := rfl
@[simp] theorem withBase_pos (b : Bytes) (n : Nat) : (withBase b n).pos = 0 := rfl
@[simp] theorem withBase_base (b : Bytes) (n : Nat) : (withBase b n).base = n := rfl
@[simp] theorem withBase_rest (b : Bytes) (n : Nat) : (withBase b n).rest = b := rfl
@[simp] theorem withBase_offset (b : Bytes) (n : Nat) : (withBase b n).offset = n := rfl
@[simp] theorem withBase_remaining (b : Bytes) (n : Nat) : (withBase b n).remaining = b.length := rfl

theorem length_rest (r : Reader) : r.rest.length = r.remaining := by
  simp [rest, remaining]

theorem isEmpty_iff (r : Reader) : r.isEmpty = true ↔ r.rest = [] := by
  simp [isEmpty, ← length_rest]

end Reader

namespace Read

/-- Fail `back` bytes before the cursor (`err_back`). -/
def errBack {α : Type} (kind : ErrorKind) (back : Nat) : Read α := fun r =>
  (.error ⟨kind, r.offset - back⟩, r)

/-- Fail at the cursor. -/
def fail {α : Type} (kind : ErrorKind) : Read α := fun r => (.error (r.err kind), r)

/-- `offset`. -/
def offset : Read Nat := Prog.gets Reader.offset

/-- The bytes that are left, without moving. -/
def rest : Read Bytes := Prog.gets Reader.rest

/-- True at the end of the bytes. -/
def isEmpty : Read Bool := Prog.gets Reader.isEmpty

/-- How many bytes are left. -/
def remaining : Read Nat := Prog.gets Reader.remaining

/-- Fail unless `n` bytes are left. -/
def ensure (n : Nat) : Read Unit := fun r =>
  if r.remaining < n then (.error (r.err (.truncated (n - r.remaining))), r) else (.ok (), r)

/-- Read `n` bytes. -/
def take (n : Nat) : Read Bytes := fun r =>
  if h : r.remaining < n then (.error (r.err (.truncated (n - r.remaining))), r)
  else (.ok (r.rest.take n), { r with
    pos := r.pos + n, pos_le := by have := r.pos_le; simp only [Reader.remaining] at h; omega })

/-- Read all that is left. -/
def takeRest : Read Bytes := fun r =>
  (.ok r.rest, { r with pos := r.buf.length, pos_le := Nat.le_refl _ })

/-- Read one byte. -/
def u8 : Read UInt8 := fun r =>
  if h : r.pos < r.buf.length then (.ok r.buf[r.pos], { r with pos := r.pos + 1, pos_le := h })
  else (.error (r.err (.truncated 1)), r)

/-- Look at the next byte without moving. -/
def peekU8 : Read UInt8 := fun r =>
  if h : r.pos < r.buf.length then (.ok r.buf[r.pos], r)
  else (.error (r.err (.truncated 1)), r)

/-- Read a big-endian `u16`. -/
def u16 : Read UInt16 := do return UInt16.ofNat (beNat (← take 2))

/-- Read a big-endian `u32`. -/
def u32 : Read UInt32 := do return UInt32.ofNat (beNat (← take 4))

/-- Read a big-endian `u64`. -/
def u64 : Read UInt64 := do return UInt64.ofNat (beNat (← take 8))

/-- Read a two's complement byte. -/
def i8 : Read Int8 := do return (← u8).toInt8

/-- Read a big-endian `i16`. -/
def i16 : Read Int16 := do return (← u16).toInt16

/-- Read a big-endian `i32`. -/
def i32 : Read Int32 := do return (← u32).toInt32

/-- Read a big-endian `i64`. -/
def i64 : Read Int64 := do return (← u64).toInt64

/-- Move past `n` bytes. -/
def skip (n : Nat) : Read Unit := do
  let _ ← take n

/-- Read a length: one byte below `0x80`, or `0x80 | n` and `n` bytes. -/
def length : Read Nat := do
  let first ← u8
  if first < 0x80 then
    return first.toNat
  else
    let n := (first &&& 0x7f).toNat
    if n == 0 || 4 < n then
      errBack .invalidLength 1
    else
      return beNat (← take n)

/-- Read a length and that many bytes. -/
def lengthPrefixed : Read Bytes := do
  let n ← length
  take n

/-- Run `f` on the next `n` bytes, which it has to use up. -/
def nested {α : Type} (n : Nat) (f : Read α) : Read α := fun r =>
  match take n r with
  | (.error e, r') => (.error e, r')
  | (.ok bytes, r') =>
    match f (Reader.withBase bytes r.offset) with
    | (.error e, _) => (.error e, r')
    | (.ok a, inner) =>
      if inner.isEmpty then (.ok a, r') else (.error (inner.err .invalidLength), r')

/-- Decode a whole byte string (`from_bytes`). -/
def fromBytes {α : Type} (decode : Read α) (bytes : Bytes) : Result α :=
  match decode (Reader.new bytes) with
  | (.error e, _) => .error e
  | (.ok a, r) => if r.isEmpty then .ok a else .error (r.err .invalidLength)

end Read

/-- A type with a decoder. -/
class Decode (α : Type) where
  decode : Read α

/-! ## What a decoder reads -/

/-- `r'` is `r` moved past `n` bytes. -/
structure Reader.Advanced (r : Reader) (n : Nat) (r' : Reader) : Prop where
  buf : r'.buf = r.buf
  base : r'.base = r.base
  pos : r'.pos = r.pos + n

namespace Reader.Advanced

variable {r r₁ r₂ : Reader} {m n : Nat}

theorem refl (r : Reader) : Advanced r 0 r := ⟨rfl, rfl, rfl⟩

theorem trans (h₁ : Advanced r m r₁) (h₂ : Advanced r₁ n r₂) : Advanced r (m + n) r₂ :=
  ⟨h₂.buf.trans h₁.buf, h₂.base.trans h₁.base, by rw [h₂.pos, h₁.pos, Nat.add_assoc]⟩

theorem rest (h : Advanced r m r₁) : r₁.rest = r.rest.drop m := by
  rw [Reader.rest, Reader.rest, h.buf, h.pos, List.drop_drop]

theorem offset (h : Advanced r m r₁) : r₁.offset = r.offset + m := by
  rw [Reader.offset, Reader.offset, h.base, h.pos, Nat.add_assoc]

end Reader.Advanced

namespace Read

theorem take_ok {n : Nat} {r r' : Reader} {bs : Bytes} (h : take n r = (.ok bs, r')) :
    bs = r.rest.take n ∧ n ≤ r.remaining ∧ r.Advanced n r' := by
  unfold take at h
  split at h
  · cases h
  · rename_i hn
    simp only [Prod.mk.injEq, Except.ok.injEq] at h
    obtain ⟨rfl, rfl⟩ := h
    exact ⟨rfl, by omega, rfl, rfl, rfl⟩

theorem u8_ok {r r' : Reader} {b : UInt8} (h : u8 r = (.ok b, r')) :
    r.rest = b :: r'.rest ∧ r.Advanced 1 r' := by
  unfold u8 at h
  split at h
  · rename_i hlt
    simp only [Prod.mk.injEq, Except.ok.injEq] at h
    obtain ⟨rfl, rfl⟩ := h
    exact ⟨List.drop_eq_getElem_cons hlt, rfl, rfl, rfl⟩
  · cases h

theorem peekU8_ok {r r' : Reader} {b : UInt8} (h : peekU8 r = (.ok b, r')) :
    r = r' ∧ r.rest.head? = some b := by
  unfold peekU8 at h
  split at h
  · rename_i hlt
    obtain ⟨hb, rfl⟩ := Prod.mk.inj h
    obtain rfl := Except.ok.inj hb
    exact ⟨rfl, by rw [Reader.rest, List.drop_eq_getElem_cons hlt]; rfl⟩
  · cases h

theorem length_take {n : Nat} {r r' : Reader} {bs : Bytes} (h : take n r = (.ok bs, r')) :
    bs.length = n := by
  obtain ⟨rfl, hn, -⟩ := take_ok h
  rw [List.length_take, Reader.length_rest]
  omega

end Read

/-- `m` reads exactly `bs`, whatever follows, and gives `a` of the offset it starts at. -/
def Reads {α : Type} (m : Read α) (bs : Bytes) (a : Nat → α) : Prop :=
  ∀ r tail, r.rest = bs ++ tail → ∃ r', m r = (.ok (a r.offset), r') ∧ r.Advanced bs.length r'

namespace Reads

variable {α β : Type}

theorem pure (a : α) : Reads (pure a) [] fun _ => a :=
  fun r _ _ => ⟨r, rfl, .refl r⟩

theorem offset : Reads Read.offset [] id := fun r _ _ => ⟨r, rfl, .refl r⟩

theorem bind {m : Read α} {f : α → Read β} {bs₁ bs₂ : Bytes} {a : Nat → α} {b : Nat → β}
    (hm : Reads m bs₁ a)
    (hf : ∀ o, ∀ r tail, r.offset = o + bs₁.length → r.rest = bs₂ ++ tail →
      ∃ r', f (a o) r = (.ok (b o), r') ∧ r.Advanced bs₂.length r') :
    Reads (m >>= f) (bs₁ ++ bs₂) b := by
  intro r tail h
  rw [List.append_assoc] at h
  obtain ⟨r₁, h₁, hadv⟩ := hm r _ h
  have hrest : r₁.rest = bs₂ ++ tail := by rw [hadv.rest, h, List.drop_left]
  obtain ⟨r₂, h₂, hadv₂⟩ := hf r.offset r₁ tail hadv.offset hrest
  rw [List.length_append]
  exact ⟨r₂, (Prog.bind_run_ok h₁).trans h₂, hadv.trans hadv₂⟩

/-- Sequencing where no offset is looked at. -/
theorem andThen {m : Read α} {f : α → Read β} {bs₁ bs₂ : Bytes} {a : α} {b : β}
    (hm : Reads m bs₁ fun _ => a) (hf : Reads (f a) bs₂ fun _ => b) :
    Reads (m >>= f) (bs₁ ++ bs₂) fun _ => b :=
  hm.bind fun _ r tail _ h => hf r tail h

theorem u8 (b : UInt8) : Reads Read.u8 [b] fun _ => b := by
  intro r tail h
  have hlt : r.pos < r.buf.length := by
    have := r.length_rest
    rw [h] at this
    simp only [List.length_append, List.length_singleton, Reader.remaining] at this
    omega
  have hb : r.buf[r.pos] = b := by
    have h' := List.drop_eq_getElem_cons hlt
    rw [← Reader.rest, h] at h'
    simp only [List.singleton_append, List.cons.injEq] at h'
    exact h'.1.symm
  refine ⟨{ r with pos := r.pos + 1, pos_le := hlt }, ?_, rfl, rfl, rfl⟩
  rw [Read.u8, dif_pos hlt, hb]

theorem take {n : Nat} {bs : Bytes} (hn : bs.length = n) : Reads (Read.take n) bs fun _ => bs := by
  intro r tail h
  have hlen := r.length_rest
  rw [h, List.length_append] at hlen
  have hrem : ¬ r.remaining < n := by omega
  have hle := r.pos_le
  refine ⟨{ r with pos := r.pos + n, pos_le := ?_ }, ?_, rfl, rfl, ?_⟩
  · simp only [Reader.remaining] at hlen; omega
  · have htake : r.rest.take n = bs := by rw [h, ← hn, List.take_left]
    rw [Read.take, dif_neg hrem]
    simp only [htake]
  · rw [hn]

theorem u16 (v : UInt16) : Reads Read.u16 (beBytes 2 v.toNat) fun _ => v := by
  have h := (take (length_beBytes 2 v.toNat)).andThen (f := fun bs => Pure.pure (UInt16.ofNat (beNat bs)))
    (Reads.pure _)
  have hv := Nat.mod_eq_of_lt (b := 256 ^ 2) v.toNat_lt
  rw [beNat_beBytes, List.append_nil, hv, UInt16.ofNat_toNat] at h
  exact h

theorem u32 (v : UInt32) : Reads Read.u32 (beBytes 4 v.toNat) fun _ => v := by
  have h := (take (length_beBytes 4 v.toNat)).andThen (f := fun bs => Pure.pure (UInt32.ofNat (beNat bs)))
    (Reads.pure _)
  have hv := Nat.mod_eq_of_lt (b := 256 ^ 4) v.toNat_lt
  rw [beNat_beBytes, List.append_nil, hv, UInt32.ofNat_toNat] at h
  exact h

/-- A decoder of a whole byte string. -/
theorem fromBytes {m : Read α} {bs : Bytes} {a : Nat → α} (h : Reads m bs a) :
    Read.fromBytes m bs = .ok (a 0) := by
  obtain ⟨r, hr, hadv⟩ := h (Reader.new bs) [] (by simp [Reader.new])
  have he : r.isEmpty = true := by
    rw [Reader.isEmpty_iff, hadv.rest]
    simp [Reader.new]
  rw [Read.fromBytes, hr]
  simp only [he, if_true]
  rfl

end Reads

end Dlms
