import DlmsCosem.Codec.Reader

/-!
# Writers

What an encoder writes does not depend on the writer: it is an `Emit`, the byte strings it hands
to `write_bytes` one after another and, when it refuses its value, the fault after them. The
writers differ in what they do with an `Emit`:

* `CountingWriter` adds up the lengths (`Emit.size`);
* `SliceWriter` copies into a buffer of fixed size (`SliceWriter.emit`), each byte string whole or
  not at all.

A store is handed the writer itself, so it may look at what a write gave: it is a `WriteProg`.
-/

namespace Dlms

/-- A refusal of an encoder. Without an offset of its own it is reported where the writer stands. -/
structure Fault where
  kind : ErrorKind
  offset : Option Nat := none
  deriving Repr, DecidableEq

/-- What an encoder writes. -/
structure Emit where
  chunks : List Bytes
  fault : Option Fault := none
  deriving Repr, DecidableEq

namespace Emit

/-- Nothing. -/
def empty : Emit := ⟨[], none⟩

/-- `write_bytes`. -/
def bytes (bs : Bytes) : Emit := ⟨[bs], none⟩

/-- `write_u8`. -/
def u8 (b : UInt8) : Emit := bytes [b]

/-- `write_u16`. -/
def u16 (v : UInt16) : Emit := bytes (beBytes 2 v.toNat)

/-- `write_u32`. -/
def u32 (v : UInt32) : Emit := bytes (beBytes 4 v.toNat)

/-- `write_u64`. -/
def u64 (v : UInt64) : Emit := bytes (beBytes 8 v.toNat)

/-- Refuse the value, at the byte the writer stands at. -/
def fail (kind : ErrorKind) : Emit := ⟨[], some { kind }⟩

/-- Refuse the value, at a byte the encoder names. -/
def failAt (e : Error) : Emit := ⟨[], some { kind := e.kind, offset := some e.offset }⟩

/-- One encoder after another: nothing follows a fault. -/
def append (a b : Emit) : Emit :=
  match a.fault with
  | some _ => a
  | none => ⟨a.chunks ++ b.chunks, b.fault⟩

instance : Append Emit := ⟨append⟩

/-- The encoders of a list, in order. -/
def concat : List Emit → Emit
  | [] => empty
  | e :: es => e ++ concat es

/-- All the bytes. -/
def data (e : Emit) : Bytes := e.chunks.flatten

/-- `encoded_len`: what a counting writer counts. -/
def size (e : Emit) : Nat := e.data.length

/-- Where a counting writer puts the fault of `e`. -/
def countingError (e : Emit) (f : Fault) : Error := ⟨f.kind, f.offset.getD e.size⟩

/-- `write_length`: one byte below `0x80`, else `0x80 | n` and the `n ≤ 4` low bytes. -/
def length (len : Nat) : Emit :=
  if len < 0x80 then u8 (UInt8.ofNat len)
  else
    let be := beBytes 8 len
    let first := (be.findIdx? (· != 0)).getD 7
    let n := 8 - first
    if 4 < n then fail .invalidLength
    else u8 (0x80 ||| UInt8.ofNat n) ++ bytes (be.drop first)

/-- `write_length_prefixed`. -/
def lengthPrefixed (bs : Bytes) : Emit := length bs.length ++ bytes bs

@[simp] theorem append_chunks_of_none {a b : Emit} (h : a.fault = none) :
    (a ++ b).chunks = a.chunks ++ b.chunks := by
  change (append a b).chunks = _
  rw [append, h]

@[simp] theorem append_fault_of_none {a b : Emit} (h : a.fault = none) :
    (a ++ b).fault = b.fault := by
  change (append a b).fault = _
  rw [append, h]

theorem append_of_fault {a b : Emit} (h : a.fault ≠ none) : a ++ b = a := by
  change append a b = a
  unfold append
  split
  · rfl
  · contradiction

@[simp] theorem bytes_chunks (bs : Bytes) : (bytes bs).chunks = [bs] := rfl
@[simp] theorem bytes_fault (bs : Bytes) : (bytes bs).fault = none := rfl
@[simp] theorem bytes_data (bs : Bytes) : (bytes bs).data = bs := by simp [data]
@[simp] theorem u8_data (b : UInt8) : (u8 b).data = [b] := bytes_data _
@[simp] theorem u8_fault (b : UInt8) : (u8 b).fault = none := rfl
@[simp] theorem empty_fault : empty.fault = none := rfl
@[simp] theorem empty_data : empty.data = [] := rfl

theorem append_data {a b : Emit} (h : a.fault = none) : (a ++ b).data = a.data ++ b.data := by
  simp [data, h]

theorem append_fault_eq_none {a b : Emit} :
    (a ++ b).fault = none ↔ a.fault = none ∧ b.fault = none := by
  by_cases h : a.fault = none
  · simp [h]
  · simp [append_of_fault h, h]

end Emit

/-! ## The slice writer -/

/-- A writer into a buffer of fixed size. -/
@[ext]
structure SliceWriter where
  buf : Bytes
  pos : Nat
  pos_le : pos ≤ buf.length

instance : DecidableEq SliceWriter := fun _ _ => decidable_of_iff _ SliceWriter.ext_iff.symm

/-- A program over a slice writer. -/
abbrev Write (α : Type) := Prog Error SliceWriter α

namespace SliceWriter

/-- A writer at the start of `buf`. -/
def new (buf : Bytes) : SliceWriter := ⟨buf, 0, buf.start_le⟩

/-- What has been written. -/
def asSlice (w : SliceWriter) : Bytes := w.buf.take w.pos

/-- The bytes of `buf` with `bs` at `at`. -/
def splice (buf : Bytes) (at' : Nat) (bs : Bytes) : Bytes :=
  buf.take at' ++ bs ++ buf.drop (at' + bs.length)

theorem length_splice {buf bs : Bytes} {n : Nat} (h : n + bs.length ≤ buf.length) :
    (splice buf n bs).length = buf.length := by
  simp only [splice, List.length_append, List.length_take, List.length_drop]
  omega

/-- `write_bytes`: all of `bs`, or an error and nothing. -/
def writeBytes (bs : Bytes) : Write Unit := fun w =>
  if h : w.pos + bs.length ≤ w.buf.length then
    (.ok (), ⟨splice w.buf w.pos bs, w.pos + bs.length, by rw [length_splice h]; exact h⟩)
  else (.error ⟨.bufferTooSmall (w.pos + bs.length - w.buf.length), w.pos⟩, w)

/-- `written`. -/
def written : Write Nat := Prog.gets pos

/-- Forget what was written after `at'`. -/
def truncate (at' : Nat) : Write Unit := fun w =>
  if h : w.pos < at' then (.error ⟨.invalidLength, w.pos⟩, w)
  else (.ok (), ⟨w.buf, at', by have := w.pos_le; omega⟩)

/-- The byte strings of an encoder, one after another. -/
def writeAll : List Bytes → Write Unit
  | [] => pure ()
  | c :: cs => do writeBytes c; writeAll cs

/-- Run an encoder on the writer. -/
def emit (e : Emit) : Write Unit := do
  writeAll e.chunks
  match e.fault with
  | none => pure ()
  | some f => fun w => (.error ⟨f.kind, f.offset.getD w.pos⟩, w)

/-- Encode into a fresh buffer: the bytes written, or the error. -/
def encodeInto (e : Emit) (buf : Bytes) : Result Bytes :=
  match emit e (new buf) with
  | (.ok (), w) => .ok w.asSlice
  | (.error e, _) => .error e

@[simp] theorem new_buf (b : Bytes) : (new b).buf = b := rfl
@[simp] theorem new_pos (b : Bytes) : (new b).pos = 0 := rfl
@[simp] theorem new_asSlice (b : Bytes) : (new b).asSlice = [] := by simp [asSlice]

theorem length_asSlice (w : SliceWriter) : w.asSlice.length = w.pos := by
  simp [asSlice, w.pos_le]

theorem splice_take {buf bs : Bytes} {n : Nat} (h : n + bs.length ≤ buf.length) :
    (splice buf n bs).take (n + bs.length) = buf.take n ++ bs := by
  have hn : (buf.take n ++ bs).length = n + bs.length := by
    rw [List.length_append, List.length_take]; omega
  rw [splice, List.take_append_of_le_length (by rw [hn])]
  rw [← hn, List.take_length]

theorem writeBytes_ok {bs : Bytes} {w w' : SliceWriter} {u : Unit}
    (h : writeBytes bs w = (.ok u, w')) :
    w'.asSlice = w.asSlice ++ bs ∧ w'.pos = w.pos + bs.length ∧
      w'.buf.length = w.buf.length := by
  unfold writeBytes at h
  split at h
  · rename_i hle
    simp only [Prod.mk.injEq] at h
    obtain ⟨-, rfl⟩ := h
    exact ⟨splice_take hle, rfl, length_splice hle⟩
  · cases h

theorem writeBytes_run {bs : Bytes} {w : SliceWriter} (h : w.pos + bs.length ≤ w.buf.length) :
    writeBytes bs w = (.ok (), ⟨splice w.buf w.pos bs, w.pos + bs.length,
      by rw [length_splice h]; exact h⟩) := dif_pos h

/-- A failed write leaves the writer as it was. -/
theorem writeBytes_error {bs : Bytes} {w w' : SliceWriter} {e : Error}
    (h : writeBytes bs w = (.error e, w')) : w' = w := by
  unfold writeBytes at h
  split at h <;> simp_all

theorem writeAll_ok {cs : List Bytes} {w w' : SliceWriter} {u : Unit}
    (h : writeAll cs w = (.ok u, w')) :
    w'.asSlice = w.asSlice ++ cs.flatten ∧ w'.pos = w.pos + cs.flatten.length ∧
      w'.buf.length = w.buf.length := by
  induction cs generalizing w with
  | nil =>
    simp only [writeAll, Prog.pure_run, Prod.mk.injEq] at h
    obtain ⟨-, rfl⟩ := h
    simp
  | cons c cs ih =>
    obtain ⟨_, w₁, h₁, h₂⟩ := Prog.bind_ok h
    obtain ⟨hs, hp, hb⟩ := writeBytes_ok h₁
    obtain ⟨hs', hp', hb'⟩ := ih h₂
    refine ⟨?_, ?_, hb'.trans hb⟩
    · rw [hs', hs, List.flatten_cons, List.append_assoc]
    · rw [hp', hp, List.flatten_cons, List.length_append]; omega

/-- What a writer holds after an encoder that ended well. -/
theorem emit_ok {e : Emit} {w w' : SliceWriter} {u : Unit} (h : emit e w = (.ok u, w')) :
    e.fault = none ∧ w'.asSlice = w.asSlice ++ e.data ∧ w'.pos = w.pos + e.size ∧
      w'.buf.length = w.buf.length := by
  obtain ⟨_, w₁, h₁, h₂⟩ := Prog.bind_ok h
  cases hf : e.fault with
  | none =>
    rw [hf] at h₂
    simp only [Prog.pure_run, Prod.mk.injEq] at h₂
    obtain ⟨-, rfl⟩ := h₂
    exact ⟨rfl, writeAll_ok h₁⟩
  | some f => rw [hf] at h₂; cases h₂

theorem writeAll_fits {cs : List Bytes} {w : SliceWriter}
    (h : w.pos + cs.flatten.length ≤ w.buf.length) : ∃ w', writeAll cs w = (.ok (), w') := by
  induction cs generalizing w with
  | nil => exact ⟨w, rfl⟩
  | cons c cs ih =>
    rw [List.flatten_cons, List.length_append] at h
    have h₁ : w.pos + c.length ≤ w.buf.length := by omega
    obtain ⟨w', hw'⟩ := ih (w := ⟨splice w.buf w.pos c, w.pos + c.length, _⟩)
      (by rw [length_splice h₁]; dsimp only; omega)
    exact ⟨w', (Prog.bind_run_ok (writeBytes_run h₁)).trans hw'⟩

/-- An encoder without a fault ends well where its bytes fit. -/
theorem emit_fits {e : Emit} {w : SliceWriter} (hf : e.fault = none)
    (h : w.pos + e.size ≤ w.buf.length) : ∃ w', emit e w = (.ok (), w') := by
  obtain ⟨w', hw'⟩ := writeAll_fits h
  refine ⟨w', ?_⟩
  rw [emit, Prog.bind_run_ok hw', hf]
  rfl

/-- An encoder without a fault encodes to its bytes where they fit. -/
theorem encodeInto_fits {e : Emit} {buf : Bytes} (hf : e.fault = none) (h : e.size ≤ buf.length) :
    encodeInto e buf = .ok e.data := by
  obtain ⟨w, hw⟩ := emit_fits (w := new buf) hf (by simpa using h)
  obtain ⟨-, hs, -, -⟩ := emit_ok hw
  rw [encodeInto, hw]
  exact congrArg Except.ok (by simpa using hs)

/-- The bytes of an encoder that fits. -/
theorem encodeInto_ok {e : Emit} {buf bs : Bytes} (h : encodeInto e buf = .ok bs) :
    e.fault = none ∧ bs = e.data ∧ e.size ≤ buf.length := by
  unfold encodeInto at h
  split at h
  · rename_i w hw
    obtain ⟨hf, hs, hp, hb⟩ := emit_ok hw
    obtain rfl := Except.ok.inj h
    refine ⟨hf, by rw [hs]; simp, ?_⟩
    have := w.pos_le
    simp at hp hb
    omega
  · cases h

end SliceWriter

/-! ## A program over a writer -/

/-- What code that holds a `&mut dyn Writer` may do with it: write, and look at what came back. -/
inductive WriteProg (α : Type)
  | done (a : α)
  | write (bs : Bytes) (k : Result Unit → WriteProg α)
  | written (k : Nat → WriteProg α)

namespace WriteProg

/-- Run against a slice writer. -/
def run {α : Type} : WriteProg α → SliceWriter → α × SliceWriter
  | done a, w => (a, w)
  | write bs k, w =>
    match SliceWriter.writeBytes bs w with
    | (r, w') => run (k r) w'
  | written k, w => run (k w.pos) w

/-- What a program makes of a sink of `len` bytes of which `pos` are used: its value, and what it
appends. -/
def sink {α : Type} : WriteProg α → (len pos : Nat) → α × Bytes
  | done a, _, _ => (a, [])
  | write bs k, len, pos =>
    if pos + bs.length ≤ len then
      let rest := sink (k (.ok ())) len (pos + bs.length)
      (rest.1, bs ++ rest.2)
    else sink (k (.error ⟨.bufferTooSmall (pos + bs.length - len), pos⟩)) len pos
  | written k, len, pos => sink (k pos) len pos

end WriteProg

/-! ## What was written since -/

/-- `w'` is `w` after `bs` were written. -/
structure SliceWriter.Grown (w w' : SliceWriter) (bs : Bytes) : Prop where
  slice : w'.asSlice = w.asSlice ++ bs
  room : w'.buf.length = w.buf.length

namespace SliceWriter.Grown

variable {w w₁ w₂ : SliceWriter} {bs cs : Bytes}

theorem refl (w : SliceWriter) : w.Grown w [] := ⟨by rw [List.append_nil], rfl⟩

theorem trans (h : w.Grown w₁ bs) (h' : w₁.Grown w₂ cs) : w.Grown w₂ (bs ++ cs) :=
  ⟨by rw [h'.slice, h.slice, List.append_assoc], h'.room.trans h.room⟩

/-- What was written is written in the buffer. -/
theorem unique (h : w.Grown w₁ bs) (h' : w.Grown w₁ cs) : bs = cs :=
  List.append_cancel_left (h.slice.symm.trans h'.slice)

theorem pos (h : w.Grown w₁ bs) : w₁.pos = w.pos + bs.length := by
  rw [← length_asSlice, h.slice, List.length_append, length_asSlice]

theorem pos_le (h : w.Grown w₁ bs) : w.pos + bs.length ≤ w.buf.length := by
  rw [← h.pos, ← h.room]
  exact w₁.pos_le

theorem pos_eq_iff (h : w.Grown w₁ bs) : w₁.pos = w.pos ↔ bs = [] := by
  rw [h.pos, Nat.add_eq_left, List.length_eq_zero_iff]

theorem of_emit {e : Emit} {u : Unit} (h : emit e w = (.ok u, w₁)) : w.Grown w₁ e.data := by
  obtain ⟨-, hs, -, hb⟩ := emit_ok h
  exact ⟨hs, hb⟩

/-- What was written can be taken back. -/
theorem truncate (h : w.Grown w₁ bs) : ∃ w₂, SliceWriter.truncate w.pos w₁ = (.ok (), w₂) ∧
    w.Grown w₂ [] := by
  have hle : ¬ w₁.pos < w.pos := by rw [h.pos]; omega
  refine ⟨_, dif_neg hle, ?_, h.room⟩
  have htake := congrArg (List.take w.pos) h.slice
  rw [List.take_append_of_le_length (by rw [length_asSlice]), ← length_asSlice w, List.take_length] at htake
  rw [List.append_nil, ← htake]
  simp only [asSlice, List.take_take]
  congr 1
  simp only [List.length_take]
  have := w.pos_le
  have := h.pos
  omega

end SliceWriter.Grown

/-- A program over a slice writer sees its room and its place, and appends. -/
theorem WriteProg.run_sink {α : Type} (p : WriteProg α) (w : SliceWriter) :
    (p.run w).1 = (p.sink w.buf.length w.pos).1 ∧
      w.Grown (p.run w).2 (p.sink w.buf.length w.pos).2 := by
  induction p generalizing w with
  | done a => exact ⟨rfl, .refl w⟩
  | written k ih => exact ih w.pos w
  | write bs k ih =>
    rw [run, sink]
    by_cases h : w.pos + bs.length ≤ w.buf.length
    · rw [SliceWriter.writeBytes_run h, if_pos h]
      generalize hw₁ : (⟨SliceWriter.splice w.buf w.pos bs, w.pos + bs.length, _⟩ : SliceWriter) = w₁
      have hgrown : w.Grown w₁ bs := by
        obtain ⟨hs, -, hb⟩ := SliceWriter.writeBytes_ok ((SliceWriter.writeBytes_run h).trans
          (by rw [hw₁]) : SliceWriter.writeBytes bs w = (.ok (), w₁))
        exact ⟨hs, hb⟩
      obtain ⟨hval, hgrow⟩ := ih (.ok ()) w₁
      rw [hgrown.pos, hgrown.room] at hval hgrow
      exact ⟨hval, hgrown.trans hgrow⟩
    · have hrun : SliceWriter.writeBytes bs w =
          (.error ⟨.bufferTooSmall (w.pos + bs.length - w.buf.length), w.pos⟩, w) := dif_neg h
      rw [hrun, if_neg h]
      exact ih _ w

end Dlms
