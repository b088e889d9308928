import DlmsCosem.Codec.Incremental

/-!
# Reads that fail

A read that fails is meant to leave the cursor where it was, so that it can be made again when more
bytes have arrived. A read of one step does so (`ReadOp.single`). A read of several steps leaves the
cursor after the steps that went well: `ReadOp.Partway` is where a later one fails.
-/

namespace Dlms

namespace Read

/-- Read `n` bytes into an array (`array`). -/
def array (n : Nat) : Read (Vector UInt8 n) := fun r =>
  match h : take n r with
  | (.error e, r') => (.error e, r')
  | (.ok bs, r') => (.ok ⟨bs.toArray, by rw [List.size_toArray]; exact length_take h⟩, r')

end Read

/-- The reading methods of a cursor and what each gives. -/
inductive ReadOp : Type → Type 1
  | take (n : Nat) : ReadOp Bytes
  | array (n : Nat) : ReadOp (Vector UInt8 n)
  | u8 : ReadOp UInt8
  | u16 : ReadOp UInt16
  | u32 : ReadOp UInt32
  | u64 : ReadOp UInt64
  | i8 : ReadOp Int8
  | i16 : ReadOp Int16
  | i32 : ReadOp Int32
  | i64 : ReadOp Int64
  | skip (n : Nat) : ReadOp Unit
  | length : ReadOp Nat
  | lengthPrefixed : ReadOp Bytes
  | nested {α : Type} (n : Nat) (f : Read α) : ReadOp α

/-- The bytes begin with a length that is refused, or that is cut off after its first byte. -/
def CutLength : Bytes → Prop
  | [] => False
  | b :: tail => 0x80 ≤ b.toNat ∧ (b.toNat = 0x80 ∨ 0x84 < b.toNat ∨ tail.length < b.toNat - 0x80)

/-- The bytes begin with a whole length, and fewer bytes follow than it says. -/
def CutPayload : Bytes → Prop
  | [] => False
  | b :: tail =>
    if b.toNat < 0x80 then tail.length < b.toNat
    else ¬ CutLength (b :: tail) ∧
      tail.length - (b.toNat - 0x80) < beNat (tail.take (b.toNat - 0x80))

namespace ReadOp

variable {α : Type}

/-- The method. -/
def run : {α : Type} → ReadOp α → Read α
  | _, .take n => Read.take n
  | _, .array n => Read.array n
  | _, .u8 => Read.u8
  | _, .u16 => Read.u16
  | _, .u32 => Read.u32
  | _, .u64 => Read.u64
  | _, .i8 => Read.i8
  | _, .i16 => Read.i16
  | _, .i32 => Read.i32
  | _, .i64 => Read.i64
  | _, .skip n => Read.skip n
  | _, .length => Read.length
  | _, .lengthPrefixed => Read.lengthPrefixed
  | _, .nested n f => Read.nested n f

/-- The first step of a read of several steps goes well here, and a later one fails. -/
def Partway : {α : Type} → ReadOp α → Reader → Prop
  | _, .length, r => CutLength r.rest
  | _, .lengthPrefixed, r => CutLength r.rest ∨ CutPayload r.rest
  | _, .nested n f, r => 0 < n ∧ n ≤ r.remaining ∧
      ¬ ∃ a inner, f (Reader.withBase (r.rest.take n) r.offset) = (.ok a, inner) ∧ inner.rest = []
  | _, _, _ => False

end ReadOp

/-! ## One step -/

namespace Read

theorem u8_nil {r : Reader} (h : r.rest = []) : u8 r = (.error (r.err (.truncated 1)), r) := by
  have hpos : ¬ r.pos < r.buf.length := by
    have hlen := r.length_rest
    rw [h, Reader.remaining, List.length_nil] at hlen
    omega
  rw [u8, dif_neg hpos]

theorem take_short {n : Nat} {r : Reader} (h : r.remaining < n) :
    take n r = (.error (r.err (.truncated (n - r.remaining))), r) := by
  rw [take, dif_pos h]

theorem take_long {n : Nat} {r : Reader} (h : n ≤ r.remaining) :
    ∃ r', take n r = (.ok (r.rest.take n), r') ∧ r.Advanced n r' := by
  have hlen : (r.rest.take n).length = n := by
    rw [List.length_take, r.length_rest]
    omega
  obtain ⟨r', hr', hadv⟩ := Reads.take hlen r (r.rest.drop n) (List.take_append_drop n _).symm
  rw [hlen] at hadv
  exact ⟨r', hr', hadv⟩

theorem take_atomic (n : Nat) : Prog.Atomic (take n) := by
  refine ⟨fun r e r' h => ?_⟩
  by_cases hn : r.remaining < n
  · rw [take_short hn] at h
    exact (congrArg Prod.snd h).symm
  · obtain ⟨r₁, h₁, -⟩ := take_long (Nat.le_of_not_lt hn)
    rw [h₁] at h
    cases h

theorem u8_atomic : Prog.Atomic u8 := by
  refine ⟨fun r e r' h => ?_⟩
  match hr : r.rest with
  | [] =>
    rw [u8_nil hr] at h
    exact (congrArg Prod.snd h).symm
  | b :: tail =>
    obtain ⟨r₁, h₁, -⟩ := Reads.u8 b r tail hr
    rw [h₁] at h
    cases h

theorem array_atomic (n : Nat) : Prog.Atomic (array n) := by
  refine ⟨fun r e r' h => ?_⟩
  unfold array at h
  split at h
  · rename_i e' r₁ h₁
    obtain ⟨-, rfl⟩ := Prod.mk.inj h
    exact (take_atomic n).run r e' r₁ h₁
  · cases h

end Read

/-! ## Several steps -/

/-- How many bytes a length begins with after its first byte `b`. -/
private theorem fieldLen {b : UInt8} (hb : 0x80 ≤ b.toNat) : (b &&& 0x7f).toNat = b.toNat - 0x80 := by
  have hand : (b &&& 0x7f).toNat = b.toNat % 128 := by
    rw [UInt8.toNat_and]
    exact Nat.and_two_pow_sub_one_eq_mod b.toNat 7
  have hlt := b.toNat_lt
  omega

namespace Reader

theorem Advanced.remaining {r r' : Reader} {n : Nat} (h : r.Advanced n r') :
    r'.remaining = r.remaining - n := by
  rw [← length_rest, ← length_rest, h.rest, List.length_drop]

end Reader

namespace Read

/-- What `length` does at each kind of place. -/
inductive LengthRun (r : Reader) : Result Nat × Reader → Prop
  | empty {e : Error} (h : r.rest = []) : LengthRun r (.error e, r)
  | cut {e : Error} {r' : Reader} (h : CutLength r.rest) (hadv : r.Advanced 1 r') :
    LengthRun r (.error e, r')
  | read {n k : Nat} {r' : Reader} (h : ¬ CutLength r.rest) (hadv : r.Advanced (k + 1) r')
    (hpay : CutPayload r.rest ↔ r'.remaining < n) : LengthRun r (.ok n, r')

theorem length_run (r : Reader) : LengthRun r (length r) := by
  match hr : r.rest with
  | [] =>
    have h : length r = (.error (r.err (.truncated 1)), r) := Prog.bind_run_error (u8_nil hr)
    rw [h]
    exact .empty hr
  | b :: tail =>
    obtain ⟨r₁, h₁, hadv₁⟩ := Reads.u8 b r tail hr
    have htail : r₁.rest = tail := by rw [hadv₁.rest, hr]; rfl
    have hrem : r₁.remaining = tail.length := by rw [← r₁.length_rest, htail]
    unfold length
    rw [Prog.bind_run_ok h₁]
    by_cases hb : b.toNat < 0x80
    · -- The short form.
      rw [if_pos (UInt8.lt_iff_toNat_lt.mpr hb), Prog.pure_run]
      refine .read ?_ hadv₁ ?_
      · rw [hr]
        exact fun h => absurd hb (Nat.not_lt.mpr h.1)
      · rw [hr, CutPayload, if_pos hb, hrem]
    · have hge : 0x80 ≤ b.toNat := Nat.le_of_not_lt hb
      rw [if_neg (mt UInt8.lt_iff_toNat_lt.mp hb)]
      simp only [fieldLen hge]
      split
      · -- A size that is refused.
        rename_i hn
        refine .cut ?_ hadv₁
        rw [hr]
        simp only [Bool.or_eq_true, beq_iff_eq, decide_eq_true_eq] at hn
        exact ⟨hge, by omega⟩
      · rename_i hn
        simp only [Bool.or_eq_true, beq_iff_eq, decide_eq_true_eq, not_or] at hn
        by_cases hshort : r₁.remaining < b.toNat - 0x80
        · -- The field is cut off.
          rw [Prog.bind_run_error (take_short hshort)]
          refine .cut ?_ hadv₁
          rw [hr]
          exact ⟨hge, by omega⟩
        · obtain ⟨r₂, h₂, hadv₂⟩ := take_long (Nat.le_of_not_lt hshort)
          have hcut : ¬ CutLength r.rest := by
            rw [hr]
            rintro ⟨-, h⟩
            omega
          have hadv := hadv₁.trans hadv₂
          rw [Nat.add_comm] at hadv
          rw [Prog.bind_run_ok h₂]
          refine .read hcut hadv ?_
          rw [hr] at hcut
          rw [hr, CutPayload, if_neg hb, hadv₂.remaining, hrem, htail]
          exact and_iff_right hcut

/-- Once its bytes are there, `nested` ends as the inner decoder does with all of them. -/
theorem nested_run {α : Type} {n : Nat} {f : Read α} {r r₁ : Reader} {bs : Bytes}
    (h : take n r = (.ok bs, r₁)) :
    ((∃ a inner, f (Reader.withBase bs r.offset) = (.ok a, inner) ∧ inner.rest = []) ∧
        ∃ a, nested n f r = (.ok a, r₁)) ∨
      (¬ (∃ a inner, f (Reader.withBase bs r.offset) = (.ok a, inner) ∧ inner.rest = []) ∧
        ∃ e, nested n f r = (.error e, r₁)) := by
  unfold nested
  rw [h]
  dsimp only
  match f (Reader.withBase bs r.offset) with
  | (.error e, inner) => exact .inr ⟨by rintro ⟨_, _, ⟨⟩, -⟩, e, rfl⟩
  | (.ok a, inner) =>
    dsimp only
    by_cases hend : inner.isEmpty = true
    · rw [if_pos hend]
      exact .inl ⟨⟨a, inner, rfl, inner.isEmpty_iff.mp hend⟩, a, rfl⟩
    · rw [if_neg hend]
      refine .inr ⟨?_, _, rfl⟩
      rintro ⟨_, _, h, hnil⟩
      obtain ⟨-, rfl⟩ := Prod.mk.inj h
      exact hend (inner.isEmpty_iff.mpr hnil)

end Read

namespace ReadOp

/-- A read of one step. -/
theorem single {α : Type} {m : ReadOp α} (h : Prog.Atomic m.run) (hp : ∀ r, ¬ m.Partway r) (r : Reader) :
    (∀ e r', m.run r = (.error e, r') → r'.pos = r.pos) ↔ ¬ m.Partway r :=
  iff_of_true (fun e r' hm => congrArg Reader.pos (h.run r e r' hm)) (hp r)

/-- A read that failed with the cursor of `r₁`. -/
theorem failed_iff {α : Type} {r r₁ : Reader} {e₁ : Error} :
    (∀ e r', ((.error e₁ : Result α), r₁) = (.error e, r') → r'.pos = r.pos) ↔ r₁.pos = r.pos := by
  refine ⟨fun h => h _ _ rfl, fun h e r' heq => ?_⟩
  obtain ⟨-, rfl⟩ := Prod.mk.inj heq
  exact h

/-- A read that gave a value. -/
theorem gave {α : Type} {r r₁ : Reader} {a : α} :
    ∀ e r', ((.ok a : Result α), r₁) = (.error e, r') → r'.pos = r.pos := fun _ _ => nofun

theorem length_iff (r : Reader) :
    (∀ e r', Read.length r = (.error e, r') → r'.pos = r.pos) ↔ ¬ CutLength r.rest := by
  generalize hrun : Read.length r = run
  have h := Read.length_run r
  rw [hrun] at h
  cases h with
  | empty h =>
    rw [failed_iff, h]
    exact iff_of_true rfl id
  | cut h hadv =>
    rw [failed_iff, hadv.pos]
    exact iff_of_false (by omega) (not_not_intro h)
  | read h hadv hpay => exact iff_of_true gave h

theorem lengthPrefixed_iff (r : Reader) :
    (∀ e r', Read.lengthPrefixed r = (.error e, r') → r'.pos = r.pos) ↔
      ¬ (CutLength r.rest ∨ CutPayload r.rest) := by
  unfold Read.lengthPrefixed
  generalize hrun : Read.length r = run
  have h := Read.length_run r
  rw [hrun] at h
  cases h with
  | empty h =>
    rw [Prog.bind_run_error hrun, failed_iff, h]
    exact iff_of_true rfl (by rintro (h | h) <;> exact h)
  | cut h hadv =>
    rw [Prog.bind_run_error hrun, failed_iff, hadv.pos]
    exact iff_of_false (by omega) (not_not_intro (.inl h))
  | @read n k r₁ h hadv hpay =>
    rw [Prog.bind_run_ok hrun]
    by_cases hshort : r₁.remaining < n
    · rw [Read.take_short hshort, failed_iff, hadv.pos]
      exact iff_of_false (by omega) (not_not_intro (.inr (hpay.mpr hshort)))
    · obtain ⟨r₂, h₂, -⟩ := Read.take_long (Nat.le_of_not_lt hshort)
      rw [h₂]
      refine iff_of_true gave ?_
      rintro (hc | hc)
      · exact h hc
      · exact hshort (hpay.mp hc)

theorem nested_iff {α : Type} (n : Nat) (f : Read α) (r : Reader) :
    (∀ e r', Read.nested n f r = (.error e, r') → r'.pos = r.pos) ↔
      ¬ (0 < n ∧ n ≤ r.remaining ∧
        ¬ ∃ a inner, f (Reader.withBase (r.rest.take n) r.offset) = (.ok a, inner) ∧ inner.rest = []) := by
  by_cases hshort : r.remaining < n
  · unfold Read.nested
    rw [Read.take_short hshort]
    dsimp only
    rw [failed_iff]
    exact iff_of_true rfl fun h => by omega
  · obtain ⟨r₁, h₁, hadv⟩ := Read.take_long (Nat.le_of_not_lt hshort)
    rcases Read.nested_run (f := f) h₁ with ⟨hin, a, hrun⟩ | ⟨hin, e, hrun⟩
    · rw [hrun]
      exact iff_of_true gave fun h => h.2.2 hin
    · rw [hrun, failed_iff, hadv.pos]
      constructor
      · rintro hpos ⟨hn, -⟩
        omega
      · -- No bytes were to be read, or the cursor would have moved.
        intro hn
        by_contra hpos
        exact hn ⟨by omega, Nat.le_of_not_lt hshort, hin⟩

end ReadOp

/-- A reading method that fails leaves the cursor where it was, but where a later one of its steps
fails. -/
theorem reading_failed_unmoved {α : Type} (m : ReadOp α) (r : Reader) :
    (∀ e r', m.run r = (.error e, r') → r'.pos = r.pos) ↔ ¬ m.Partway r := by
  cases m with
  | take n => exact ReadOp.single (m := .take n) (Read.take_atomic n) (fun _ => id) r
  | array n => exact ReadOp.single (m := .array n) (Read.array_atomic n) (fun _ => id) r
  | u8 => exact ReadOp.single (m := .u8) Read.u8_atomic (fun _ => id) r
  | u16 => exact ReadOp.single (m := .u16) (Read.take_atomic 2).map (fun _ => id) r
  | u32 => exact ReadOp.single (m := .u32) (Read.take_atomic 4).map (fun _ => id) r
  | u64 => exact ReadOp.single (m := .u64) (Read.take_atomic 8).map (fun _ => id) r
  | i8 => exact ReadOp.single (m := .i8) Read.u8_atomic.map (fun _ => id) r
  | i16 => exact ReadOp.single (m := .i16) (Read.take_atomic 2).map.map (fun _ => id) r
  | i32 => exact ReadOp.single (m := .i32) (Read.take_atomic 4).map.map (fun _ => id) r
  | i64 => exact ReadOp.single (m := .i64) (Read.take_atomic 8).map.map (fun _ => id) r
  | skip n => exact ReadOp.single (m := .skip n) (Read.take_atomic n).map (fun _ => id) r
  | length => exact ReadOp.length_iff r
  | lengthPrefixed => exact ReadOp.lengthPrefixed_iff r
  | nested n f => exact ReadOp.nested_iff n f r

/-- A two-byte length of which one byte has arrived: `length` fails one byte further on. -/
theorem reading_failed_moved : ¬ ∀ (m : ReadOp Nat) (r : Reader) (e : Error) (r' : Reader),
    m.run r = (.error e, r') → r'.pos = r.pos := by
  intro h
  have hmoved := h .length (Reader.new [0x82, 0x01]) ⟨.truncated 1, 1⟩
    ⟨[0x82, 0x01], 1, 0, by decide⟩ (by decide)
  exact absurd hmoved (by decide)

end Dlms
