import DlmsCosem.Codec.Echo

/-!
# Decoders of a stream

A decoder is fed what has arrived so far. `Incremental m` says that it can be: the bytes that `m`
reads settle its value, whatever stands after them, and where only some of them have arrived `m` ends
as truncated, asking for at least one byte and for no more than are missing.
-/

namespace Dlms

/-- Where the next bytes are `bs` and no more, `m` fails and asks for no more than `n` bytes in all. -/
def Starved {α : Type} (m : Read α) (o : Nat) (bs : Bytes) (n : Nat) : Prop :=
  ∀ r : Reader, r.offset = o → r.rest = bs →
    ∃ k e, (m r).1 = .error ⟨.truncated k, e⟩ ∧ 1 ≤ k ∧ bs.length + k ≤ n

/-- The bytes `bs` from the offset `o` settle what `m` gives. -/
structure Settles {α : Type} (m : Read α) (o : Nat) (bs : Bytes) (a : α) : Prop where
  whole : ∀ r tail, r.offset = o → r.rest = bs ++ tail →
    ∃ r', m r = (.ok a, r') ∧ r.Advanced bs.length r'
  short : ∀ n < bs.length, Starved m o (bs.take n) bs.length

/-- Whatever `m` gives is settled by the bytes that it reads. -/
def Incremental {α : Type} (m : Read α) : Prop :=
  ∀ r a r', m r = (.ok a, r') → ∃ bs tail, r.Consumed bs tail r' ∧ Settles m r.offset bs a

namespace Starved

variable {α β : Type} {m : Read α} {f : α → Read β} {o n k : Nat} {bs : Bytes}

theorem mono (h : Starved m o bs n) (hn : n ≤ k) : Starved m o bs k := fun r ho hr =>
  let ⟨j, e, hm, hj, hle⟩ := h r ho hr
  ⟨j, e, hm, hj, hle.trans hn⟩

/-- The first decoder of a sequence runs out. -/
theorem bind (h : Starved m o bs n) : Starved (m >>= f) o bs n := by
  intro r ho hr
  obtain ⟨j, e, hm, hj⟩ := h r ho hr
  exact ⟨j, e, congrArg Prod.fst (Prog.bind_run_error (Prod.ext hm rfl)), hj⟩

end Starved

namespace Settles

variable {α β : Type} {m : Read α} {o : Nat} {bs cs : Bytes} {a : α} {b : β}

theorem pure : Settles (Pure.pure a) o [] a :=
  ⟨fun r _ _ _ => ⟨r, rfl, .refl r⟩, fun _ h => absurd h (Nat.not_lt_zero _)⟩

theorem bind {f : α → Read β} (hm : Settles m o bs a) (hf : Settles (f a) (o + bs.length) cs b) :
    Settles (m >>= f) o (bs ++ cs) b := by
  refine ⟨fun r tail ho hr => ?_, fun n hn => ?_⟩
  · rw [List.append_assoc] at hr
    obtain ⟨r₁, h₁, hadv₁⟩ := hm.whole r _ ho hr
    have hr₁ : r₁.rest = cs ++ tail := by rw [hadv₁.rest, hr, List.drop_left]
    obtain ⟨r₂, h₂, hadv₂⟩ := hf.whole r₁ tail (by rw [hadv₁.offset, ho]) hr₁
    exact ⟨r₂, (Prog.bind_run_ok h₁).trans h₂, by
      rw [List.length_append]; exact hadv₁.trans hadv₂⟩
  · rw [List.length_append] at hn ⊢
    by_cases hlt : n < bs.length
    · -- The cut is in what `m` reads.
      rw [List.take_append_of_le_length hlt.le]
      exact ((hm.short n hlt).mono (Nat.le_add_right _ _)).bind
    · -- The cut is after it, in what the rest of the program reads.
      obtain ⟨k, rfl⟩ : ∃ k, n = bs.length + k := ⟨n - bs.length, by omega⟩
      rw [List.take_length_add_append]
      intro r ho hr
      obtain ⟨r₁, h₁, hadv₁⟩ := hm.whole r _ ho hr
      have hr₁ : r₁.rest = cs.take k := by rw [hadv₁.rest, hr, List.drop_left]
      obtain ⟨j, e, hj, hpos, hle⟩ := hf.short k (by omega) r₁ (by rw [hadv₁.offset, ho]) hr₁
      refine ⟨j, e, by rw [Prog.bind_run_ok h₁]; exact hj, hpos, ?_⟩
      rw [List.length_append]
      omega

/-- The value of a decoder is given to a constructor. -/
theorem map {g : α → β} (h : Settles m o bs a) :
    Settles (m >>= fun a => Pure.pure (g a)) o bs (g a) := by
  have h' := h.bind (f := fun a => Pure.pure (g a)) (pure (a := g a))
  rwa [List.append_nil] at h'

theorem take (bs : Bytes) : Settles (Read.take bs.length) o bs bs := by
  refine ⟨fun r tail _ hr => Reads.take rfl r tail hr, fun n hn r _ hr => ?_⟩
  have hrem : r.remaining = n := by
    rw [← r.length_rest, hr, List.length_take]
    omega
  refine ⟨bs.length - r.remaining, r.offset, ?_, by omega, by rw [List.length_take]; omega⟩
  rw [Read.take, dif_pos (by omega)]
  rfl

theorem u8 (b : UInt8) : Settles Read.u8 o [b] b := by
  refine ⟨fun r tail _ hr => Reads.u8 b r tail hr, fun n hn r _ hr => ?_⟩
  obtain rfl : n = 0 := by simpa using hn
  have hend : ¬ r.pos < r.buf.length := by
    have h := r.length_rest
    rw [hr, Reader.remaining] at h
    simp only [List.take_zero, List.length_nil] at h
    omega
  exact ⟨1, r.offset, by rw [Read.u8, dif_neg hend]; rfl, le_rfl, by simp⟩

end Settles

namespace Incremental

variable {α β : Type} {m : Read α}

theorem pure (a : α) : Incremental (Pure.pure a : Read α) := by
  intro r a' r' hr
  simp only [Prog.pure_run, Prod.mk.injEq, Except.ok.injEq] at hr
  obtain ⟨rfl, rfl⟩ := hr
  exact ⟨[], r.rest, .refl r, .pure⟩

/-- A decoder that never ends well. -/
theorem never (h : ∀ r, ∃ e, m r = (.error e, r)) : Incremental m := by
  intro r a r' hr
  obtain ⟨e, he⟩ := h r
  rw [he] at hr
  cases hr

theorem fail {k : ErrorKind} : Incremental (Read.fail k : Read α) := never fun _ => ⟨_, rfl⟩

theorem errBack {k : ErrorKind} {n : Nat} : Incremental (Read.errBack k n : Read α) :=
  never fun _ => ⟨_, rfl⟩

theorem bind {f : α → Read β} (hm : Incremental m) (hf : ∀ a, Incremental (f a)) :
    Incremental (m >>= f) := by
  intro r b r'' h
  obtain ⟨a, r', h₁, h₂⟩ := Prog.bind_ok h
  obtain ⟨bs, tail, hc, hs⟩ := hm r a r' h₁
  obtain ⟨cs, tail', hc', hs'⟩ := hf a r' b r'' h₂
  obtain rfl : tail = cs ++ tail' := hc.after.symm.trans hc'.rest
  rw [hc.advanced.offset] at hs'
  exact ⟨bs ++ cs, tail', hc.trans hc', hs.bind hs'⟩

theorem map {g : α → β} (hm : Incremental m) : Incremental (m >>= fun a => Pure.pure (g a)) :=
  hm.bind fun a => pure (g a)

theorem offset : Incremental Read.offset := by
  intro r o r' hr
  obtain ⟨rfl, rfl⟩ : r.offset = o ∧ r = r' := by simpa [Read.offset] using hr
  refine ⟨[], r.rest, .refl r, fun s _ ho _ => ⟨s, ?_, .refl s⟩,
    fun _ h => absurd h (Nat.not_lt_zero _)⟩
  rw [← ho]
  rfl

theorem u8 : Incremental Read.u8 := by
  intro r b r' hr
  obtain ⟨hrest, hadv⟩ := Read.u8_ok hr
  exact ⟨[b], r'.rest, ⟨hrest, hadv⟩, .u8 b⟩

theorem take (n : Nat) : Incremental (Read.take n) := by
  intro r bs r' hr
  have hlen := Read.length_take hr
  subst hlen
  exact ⟨bs, r'.rest, Read.take_consumed hr, .take bs⟩

theorem skip (n : Nat) : Incremental (Read.skip n) := (take n).map
theorem u16 : Incremental Read.u16 := (take 2).map
theorem u32 : Incremental Read.u32 := (take 4).map
theorem u64 : Incremental Read.u64 := (take 8).map
theorem i8 : Incremental Read.i8 := u8.map
theorem i16 : Incremental Read.i16 := u16.map
theorem i32 : Incremental Read.i32 := u32.map
theorem i64 : Incremental Read.i64 := u64.map

theorem length : Incremental Read.length := by
  refine u8.bind fun first => ?_
  split
  · exact pure _
  · dsimp only
    split
    · exact errBack
    · exact (take _).map

theorem lengthPrefixed : Incremental Read.lengthPrefixed := length.bind take

theorem times {m : Read Unit} (h : Incremental m) (n : Nat) : Incremental (Prog.times n m) := by
  induction n with
  | zero => exact pure ()
  | succ n ih => exact h.bind fun _ => ih

/-- What a whole byte string decodes to is settled by it. -/
theorem settles {m : Read α} {bs : Bytes} {a : α} (hm : Incremental m)
    (h : Read.fromBytes m bs = .ok a) : Settles m 0 bs a := by
  obtain ⟨r, hr, hend⟩ := Read.fromBytes_ok h
  obtain ⟨cs, tail, hc, hs⟩ := hm _ _ _ hr
  obtain rfl : [] = tail := hend.symm.trans hc.after
  obtain rfl : bs = cs := by simpa [Reader.new] using hc.rest
  exact hs

end Incremental

end Dlms
