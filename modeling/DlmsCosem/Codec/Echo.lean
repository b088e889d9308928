import DlmsCosem.Codec.Reader

/-!
# Decoders and the place of their bytes

What a decoder makes of bytes depends on these bytes, and on where they stand only in the offsets it
keeps. Two relations say so:

* `Takes m bs P`: `m` reads exactly `bs`, wherever they stand and whatever follows, and its value
  satisfies `P`.
* `Echoes S m m'`: what `m` reads at one place `m'` takes at every place, with a value that `S`
  relates to that of `m`.

Both are closed under sequencing, so a decoder echoes itself where its parts do.
-/

namespace Dlms

/-- `m` reads exactly `bs`, wherever they stand and whatever follows. -/
def Takes {α : Type} (m : Read α) (bs : Bytes) (P : α → Prop) : Prop :=
  ∀ r tail, r.rest = bs ++ tail → ∃ a r', m r = (.ok a, r') ∧ P a ∧ r.Advanced bs.length r'

/-- Where a decoder ended well: what it read, and what is left. -/
structure Reader.Consumed (r : Reader) (bs tail : Bytes) (r' : Reader) : Prop where
  rest : r.rest = bs ++ tail
  advanced : r.Advanced bs.length r'

namespace Reader.Consumed

variable {r r₁ r₂ : Reader} {bs cs tail : Bytes}

theorem refl (r : Reader) : r.Consumed [] r.rest r := ⟨rfl, .refl r⟩

theorem after (h : r.Consumed bs tail r₁) : r₁.rest = tail := by
  rw [h.advanced.rest, h.rest, List.drop_left]

theorem trans (h₁ : r.Consumed bs (cs ++ tail) r₁) (h₂ : r₁.Consumed cs tail r₂) :
    r.Consumed (bs ++ cs) tail r₂ :=
  ⟨by rw [h₁.rest, List.append_assoc], by
    rw [List.length_append]; exact h₁.advanced.trans h₂.advanced⟩

end Reader.Consumed

theorem Read.take_consumed {n : Nat} {r r' : Reader} {bs : Bytes} (h : Read.take n r = (.ok bs, r')) :
    r.Consumed bs r'.rest r' := by
  obtain ⟨hbs, -, hadv⟩ := Read.take_ok h
  have hlen := Read.length_take h
  subst hlen
  refine ⟨?_, hadv⟩
  rw [hadv.rest]
  exact (List.take_append_drop bs.length r.rest).symm.trans (by rw [← hbs])

/-- What `m` reads at one place `m'` takes at every place. -/
def Echoes {α β : Type} (S : α → β → Prop) (m : Read α) (m' : Read β) : Prop :=
  ∀ r a r', m r = (.ok a, r') → ∃ bs tail, r.Consumed bs tail r' ∧ Takes m' bs (S a)

namespace Takes

variable {α β : Type} {P : α → Prop} {Q : β → Prop} {bs cs : Bytes}

theorem mono {m : Read α} {P' : α → Prop} (h : Takes m bs P) (hp : ∀ a, P a → P' a) :
    Takes m bs P' := fun r tail hr =>
  let ⟨a, r', hm, ha, hadv⟩ := h r tail hr
  ⟨a, r', hm, hp a ha, hadv⟩

theorem ofReads {m : Read α} {a : α} (h : Reads m bs fun _ => a) : Takes m bs (a = ·) :=
  fun r tail hr =>
    let ⟨r', hm, hadv⟩ := h r tail hr
    ⟨a, r', hm, rfl, hadv⟩

theorem pure {a : α} (h : P a) : Takes (pure a) [] P := fun r _ _ => ⟨a, r, rfl, h, .refl r⟩

theorem bind {m : Read α} {f : α → Read β} (hm : Takes m bs P) (hf : ∀ a, P a → Takes (f a) cs Q) :
    Takes (m >>= f) (bs ++ cs) Q := by
  intro r tail hr
  rw [List.append_assoc] at hr
  obtain ⟨a, r₁, h₁, ha, hadv₁⟩ := hm r _ hr
  have hr₁ : r₁.rest = cs ++ tail := by rw [hadv₁.rest, hr, List.drop_left]
  obtain ⟨b, r₂, h₂, hb, hadv₂⟩ := hf a ha r₁ tail hr₁
  exact ⟨b, r₂, (Prog.bind_run_ok h₁).trans h₂, hb, by
    rw [List.length_append]; exact hadv₁.trans hadv₂⟩

/-- The last decoder of a sequence gives its value to a constructor. -/
theorem map {m : Read α} {g : α → β} (hm : Takes m bs P) (hg : ∀ a, P a → Q (g a)) :
    Takes (m >>= fun a => Pure.pure (g a)) bs Q := by
  have h : Takes (m >>= fun a => Pure.pure (g a)) (bs ++ []) Q := hm.bind fun a ha => pure (hg a ha)
  rwa [List.append_nil] at h

theorem u8 (b : UInt8) : Takes Read.u8 [b] (b = ·) := .ofReads (.u8 b)

theorem take (bs : Bytes) : Takes (Read.take bs.length) bs (bs = ·) := .ofReads (.take rfl)

theorem offset : Takes Read.offset [] fun _ => True := fun r _ _ =>
  ⟨r.offset, r, rfl, trivial, .refl r⟩

theorem atOffset {f : Nat → Read β} (h : ∀ o, Takes (f o) cs Q) : Takes (Read.offset >>= f) cs Q :=
  offset.bind fun o _ => h o

/-- A whole byte string is decoded. -/
theorem fromBytes {m : Read α} (h : Takes m bs P) : ∃ a, Read.fromBytes m bs = .ok a ∧ P a := by
  obtain ⟨a, r, hr, ha, hadv⟩ := h (Reader.new bs) [] (by simp [Reader.new])
  have he : r.isEmpty = true := by
    rw [Reader.isEmpty_iff, hadv.rest]
    simp [Reader.new]
  refine ⟨a, ?_, ha⟩
  rw [Read.fromBytes, hr]
  simp only [he, if_true]

end Takes

/-- What a decoder that reads no bytes at all takes of a byte string is the empty one. -/
theorem Read.fromBytes_ok {α : Type} {m : Read α} {bs : Bytes} {a : α}
    (h : Read.fromBytes m bs = .ok a) :
    ∃ r, m (Reader.new bs) = (.ok a, r) ∧ r.rest = [] := by
  unfold Read.fromBytes at h
  match hm : m (Reader.new bs) with
  | (.error e, r) => rw [hm] at h; cases h
  | (.ok b, r) =>
    rw [hm] at h
    by_cases he : r.isEmpty = true
    · simp only [he, if_true] at h
      obtain rfl := Except.ok.inj h
      exact ⟨r, rfl, (r.isEmpty_iff).mp he⟩
    · simp only [he, Bool.false_eq_true, if_false] at h
      cases h

namespace Echoes

variable {α β γ δ : Type} {S : α → β → Prop} {T : γ → δ → Prop}

theorem mono {m : Read α} {m' : Read β} {S' : α → β → Prop} (h : Echoes S m m')
    (hs : ∀ a b, S a b → S' a b) : Echoes S' m m' := fun r a r' hr =>
  let ⟨bs, tail, hc, ht⟩ := h r a r' hr
  ⟨bs, tail, hc, ht.mono (hs a)⟩

theorem pure {a : α} {b : β} (h : S a b) : Echoes S (pure a) (pure b) := by
  intro r a' r' hr
  simp only [Prog.pure_run, Prod.mk.injEq, Except.ok.injEq] at hr
  obtain ⟨rfl, rfl⟩ := hr
  exact ⟨[], r.rest, .refl r, .pure h⟩

/-- A decoder that never ends well echoes nothing. -/
theorem never {m : Read α} {m' : Read β} (h : ∀ r, ∃ e, m r = (.error e, r)) : Echoes S m m' := by
  intro r a r' hr
  obtain ⟨e, he⟩ := h r
  rw [he] at hr
  cases hr

theorem fail {k : ErrorKind} {m' : Read β} : Echoes S (Read.fail k : Read α) m' :=
  never fun _ => ⟨_, rfl⟩

theorem errBack {k : ErrorKind} {n : Nat} {m' : Read β} :
    Echoes S (Read.errBack k n : Read α) m' :=
  never fun _ => ⟨_, rfl⟩

theorem bind {m : Read α} {m' : Read β} {f : α → Read γ} {f' : β → Read δ} (hm : Echoes S m m')
    (hf : ∀ a b, S a b → Echoes T (f a) (f' b)) : Echoes T (m >>= f) (m' >>= f') := by
  intro r c r'' h
  obtain ⟨a, r', h₁, h₂⟩ := Prog.bind_ok h
  obtain ⟨bs, tail, hc, ht⟩ := hm r a r' h₁
  -- The value of `m` at this place is one that `m'` may give.
  obtain ⟨b, r₁, -, hs, -⟩ := ht r tail hc.rest
  obtain ⟨cs, tail', hc', -⟩ := hf a b hs r' c r'' h₂
  obtain rfl : tail = cs ++ tail' := hc.after.symm.trans hc'.rest
  refine ⟨bs ++ cs, tail', hc.trans hc', ht.bind fun b' hs' => ?_⟩
  obtain ⟨cs', tail'', hc'', ht''⟩ := hf a b' hs' r' c r'' h₂
  have hlen : cs'.length = cs.length := by
    have h₁ := hc''.advanced.pos
    have h₂ := hc'.advanced.pos
    omega
  obtain ⟨rfl, -⟩ := List.append_inj (hc''.rest.symm.trans hc'.rest) hlen
  exact ht''

/-- Where the values are the same, one rest of the program is enough. -/
theorem andThen {m : Read α} {f : α → Read γ} {f' : α → Read δ} (hm : Echoes Eq m m)
    (hf : ∀ a, Echoes T (f a) (f' a)) : Echoes T (m >>= f) (m >>= f') :=
  hm.bind fun a b h => by subst h; exact hf a

theorem map {m : Read α} {m' : Read β} {g : α → γ} {g' : β → δ} (hm : Echoes S m m')
    (hg : ∀ a b, S a b → T (g a) (g' b)) :
    Echoes T (m >>= fun a => Pure.pure (g a)) (m' >>= fun b => Pure.pure (g' b)) :=
  hm.bind fun a b h => pure (hg a b h)

theorem u8 : Echoes Eq Read.u8 Read.u8 := by
  intro r b r' hr
  obtain ⟨hrest, hadv⟩ := Read.u8_ok hr
  exact ⟨[b], r'.rest, ⟨hrest, hadv⟩, .u8 b⟩

theorem take (n : Nat) : Echoes Eq (Read.take n) (Read.take n) := by
  intro r bs r' hr
  have hlen := Read.length_take hr
  subst hlen
  exact ⟨bs, r'.rest, Read.take_consumed hr, .take bs⟩

theorem offset : Echoes (fun _ _ => True) Read.offset Read.offset := by
  intro r o r' hr
  obtain ⟨-, rfl⟩ : _ ∧ r = r' := by simpa [Read.offset] using hr
  exact ⟨[], r.rest, .refl r, .offset⟩

theorem skip (n : Nat) : Echoes Eq (Read.skip n) (Read.skip n) := (take n).map fun _ _ _ => rfl
theorem u16 : Echoes Eq Read.u16 Read.u16 := (take 2).map fun _ _ h => by rw [h]
theorem u32 : Echoes Eq Read.u32 Read.u32 := (take 4).map fun _ _ h => by rw [h]
theorem u64 : Echoes Eq Read.u64 Read.u64 := (take 8).map fun _ _ h => by rw [h]
theorem i8 : Echoes Eq Read.i8 Read.i8 := u8.map fun _ _ h => by rw [h]
theorem i16 : Echoes Eq Read.i16 Read.i16 := u16.map fun _ _ h => by rw [h]
theorem i32 : Echoes Eq Read.i32 Read.i32 := u32.map fun _ _ h => by rw [h]
theorem i64 : Echoes Eq Read.i64 Read.i64 := u64.map fun _ _ h => by rw [h]

theorem length : Echoes Eq Read.length Read.length := by
  refine u8.andThen fun first => ?_
  split
  · exact pure rfl
  · dsimp only
    split
    · exact errBack
    · exact (take _).map fun _ _ h => by rw [h]

theorem lengthPrefixed : Echoes Eq Read.lengthPrefixed Read.lengthPrefixed :=
  length.andThen take

theorem times {m m' : Read Unit} (h : Echoes Eq m m') (n : Nat) :
    Echoes Eq (Prog.times n m) (Prog.times n m') := by
  induction n with
  | zero => exact pure rfl
  | succ n ih => exact h.bind fun _ _ _ => ih

/-- The value of a decoder may be forgotten. -/
theorem void {m : Read α} {m' : Read β} (h : Echoes S m m') :
    Echoes Eq (m >>= fun _ => Pure.pure ()) (m' >>= fun _ => Pure.pure ()) :=
  h.map fun _ _ _ => rfl

end Echoes

/-! ## Whole elements -/

/-- `bs` is one element, and nothing else. -/
def Whole {α : Type} (m : Read α) (bs : Bytes) : Prop := ∃ a, Read.fromBytes m bs = .ok a

instance {α : Type} (m : Read α) (bs : Bytes) : Decidable (Whole m bs) :=
  match h : Read.fromBytes m bs with
  | .ok a => isTrue ⟨a, h⟩
  | .error e => isFalse fun ⟨a, ha⟩ => by rw [h] at ha; cases ha

namespace Whole

variable {α β : Type} {m : Read α} {bs : Bytes}

theorem of_takes {P : α → Prop} (h : Takes m bs P) : Whole m bs :=
  let ⟨a, ha, _⟩ := h.fromBytes
  ⟨a, ha⟩

/-- An element is an element wherever it stands. -/
theorem takes {S : α → α → Prop} (hd : Echoes S m m) (h : Whole m bs) : Takes m bs fun _ => True := by
  obtain ⟨a, ha⟩ := h
  obtain ⟨r', hr, hend⟩ := Read.fromBytes_ok ha
  obtain ⟨cs, tail, hc, ht⟩ := hd _ a r' hr
  obtain rfl : [] = tail := hend.symm.trans hc.after
  obtain rfl : bs = cs := by simpa [Reader.new] using hc.rest
  exact ht.mono fun _ _ => trivial

/-- The first byte says how to read on. -/
theorem cons_iff {k : UInt8 → Read α} {b : UInt8} {S : α → α → Prop} (hd : Echoes S (k b) (k b)) :
    Whole (Read.u8 >>= k) (b :: bs) ↔ Whole (k b) bs := by
  constructor
  · rintro ⟨a, ha⟩
    obtain ⟨r', hr, hend⟩ := Read.fromBytes_ok ha
    obtain ⟨b', r₁, hb, hk⟩ := Prog.bind_ok hr
    obtain ⟨hrest, -⟩ := Read.u8_ok hb
    obtain ⟨rfl, hbs⟩ : b = b' ∧ bs = r₁.rest := by simpa [Reader.new] using hrest
    obtain ⟨cs, tail, hc, ht⟩ := hd r₁ a r' hk
    obtain rfl : [] = tail := hend.symm.trans hc.after
    obtain rfl : bs = cs := by simpa using hbs.trans hc.rest
    exact of_takes ht
  · intro h
    exact of_takes (((Takes.u8 b).bind (Q := fun _ => True) fun b' hb => by
      subst hb; exact h.takes hd))

theorem map_iff {g : α → β} :
    Whole (m >>= fun a => Pure.pure (g a)) bs ↔ Whole m bs := by
  constructor
  · rintro ⟨b, hb⟩
    obtain ⟨r', hr, hend⟩ := Read.fromBytes_ok hb
    obtain ⟨a, r₁, ha, hg⟩ := Prog.bind_ok hr
    obtain rfl : r₁ = r' := (Prod.mk.inj hg).2
    refine ⟨a, ?_⟩
    rw [Read.fromBytes, ha]
    simp only [(r₁.isEmpty_iff).mpr hend, if_true]
  · rintro ⟨a, ha⟩
    obtain ⟨r', hr, hend⟩ := Read.fromBytes_ok ha
    refine ⟨g a, ?_⟩
    rw [Read.fromBytes, Prog.bind_run_ok hr]
    simp only [Prog.pure_run, (r'.isEmpty_iff).mpr hend, if_true]

end Whole

end Dlms
