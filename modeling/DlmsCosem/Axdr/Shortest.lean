import DlmsCosem.Axdr.Iteration

/-!
# The shortest form

A length may be written with more bytes than it needs, and any byte but zero is a true boolean, so
several byte strings decode to one value. The encoder writes one of them: each length in its
shortest form and a boolean as 0 or 1. `Data.skipShortest` walks past a value of this form, and what
it walks past the encoder writes back (`Data.decodeAt_spells`).
-/

namespace Dlms

/-- Read a length that is in its shortest form. -/
def Read.shortestLength : Read Nat := do
  let start ← Read.offset
  let n ← Read.length
  let stop ← Read.offset
  if stop - start = (Emit.length n).size then return n else Read.fail .invalidLength

/-- Walk past one value in which every length is in its shortest form and every boolean is 0 or 1.
The description and the contents of a compact array are not looked into. -/
def Data.skipShortest : Nat → Read Unit
  | 0 => Read.fail .depthExceeded
  | left + 1 => do
    let tagByte ← Read.u8
    match DataTag.fromU8 tagByte with
    | none => Read.errBack (.invalidTag tagByte) 1
    | some .boolean => do
      let v ← Read.u8
      if v = 0 ∨ v = 1 then return () else Read.fail .invalidValue
    | some .array | some .structure => do
      let count ← Read.shortestLength
      Prog.times count (skipShortest left)
    | some .bitString => do
      let bits ← Read.shortestLength
      Read.skip ((bits + 7) / 8)
    | some .octetString | some .visibleString | some .utf8String => do
      let n ← Read.shortestLength
      Read.skip n
    | some .compactArray => do
      let used ← Read.probe (TypeDesc.skipAt left)
      let _ ← Read.take used
      let n ← Read.shortestLength
      Read.skip n
    | some tag => Read.skip (tag.fixedLen.getD 0)

/-- What `m` reads is what `enc` writes of its value. -/
def Spells {α : Type} (m : Read α) (enc : α → Emit) : Prop :=
  ∀ r a r', m r = (.ok a, r') → (enc a).fault = none ∧ r.Consumed (enc a).data r'.rest r'

namespace Spells

variable {α β : Type} {enc : α → Emit} {enc' : β → Emit}

theorem map {m : Read α} {g : α → β} (h : Spells m enc) (hg : ∀ a, enc' (g a) = enc a) :
    Spells (m >>= fun a => Pure.pure (g a)) enc' := by
  intro r b r' hr
  obtain ⟨a, r₁, ha, hb⟩ := Prog.bind_ok hr
  obtain ⟨rfl, rfl⟩ : g a = b ∧ r₁ = r' := by simpa using hb
  rw [hg]
  exact h r a r₁ ha

theorem u8 : Spells Read.u8 Emit.u8 := by
  intro r b r' hr
  obtain ⟨hrest, hadv⟩ := Read.u8_ok hr
  rw [Emit.u8_data]
  exact ⟨rfl, hrest, hadv⟩

theorem take (n : Nat) : Spells (Read.take n) Emit.bytes := by
  intro r bs r' hr
  rw [Emit.bytes_data]
  exact ⟨rfl, Read.take_consumed hr⟩

/-- A number of `k` bytes. -/
theorem number {k : Nat} {g : Nat → α} {f : α → Nat} (henc : ∀ a, enc a = Emit.bytes (beBytes k (f a)))
    (hback : ∀ v, v < 256 ^ k → f (g v) = v) :
    Spells (Read.take k >>= fun bs => Pure.pure (g (beNat bs))) enc := by
  intro r a r' hr
  obtain ⟨bs, r₁, htake, ha⟩ := Prog.bind_ok hr
  obtain ⟨rfl, rfl⟩ : g (beNat bs) = a ∧ r₁ = r' := by simpa using ha
  have hlen := Read.length_take htake
  have hlt := beNat_lt bs
  rw [hlen] at hlt
  have hbytes : beBytes k (beNat bs) = bs := by
    rw [← hlen]
    exact beBytes_beNat bs
  rw [henc, hback _ hlt, hbytes]
  exact take k r bs r₁ htake

theorem u16 : Spells Read.u16 Emit.u16 :=
  number (f := UInt16.toNat) (fun _ => rfl) fun v hv => by
    rw [UInt16.toNat_ofNat']
    exact Nat.mod_eq_of_lt hv

theorem u32 : Spells Read.u32 Emit.u32 :=
  number (f := UInt32.toNat) (fun _ => rfl) fun v hv => by
    rw [UInt32.toNat_ofNat']
    exact Nat.mod_eq_of_lt hv

theorem u64 : Spells Read.u64 Emit.u64 :=
  number (f := UInt64.toNat) (fun _ => rfl) fun v hv => by
    rw [UInt64.toNat_ofNat']
    exact Nat.mod_eq_of_lt hv

theorem i8 : Spells Read.i8 fun v => Emit.u8 v.toUInt8 := u8.map fun _ => by simp
theorem i16 : Spells Read.i16 fun v => Emit.u16 v.toUInt16 := u16.map fun _ => by simp
theorem i32 : Spells Read.i32 fun v => Emit.u32 v.toUInt32 := u32.map fun _ => by simp
theorem i64 : Spells Read.i64 fun v => Emit.u64 v.toUInt64 := u64.map fun _ => by simp

end Spells

/-! ## Lengths -/

/-- The first byte of a long length is its highest bit and how many bytes follow. -/
theorem long_first {first : UInt8} (h : ¬ first < 0x80) (hn : (first &&& 0x7f).toNat ≤ 4) :
    0x80 ||| UInt8.ofNat (first &&& 0x7f).toNat = first := by
  have hand : (first &&& 0x7f).toNat = first.toNat % 128 := by
    rw [UInt8.toNat_and]
    exact Nat.and_two_pow_sub_one_eq_mod first.toNat 7
  have hlt := first.toNat_lt
  rw [UInt8.lt_iff_toNat_lt] at h
  have h128 : 128 ≤ first.toNat := Nat.le_of_not_lt h
  obtain ⟨n, hfirst, hn4⟩ : ∃ n, first.toNat = 128 + n ∧ n ≤ 4 :=
    ⟨first.toNat - 128, by omega, by omega⟩
  have hmod : first.toNat % 128 = n := by omega
  rw [hand, hmod]
  apply UInt8.toNat_inj.mp
  rw [hfirst]
  clear hand hlt h h128 hmod hfirst hn
  interval_cases n <;> rfl

/-- A length of as many bytes as its shortest form is in its shortest form. -/
theorem Read.length_shortest {r r' : Reader} {n : Nat} (h : Read.length r = (.ok n, r'))
    (hsize : r.Advanced (Emit.length n).size r') :
    (Emit.length n).fault = none ∧ r.Consumed (Emit.length n).data r'.rest r' := by
  have hlt := Read.length_lt h
  have hsized := Emit.length_sized hlt
  refine ⟨hsized.fault, ?_⟩
  obtain ⟨first, r₁, hu8, h⟩ := Prog.bind_ok h
  obtain ⟨hrest, hadv⟩ := Read.u8_ok hu8
  by_cases hfirst : first < 0x80
  · rw [if_pos hfirst] at h
    obtain ⟨rfl, rfl⟩ : first.toNat = n ∧ r₁ = r' := by simpa using h
    have hdata : (Emit.length first.toNat).data = [first] := by
      have hs : first.toNat < 0x80 := UInt8.lt_iff_toNat_lt.mp hfirst
      rw [Emit.length, if_pos hs, Emit.u8_data, UInt8.ofNat_toNat]
    rw [hdata]
    exact ⟨hrest, hadv⟩
  · rw [if_neg hfirst] at h
    split at h
    · cases h
    · rename_i hn
      simp only [Bool.or_eq_true, beq_iff_eq, decide_eq_true_eq, not_or, Nat.not_lt] at hn
      obtain ⟨bs, r₂, htake, h⟩ := Prog.bind_ok h
      obtain ⟨rfl, rfl⟩ : beNat bs = n ∧ r₂ = r' := by simpa using h
      have hlen := Read.length_take htake
      have hc := Read.take_consumed htake
      -- The bytes that were read are one and those of `bs`.
      have hcount : (Emit.length (beNat bs)).size = 1 + bs.length := by
        have h₁ := hsize.pos
        have h₂ := hadv.pos
        have h₃ := hc.advanced.pos
        omega
      have hlong : ¬ beNat bs < 0x80 := by
        intro hs
        rw [hsized.size, Emit.lengthSize, if_pos hs] at hcount
        omega
      obtain ⟨k, hk, h4, h8, hbe⟩ := Ber.leading_zeros (by omega) hlt
      have hdata : (Emit.length (beNat bs)).data =
          (0x80 ||| UInt8.ofNat (8 - k)) :: (beBytes 8 (beNat bs)).drop k := by
        rw [Emit.length, if_neg hlong]
        simp only [hk]
        rw [if_neg (by omega), Emit.append_data rfl, Emit.u8_data, Emit.bytes_data]
        rfl
      have hk8 : 8 - k = bs.length := by
        rw [Emit.size, hdata, List.length_cons, List.length_drop, length_beBytes] at hcount
        omega
      have hdrop : (beBytes 8 (beNat bs)).drop k = bs := by
        have hlen' : ((beBytes 8 (beNat bs)).drop k).length = bs.length := by
          rw [List.length_drop, length_beBytes, hk8]
        have h₁ := beBytes_beNat ((beBytes 8 (beNat bs)).drop k)
        rw [hlen', hbe, beBytes_beNat] at h₁
        exact h₁.symm
      have hhead : 0x80 ||| UInt8.ofNat (8 - k) = first := by
        rw [hk8, hlen]
        exact long_first hfirst hn.2
      have hone : r.Consumed [first] (bs ++ r₂.rest) r₁ := ⟨by rw [hrest, hc.rest]; rfl, hadv⟩
      rw [hdata, hhead, hdrop]
      exact hone.trans hc

theorem Read.shortestLength_ok {r r' : Reader} {n : Nat} (h : Read.shortestLength r = (.ok n, r')) :
    Read.length r = (.ok n, r') ∧ (Emit.length n).fault = none ∧
      r.Consumed (Emit.length n).data r'.rest r' := by
  obtain ⟨start, r₀, hstart, h⟩ := Prog.bind_ok h
  obtain ⟨rfl, rfl⟩ : r.offset = start ∧ r = r₀ := by simpa [Read.offset] using hstart
  obtain ⟨m, r₁, hlen, h⟩ := Prog.bind_ok h
  obtain ⟨stop, r₂, hstop, h⟩ := Prog.bind_ok h
  obtain ⟨rfl, rfl⟩ : r₁.offset = stop ∧ r₁ = r₂ := by simpa [Read.offset] using hstop
  split at h
  · rename_i hsize
    obtain ⟨rfl, rfl⟩ : m = n ∧ r₁ = r' := by simpa using h
    obtain ⟨bs, tail, hc, -⟩ := Echoes.length _ _ _ hlen
    have hcount : bs.length = (Emit.length m).size := by
      rw [← hsize, hc.advanced.offset]
      omega
    exact ⟨hlen, Read.length_shortest hlen (hcount ▸ hc.advanced)⟩
  · cases h

/-- Lengths of the encoder are in their shortest form. -/
theorem Takes.shortestLength {n : Nat} (h : n < 2 ^ 32) :
    Takes Read.shortestLength (Emit.length n).data (n = ·) := by
  intro r tail hr
  obtain ⟨m, r', hm, rfl, hadv⟩ := Takes.length h r tail hr
  refine ⟨n, r', ?_, rfl, hadv⟩
  have hstart : Read.offset r = (.ok r.offset, r) := rfl
  have hstop : Read.offset r' = (.ok r'.offset, r') := rfl
  have hsize : r'.offset - r.offset = (Emit.length n).size := by
    rw [hadv.offset, Emit.size]
    omega
  rw [Read.shortestLength, Prog.bind_run_ok hstart, Prog.bind_run_ok hm, Prog.bind_run_ok hstop,
    if_pos hsize]
  rfl

theorem Echoes.shortestLength : Echoes Eq Read.shortestLength Read.shortestLength := by
  intro r n r' h
  obtain ⟨hlen, -, hc⟩ := Read.shortestLength_ok h
  exact ⟨_, r'.rest, hc, .shortestLength (Read.length_lt hlen)⟩

/-! ## The walk -/

namespace Data

theorem skipShortest_echoes (left : Nat) : Echoes Eq (skipShortest left) (skipShortest left) := by
  induction left with
  | zero => exact .fail
  | succ left ih =>
    refine Echoes.u8.andThen fun b => ?_
    cases DataTag.fromU8 b with
    | none => exact .errBack
    | some tag =>
      cases tag <;> first
        | exact .skip _
        | exact Echoes.shortestLength.andThen fun n => ih.times n
        | exact Echoes.shortestLength.andThen fun n => .skip _
        | exact .probe (TypeDesc.parseAt_echoes left).void fun _ _ =>
            Echoes.shortestLength.andThen fun n => .skip _
        | (refine Echoes.u8.andThen fun v => ?_
           split
           · exact .pure rfl
           · exact .fail)

/-- What is in its shortest form is walked past by the other walk. -/
theorem skip_of_skipShortest {left : Nat} {r q : Reader} (h : skipShortest left r = (.ok (), q)) :
    skip left r = (.ok (), q) := by
  induction left generalizing r q with
  | zero => cases h
  | succ left ih =>
    obtain ⟨b, r₁, hb, h⟩ := Prog.bind_ok h
    refine (Prog.bind_run_ok hb).trans ?_
    have hcounted : ∀ {w w' : Nat → Read Unit}, (∀ n r, w n r = (.ok (), q) → w' n r = (.ok (), q)) →
        (Read.shortestLength >>= w) r₁ = (.ok (), q) → (Read.length >>= w') r₁ = (.ok (), q) := by
      intro w w' hw h
      obtain ⟨n, r₂, hn, h⟩ := Prog.bind_ok h
      exact (Prog.bind_run_ok (Read.shortestLength_ok hn).1).trans (hw n r₂ h)
    cases htag : DataTag.fromU8 b with
    | none =>
      rw [htag] at h
      cases h
    | some tag =>
      rw [htag] at h
      cases tag with
      | array | «structure» =>
        refine hcounted (fun n => ?_) h
        induction n with
        | zero => exact fun r h => h
        | succ n ihn =>
          intro r h
          obtain ⟨⟨⟩, r₂, hfirst, h⟩ := Prog.bind_ok h
          exact (Prog.bind_run_ok (ih hfirst)).trans (ihn r₂ h)
      | bitString | octetString | visibleString | utf8String =>
        exact hcounted (w := fun _ => _) (fun n r h => h) h
      | boolean =>
        obtain ⟨v, r₂, hv, h⟩ := Prog.bind_ok h
        split at h
        · obtain ⟨-, rfl⟩ := Prod.mk.inj h
          exact (Walks.u8 r₁ r₂).mp ⟨v, hv⟩
        · cases h
      | compactArray =>
        obtain ⟨used, r₂, hused, h⟩ := Prog.bind_ok h
        obtain ⟨desc, r₃, hdesc, h⟩ := Prog.bind_ok h
        obtain ⟨n, r₄, hn, h⟩ := Prog.bind_ok h
        obtain ⟨contents, r₅, hcontents, h⟩ := Prog.bind_ok h
        obtain ⟨-, rfl⟩ := Prod.mk.inj h
        have h0 : left ≠ 0 := by
          rintro rfl
          cases hused
        have hlen := (Read.shortestLength_ok hn).1
        have hbase : Read.offset r₄ = (.ok r₄.offset, r₄) := rfl
        have hstart : Read.offset r₁ = (.ok r₁.offset, r₁) := rfl
        change CompactArray.skipBody left r₁ = _
        rw [CompactArray.skipBody, CompactArray.decodeBody, if_neg h0]
        refine Prog.bind_run_ok (a := ⟨desc, contents, r₁.offset, r₄.offset, left⟩) ?_
        rw [Prog.bind_run_ok hstart, Prog.bind_run_ok hused, Prog.bind_run_ok hdesc, Prog.bind_run_ok hlen,
          Prog.bind_run_ok hbase, Prog.bind_run_ok hcontents]
        rfl
      | _ => exact h

end Data

/-! ## Dates -/

/-- The two bytes of a number are the number. -/
theorem beBytes_two (a b : UInt8) : beBytes 2 (UInt16.ofNat (beNat [a, b])).toNat = [a, b] := by
  have hlt := beNat_lt [a, b]
  have htwo : [a, b].length = 2 := rfl
  rw [htwo] at hlt
  have hmod : beNat [a, b] % 2 ^ 16 = beNat [a, b] := Nat.mod_eq_of_lt hlt
  rw [UInt16.toNat_ofNat', hmod]
  exact beBytes_beNat [a, b]

theorem Date.toBytes_fromBytes {bs : Bytes} (h : bs.length = 5) : (Date.fromBytes bs).toBytes = bs := by
  obtain ⟨y, y', rest, rfl⟩ : ∃ y y' rest, bs = y :: y' :: rest := by
    rcases bs with _ | ⟨y, _ | ⟨y', rest⟩⟩
    · cases h
    · cases h
    · exact ⟨y, y', rest, rfl⟩
  obtain ⟨m, d, w, rfl⟩ := List.length_eq_three.mp (show rest.length = 3 by simpa using h)
  exact congrArg (· ++ [m, d, w]) (beBytes_two y y')

theorem Time.toBytes_fromBytes {bs : Bytes} (h : bs.length = 4) : (Time.fromBytes bs).toBytes = bs := by
  rcases bs with _ | ⟨hh, rest⟩
  · cases h
  · obtain ⟨m, s, hs, rfl⟩ := List.length_eq_three.mp (show rest.length = 3 by simpa using h)
    rfl

theorem DateTime.toBytes_fromBytes {bs : Bytes} (h : bs.length = 12) :
    (DateTime.fromBytes bs).toBytes = bs := by
  -- Two bytes, seven, two and one.
  obtain ⟨y, y', rest, rfl⟩ : ∃ y y' rest, bs = y :: y' :: rest := by
    rcases bs with _ | ⟨y, _ | ⟨y', rest⟩⟩
    · cases h
    · cases h
    · exact ⟨y, y', rest, rfl⟩
  rcases rest with _ | ⟨m, _ | ⟨d, _ | ⟨w, rest⟩⟩⟩ <;> try cases h
  rcases rest with _ | ⟨hh, _ | ⟨mm, _ | ⟨ss, rest⟩⟩⟩ <;> try cases h
  rcases rest with _ | ⟨hs, rest⟩
  · cases h
  obtain ⟨v, v', st, rfl⟩ := List.length_eq_three.mp (show rest.length = 3 by simpa using h)
  have hdev : beBytes 2 ((UInt16.ofNat (beNat [v, v'])).toInt16).toUInt16.toNat = [v, v'] := by
    rw [UInt16.toUInt16_toInt16]
    exact beBytes_two v v'
  exact congrArg₂ (fun a b => a ++ [m, d, w, hh, mm, ss, hs] ++ b ++ [st]) (beBytes_two y y') hdev

/-! ## Values -/

/-- A walk ahead leaves the reader where it was. -/
theorem Read.probe_snd (f : Read Unit) (r : Reader) : (Read.probe f r).2 = r := by
  unfold Read.probe
  rcases f (Reader.withBase r.rest r.offset) with ⟨_ | ⟨⟩, inner⟩ <;> rfl

/-- A walk ahead and the bytes that it took. -/
theorem Read.probe_ok {α : Type} {f : Read Unit} {k : Bytes → Read α} {r r' : Reader} {a : α}
    (h : (Read.probe f >>= fun used => Read.take used >>= k) r = (.ok a, r')) :
    ∃ raw r₁, r.Consumed raw r₁.rest r₁ ∧ k raw r₁ = (.ok a, r') := by
  obtain ⟨used, r₀, hp, hrun⟩ := Prog.bind_ok h
  obtain rfl : r₀ = r := by simpa [hp] using Read.probe_snd f r
  obtain ⟨raw, r₁, htake, hk⟩ := Prog.bind_ok hrun
  exact ⟨raw, r₁, Read.take_consumed htake, hk⟩

namespace DataTag

theorem asU8_of_fromU8 {b : UInt8} {t : DataTag} (h : fromU8 b = some t) : t.asU8 = b := by
  unfold fromU8 at h
  split at h
  all_goals first
    | exact (Option.some.inj h) ▸ rfl
    | cases h

end DataTag

namespace Data

/-- What `k` reads after the tag is written back after it, where the walk `w` passes it. -/
def Written (tag : DataTag) (k : Read Data) (w : Read Unit) : Prop :=
  ∀ r d r' q, k r = (.ok d, r') → w r = (.ok (), q) →
    d.tag = tag ∧ d.contents.fault = none ∧ r.Consumed d.contents.data r'.rest r'

namespace Written

variable {α : Type} {tag : DataTag} {m : Read α} {enc : α → Emit} {w : Read Unit}

theorem pure {d : Data} (ht : d.tag = tag) (hc : d.contents = Emit.empty) : Written tag (Pure.pure d) w := by
  intro r d' r' q h _
  obtain ⟨rfl, rfl⟩ : d = d' ∧ r = r' := by simpa using h
  rw [hc]
  exact ⟨ht, rfl, .refl r⟩

/-- A value that is made of what `m` gives. -/
theorem map (g : α → Data) (h : Spells m enc) (ht : ∀ a, (g a).tag = tag)
    (hc : ∀ a, (g a).contents = enc a) : Written tag (m >>= fun a => Pure.pure (g a)) w := by
  intro r d r' q hr _
  obtain ⟨a, r₁, ha, hd⟩ := Prog.bind_ok hr
  obtain ⟨rfl, rfl⟩ : g a = d ∧ r₁ = r' := by simpa using hd
  rw [hc]
  exact ⟨ht a, h r a r₁ ha⟩

/-- A value that is made of `n` bytes. -/
theorem taken {n : Nat} (g : Bytes → Data) (ht : ∀ bs, (g bs).tag = tag)
    (hc : ∀ bs, bs.length = n → (g bs).contents = Emit.bytes bs) :
    Written tag (Read.take n >>= fun bs => Pure.pure (g bs)) w := by
  intro r d r' q hr _
  obtain ⟨bs, r₁, htake, hd⟩ := Prog.bind_ok hr
  obtain ⟨rfl, rfl⟩ : g bs = d ∧ r₁ = r' := by simpa using hd
  rw [hc bs (Read.length_take htake)]
  exact ⟨ht bs, Spells.take n r bs r₁ htake⟩

/-- A length in its shortest form, and what it counts. -/
theorem counted {k : Read Data} {w' : Nat → Read Unit} (hk : ∀ r d r', k r = (.ok d, r') →
      ∃ n r₁ bs, Read.length r = (.ok n, r₁) ∧ r₁.Consumed bs r'.rest r' ∧ d.tag = tag ∧
        d.contents = Emit.length n ++ Emit.bytes bs) :
    Written tag k (Read.shortestLength >>= w') := by
  intro r d r' q h hw
  obtain ⟨n, r₁, bs, hn, hbs, htag, hd⟩ := hk r d r' h
  obtain ⟨n', r₂, hn', -⟩ := Prog.bind_ok hw
  obtain ⟨hlen, hf, hc⟩ := Read.shortestLength_ok hn'
  rw [hn] at hlen
  obtain ⟨rfl, rfl⟩ : n = n' ∧ r₁ = r₂ := by simpa using hlen
  rw [hd, Emit.append_fault_of_none hf, Emit.append_data hf, Emit.bytes_data]
  refine ⟨htag, rfl, Reader.Consumed.trans ?_ hbs⟩
  rw [← hbs.rest]
  exact hc

/-- A string with its length. -/
theorem string (g : Bytes → Data) (ht : ∀ bs, (g bs).tag = tag)
    (hc : ∀ bs, (g bs).contents = Emit.lengthPrefixed bs) {w' : Nat → Read Unit} :
    Written tag (Read.lengthPrefixed >>= fun bs => Pure.pure (g bs)) (Read.shortestLength >>= w') := by
  refine counted fun r d r' h => ?_
  obtain ⟨bs, r₂, hbs, hd⟩ := Prog.bind_ok h
  obtain ⟨rfl, rfl⟩ : g bs = d ∧ r₂ = r' := by simpa using hd
  obtain ⟨n, r₁, hn, htake⟩ := Prog.bind_ok hbs
  exact ⟨n, r₁, bs, hn, Read.take_consumed htake, ht bs, by
    rw [hc, Emit.lengthPrefixed, Read.length_take htake]⟩

/-- A count, and the elements that a walk took. -/
theorem sequence {left : Nat} (g : Seq → Data) (ht : ∀ s, (g s).tag = tag)
    (hc : ∀ s, (g s).contents = Emit.length s.count ++ Emit.bytes s.raw) {w' : Nat → Read Unit} :
    Written tag (decodeSeq left >>= fun s => Pure.pure (g s)) (Read.shortestLength >>= w') := by
  refine counted fun r d r' h => ?_
  obtain ⟨s, r₂, hs, hd⟩ := Prog.bind_ok h
  obtain ⟨rfl, rfl⟩ : g s = d ∧ r₂ = r' := by simpa using hd
  obtain ⟨n, r₁, hn, hs⟩ := Prog.bind_ok hs
  obtain ⟨raw, r₃, hraw, hs⟩ := Read.probe_ok hs
  obtain ⟨rfl, rfl⟩ : { count := n, raw, base := r₁.offset, left } = s ∧ r₃ = r₂ := by simpa using hs
  exact ⟨n, r₁, raw, hn, hraw, ht _, hc _⟩

end Written

/-- A description as it stands, and a length in its shortest form. -/
theorem decodeBody_written (left : Nat) : Written .compactArray
    (CompactArray.decodeBody left >>= fun c => pure (compactArray c))
    (Read.probe (TypeDesc.skipAt left) >>= fun used => Read.take used >>= fun _ =>
      Read.shortestLength >>= Read.skip) := by
  intro r d r' q h hw
  obtain ⟨c, r₃, hc, hd⟩ := Prog.bind_ok h
  obtain ⟨rfl, rfl⟩ : compactArray c = d ∧ r₃ = r' := by simpa using hd
  unfold CompactArray.decodeBody at hc
  split at hc
  · cases hc
  · change (Read.probe (TypeDesc.skipAt left) >>= fun used => Read.take used >>= fun desc =>
      Read.length >>= fun len => Read.offset >>= fun contentsBase => Read.take len >>= fun contents =>
        pure { desc, contents, descBase := r.offset, contentsBase, left }) r = (.ok c, r₃) at hc
    obtain ⟨used, r₁, hused, hrun⟩ := Prog.bind_ok hc
    obtain ⟨used', r₁', hused', hwalk⟩ := Prog.bind_ok hw
    obtain ⟨rfl, rfl⟩ : used = used' ∧ r₁ = r₁' := by simpa [hused] using hused'
    obtain rfl : r₁ = r := by simpa [hused] using Read.probe_snd (TypeDesc.skipAt left) r
    obtain ⟨desc, r₂, hdesc, hbody⟩ := Prog.bind_ok hrun
    obtain ⟨desc', r₂', hdesc', hbody'⟩ := Prog.bind_ok hwalk
    obtain ⟨rfl, rfl⟩ : desc = desc' ∧ r₂ = r₂' := by simpa [hdesc] using hdesc'
    obtain ⟨n, r₄, hn, hbody⟩ := Prog.bind_ok hbody
    obtain ⟨n', r₄', hn', -⟩ := Prog.bind_ok hbody'
    obtain ⟨hlen, hf, hl⟩ := Read.shortestLength_ok hn'
    obtain ⟨rfl, rfl⟩ : n = n' ∧ r₄ = r₄' := by simpa [hn] using hlen
    obtain ⟨base, r₆, hbase, hbody⟩ := Prog.bind_ok hbody
    obtain ⟨rfl, rfl⟩ : r₄.offset = base ∧ r₄ = r₆ := by simpa [Read.offset] using hbase
    obtain ⟨contents, r₅, hcontents, hbody⟩ := Prog.bind_ok hbody
    obtain ⟨rfl, rfl⟩ : (⟨desc, contents, r₁.offset, r₄.offset, left⟩ : CompactArray) = c ∧ r₅ = r₃ := by
      simpa using hbody
    have hbody := Read.take_consumed hcontents
    have hlen' := Read.length_take hcontents
    rw [Data.contents, CompactArray.encodeBody, Emit.lengthPrefixed, hlen',
      Emit.append_fault_of_none (Emit.bytes_fault _), Emit.append_fault_of_none hf,
      Emit.append_data (Emit.bytes_fault _), Emit.append_data hf, Emit.bytes_data, Emit.bytes_data]
    have hrest : r₂.Consumed ((Emit.length n).data ++ contents) r₅.rest r₅ := by
      refine Reader.Consumed.trans ?_ hbody
      rw [← hbody.rest]
      exact hl
    refine ⟨rfl, rfl, Reader.Consumed.trans ?_ hrest⟩
    rw [← hrest.rest]
    exact Read.take_consumed hdesc

/-- A value that `skipShortest` walks past is written back as it was read. -/
theorem decodeAt_spells (left : Nat) {r r' q : Reader} {d : Data} (hd : decodeAt left r = (.ok d, r'))
    (hw : skipShortest left r = (.ok (), q)) :
    d.encode.fault = none ∧ r.Consumed d.encode.data r'.rest r' := by
  cases left with
  | zero => cases hd
  | succ left =>
    obtain ⟨b, r₁, hb, hd⟩ := Prog.bind_ok hd
    obtain ⟨b', r₂, hb', hw⟩ := Prog.bind_ok hw
    obtain ⟨rfl, rfl⟩ : b = b' ∧ r₁ = r₂ := by simpa [hb] using hb'
    obtain ⟨hrest, hadv⟩ := Read.u8_ok hb
    -- The tag is written before the contents.
    suffices h : ∀ tag, DataTag.fromU8 b = some tag →
        d.tag = tag ∧ d.contents.fault = none ∧ r₁.Consumed d.contents.data r'.rest r' by
      cases htag : DataTag.fromU8 b with
      | none =>
        rw [htag] at hd
        cases hd
      | some tag =>
        obtain ⟨ht, hf, hc⟩ := h tag htag
        have hbyte : d.tag.asU8 = b := by rw [ht, DataTag.asU8_of_fromU8 htag]
        rw [encode, Emit.append_fault_of_none (Emit.u8_fault _), Emit.append_data (Emit.u8_fault _),
          Emit.u8_data, hbyte]
        refine ⟨hf, Reader.Consumed.trans ⟨?_, hadv⟩ hc⟩
        rw [hrest, hc.rest]
        rfl
    intro tag htag
    rw [htag] at hd hw
    cases tag with
    | nullData | dontCare => exact Written.pure rfl rfl r₁ d r' q hd hw
    | array => exact Written.sequence array (fun _ => rfl) (fun _ => rfl) r₁ d r' q hd hw
    | «structure» =>
      exact Written.sequence Data.structure (fun _ => rfl) (fun _ => rfl) r₁ d r' q hd hw
    | boolean =>
      obtain ⟨v, r₂, hv, hd⟩ := Prog.bind_ok hd
      obtain ⟨v', r₃, hv', hw⟩ := Prog.bind_ok hw
      obtain ⟨rfl, rfl⟩ : v = v' ∧ r₂ = r₃ := by simpa [hv] using hv'
      obtain ⟨rfl, rfl⟩ : boolean (v != 0) = d ∧ r₂ = r' := by simpa using hd
      -- The walk has let 0 and 1 pass only.
      have hbit : v = 0 ∨ v = 1 := by
        by_contra hne
        rw [if_neg hne] at hw
        cases hw
      have hbyte : (v != 0).toUInt8 = v := by
        obtain rfl | rfl := hbit <;> rfl
      have h := Spells.u8 r₁ v r₂ hv
      refine ⟨rfl, rfl, ?_⟩
      rw [contents, hbyte]
      exact h.2
    | bitString =>
      refine Written.counted (fun r d r' h => ?_) r₁ d r' q hd hw
      obtain ⟨bits, r₁, hbits, h⟩ := Prog.bind_ok h
      obtain ⟨bytes, r₂, htake, h⟩ := Prog.bind_ok h
      obtain ⟨rfl, rfl⟩ : bitString { bits, bytes } = d ∧ r₂ = r' := by simpa using h
      exact ⟨bits, r₁, bytes, hbits, Read.take_consumed htake, rfl, rfl⟩
    | octetString => exact Written.string octetString (fun _ => rfl) (fun _ => rfl) r₁ d r' q hd hw
    | visibleString => exact Written.string visibleString (fun _ => rfl) (fun _ => rfl) r₁ d r' q hd hw
    | utf8String => exact Written.string utf8String (fun _ => rfl) (fun _ => rfl) r₁ d r' q hd hw
    | compactArray => exact decodeBody_written left r₁ d r' q hd hw
    | doubleLong => exact Written.map doubleLong .i32 (fun _ => rfl) (fun _ => rfl) r₁ d r' q hd hw
    | doubleLongUnsigned =>
      exact Written.map doubleLongUnsigned .u32 (fun _ => rfl) (fun _ => rfl) r₁ d r' q hd hw
    | bcd => exact Written.map bcd .i8 (fun _ => rfl) (fun _ => rfl) r₁ d r' q hd hw
    | integer => exact Written.map integer .i8 (fun _ => rfl) (fun _ => rfl) r₁ d r' q hd hw
    | long => exact Written.map long .i16 (fun _ => rfl) (fun _ => rfl) r₁ d r' q hd hw
    | unsigned => exact Written.map unsigned .u8 (fun _ => rfl) (fun _ => rfl) r₁ d r' q hd hw
    | longUnsigned => exact Written.map longUnsigned .u16 (fun _ => rfl) (fun _ => rfl) r₁ d r' q hd hw
    | long64 => exact Written.map long64 .i64 (fun _ => rfl) (fun _ => rfl) r₁ d r' q hd hw
    | long64Unsigned =>
      exact Written.map long64Unsigned .u64 (fun _ => rfl) (fun _ => rfl) r₁ d r' q hd hw
    | enum => exact Written.map enum .u8 (fun _ => rfl) (fun _ => rfl) r₁ d r' q hd hw
    | float32 => exact Written.map float32 .u32 (fun _ => rfl) (fun _ => rfl) r₁ d r' q hd hw
    | float64 => exact Written.map float64 .u64 (fun _ => rfl) (fun _ => rfl) r₁ d r' q hd hw
    | deltaInteger => exact Written.map deltaInteger .i8 (fun _ => rfl) (fun _ => rfl) r₁ d r' q hd hw
    | deltaLong => exact Written.map deltaLong .i16 (fun _ => rfl) (fun _ => rfl) r₁ d r' q hd hw
    | deltaDoubleLong =>
      exact Written.map deltaDoubleLong .i32 (fun _ => rfl) (fun _ => rfl) r₁ d r' q hd hw
    | deltaUnsigned => exact Written.map deltaUnsigned .u8 (fun _ => rfl) (fun _ => rfl) r₁ d r' q hd hw
    | deltaLongUnsigned =>
      exact Written.map deltaLongUnsigned .u16 (fun _ => rfl) (fun _ => rfl) r₁ d r' q hd hw
    | deltaDoubleLongUnsigned =>
      exact Written.map deltaDoubleLongUnsigned .u32 (fun _ => rfl) (fun _ => rfl) r₁ d r' q hd hw
    | dateTime =>
      exact Written.taken (fun bs => dateTime (.fromBytes bs)) (fun _ => rfl)
        (fun _ h => congrArg Emit.bytes (DateTime.toBytes_fromBytes h)) r₁ d r' q hd hw
    | date =>
      exact Written.taken (fun bs => date (.fromBytes bs)) (fun _ => rfl)
        (fun _ h => congrArg Emit.bytes (Date.toBytes_fromBytes h)) r₁ d r' q hd hw
    | time =>
      exact Written.taken (fun bs => time (.fromBytes bs)) (fun _ => rfl)
        (fun _ h => congrArg Emit.bytes (Time.toBytes_fromBytes h)) r₁ d r' q hd hw

end Data

end Dlms
