import DlmsCosem.Transport.Decoding

/-!
# Link parameters

What SNRM proposes and UA confirms. Each value goes out without its leading zeros, as an identifier, a
length and the bytes, and is read back (`Parameters.decode_encode`). Each side caps what it proposes by
what it hears, so after SNRM and UA one side sends what the other one accepts
(`Parameters.negotiate_agrees`).
-/

namespace Dlms.Hdlc

structure Parameters where
  maxInfoTx : UInt16
  maxInfoRx : UInt16
  windowTx : UInt32
  windowRx : UInt32
  deriving Repr, DecidableEq

/-- One value. -/
def writeParam (id : UInt8) (value : UInt32) : Emit :=
  let be := beBytes 4 value.toNat
  let first := (be.findIdx? (· != 0)).getD 3
  let n := 4 - first
  Emit.bytes [id, UInt8.ofNat n] ++ Emit.bytes (be.drop first)

namespace Parameters

/-- `DEFAULT`. -/
def default : Parameters := ⟨128, 128, 1, 1⟩

/-- The four values. -/
def body (p : Parameters) : Emit :=
  writeParam 5 p.maxInfoTx.toUInt32 ++ writeParam 6 p.maxInfoRx.toUInt32 ++ writeParam 7 p.windowTx ++
    writeParam 8 p.windowRx

def encode (p : Parameters) : Emit :=
  match SliceWriter.encodeInto p.body (List.replicate 32 0) with
  | .error e => Emit.failAt e
  | .ok body => Emit.bytes [0x81, 0x80, UInt8.ofNat body.length] ++ Emit.bytes body

/-- `u16::try_from(v).unwrap_or(u16::MAX)`. -/
def clamp (v : UInt32) : UInt16 := if v.toNat < 2 ^ 16 then v.toUInt16 else 0xFFFF

/-- What one value says. -/
def set (p : Parameters) (id : UInt8) (v : UInt32) : Parameters :=
  match id with
  | 5 => { p with maxInfoTx := clamp v }
  | 6 => { p with maxInfoRx := clamp v }
  | 7 => { p with windowTx := v }
  | 8 => { p with windowRx := v }
  | _ => p

/-- The loop of `decode`, `fuel` values at most. -/
def decodeValues : (fuel : Nat) → Parameters → Read Parameters
  | 0, out => pure out
  | fuel + 1, out => do
    if ← Read.isEmpty then return out
    else
      let id ← Read.u8
      let vlen ← Read.u8
      let raw ← Read.take vlen.toNat
      -- `(v << 8) | b` for each byte keeps the low 32 bits.
      decodeValues fuel (out.set id (UInt32.ofNat (beNat raw)))

/-- What stands in front of the values: two bytes and how many bytes they take. -/
def decodeBody : Read Bytes := do
  if (← Read.u8) != 0x81 then Read.errBack .invalidValue 2
  else if (← Read.u8) != 0x80 then Read.errBack .invalidValue 2
  else
    let len ← Read.u8
    Read.take len.toNat

/-- `decode`: the default for anything absent. -/
def decode (bytes : Bytes) : Result Parameters :=
  if bytes.isEmpty then .ok default
  else do
    let inner ← (decodeBody (Reader.new bytes)).1
    -- A value takes two bytes at least, so the loop ends before the fuel does.
    (decodeValues (inner.length + 1) default (Reader.withBase inner 3)).1

/-- What both sides can do. -/
def negotiate (self peer : Parameters) : Parameters where
  maxInfoTx := if self.maxInfoTx < peer.maxInfoRx then self.maxInfoTx else peer.maxInfoRx
  maxInfoRx := if self.maxInfoRx < peer.maxInfoTx then self.maxInfoRx else peer.maxInfoTx
  windowTx := if self.windowTx < peer.windowRx then self.windowTx else peer.windowRx
  windowRx := if self.windowRx < peer.windowTx then self.windowRx else peer.windowTx

/-! ## The loop ends -/

/-- With fuel for every byte the loop does not run out. -/
theorem decodeValues_fuel {fuel : Nat} {out : Parameters} {r : Reader} (h : r.remaining < fuel) :
    decodeValues (fuel + 1) out r = decodeValues fuel out r := by
  induction fuel generalizing out r with
  | zero => exact absurd h (Nat.not_lt_zero _)
  | succ fuel ih =>
    rw [decodeValues, decodeValues, Read.isEmpty, Prog.gets_bind_run, Prog.gets_bind_run]
    split
    · rfl
    · match h₁ : Read.u8 r with
      | (.error e, r₁) => rw [Prog.bind_run_error h₁, Prog.bind_run_error h₁]
      | (.ok id, r₁) =>
        rw [Prog.bind_run_ok h₁, Prog.bind_run_ok h₁]
        match h₂ : Read.u8 r₁ with
        | (.error e, r₂) => rw [Prog.bind_run_error h₂, Prog.bind_run_error h₂]
        | (.ok vlen, r₂) =>
          rw [Prog.bind_run_ok h₂, Prog.bind_run_ok h₂]
          match h₃ : Read.take vlen.toNat r₂ with
          | (.error e, r₃) => rw [Prog.bind_run_error h₃, Prog.bind_run_error h₃]
          | (.ok raw, r₃) =>
            rw [Prog.bind_run_ok h₃, Prog.bind_run_ok h₃]
            obtain ⟨hrest, hadv₁⟩ := Read.u8_ok h₁
            obtain ⟨-, hadv₂⟩ := Read.u8_ok h₂
            obtain ⟨-, -, hadv₃⟩ := Read.take_ok h₃
            have hlen := congrArg List.length hrest
            rw [Reader.length_rest, List.length_cons, Reader.length_rest] at hlen
            have hle : r₃.remaining ≤ r₁.remaining := by
              rw [← Reader.length_rest, ← Reader.length_rest, hadv₃.rest, hadv₂.rest, List.length_drop,
                List.length_drop]
              omega
            exact ih (by omega)

/-! ## The round trip -/

theorem clamp_toUInt32 (v : UInt16) : clamp v.toUInt32 = v := by
  have hlt : v.toUInt32.toNat < 2 ^ 16 := by
    rw [UInt16.toNat_toUInt32]
    exact v.toNat_lt
  rw [clamp, if_pos hlt]
  simp

/-- Leading zeros say nothing. -/
theorem beNat_dropZeros (bs : Bytes) (n : Nat) (h : ∀ b ∈ bs.take n, b = 0) :
    beNat (bs.drop n) = beNat bs := by
  induction n generalizing bs with
  | zero => rfl
  | succ n ih =>
    cases bs with
    | nil => rfl
    | cons b bs =>
      have hb : b = 0 := h b (by simp)
      rw [List.drop_succ_cons, ih bs fun x hx => h x (by simp [hx]), beNat_cons, hb]
      simp

/-- A value goes out as an identifier, a length and bytes. -/
theorem writeParam_data (id : UInt8) (value : UInt32) : (writeParam id value).fault = none ∧
    ∃ raw, (writeParam id value).data = id :: UInt8.ofNat raw.length :: raw ∧ raw.length ≤ 4 ∧
      UInt32.ofNat (beNat raw) = value := by
  unfold writeParam
  dsimp only
  have hlen := length_beBytes 4 value.toNat
  have hvalue : beNat (beBytes 4 value.toNat) = value.toNat := by
    have hmod := Nat.mod_eq_of_lt (b := 256 ^ 4) value.toNat_lt
    rw [beNat_beBytes, hmod]
  generalize beBytes 4 value.toNat = be at *
  have hzeros : ∀ b ∈ be.take ((be.findIdx? (· != 0)).getD 3), b = 0 := by
    intro b hb
    obtain ⟨i, hi, rfl⟩ := List.mem_iff_getElem.mp hb
    rw [List.getElem_take]
    rw [List.length_take] at hi
    obtain hfind | ⟨k, hfind⟩ := Option.eq_none_or_eq_some (be.findIdx? (· != 0))
    · have hall := List.findIdx?_eq_none_iff.mp hfind _ (List.getElem_mem (by omega : i < be.length))
      simpa using hall
    · obtain ⟨hk, -, hbefore⟩ := List.findIdx?_eq_some_iff_getElem.mp hfind
      rw [hfind, Option.getD_some] at hi
      simpa using hbefore i (by omega)
  refine ⟨rfl, be.drop ((be.findIdx? (· != 0)).getD 3), ?_, ?_, ?_⟩
  · rw [Emit.append_data rfl, Emit.bytes_data, Emit.bytes_data, List.length_drop, hlen]
    rfl
  · rw [List.length_drop]
    omega
  · rw [beNat_dropZeros be _ hzeros, hvalue, UInt32.ofNat_toNat]

/-- The loop takes a value. -/
theorem decodeValues_cons (fuel : Nat) (out : Parameters) {r : Reader} {id : UInt8} {raw tail : Bytes}
    (h : r.rest = id :: UInt8.ofNat raw.length :: raw ++ tail) (hlen : raw.length ≤ 4) :
    ∃ r', r'.rest = tail ∧ decodeValues (fuel + 1) out r =
      decodeValues fuel (out.set id (UInt32.ofNat (beNat raw))) r' := by
  obtain ⟨_, r₁, h₁, rfl, hadv₁⟩ := Takes.u8 id r (UInt8.ofNat raw.length :: (raw ++ tail)) h
  have hrest₁ : r₁.rest = UInt8.ofNat raw.length :: (raw ++ tail) := by
    rw [hadv₁.rest, h]
    rfl
  obtain ⟨_, r₂, h₂, rfl, hadv₂⟩ := Takes.u8 (UInt8.ofNat raw.length) r₁ (raw ++ tail) hrest₁
  have hrest₂ : r₂.rest = raw ++ tail := by
    rw [hadv₂.rest, hrest₁]
    rfl
  obtain ⟨_, r₃, h₃, rfl, hadv₃⟩ := Takes.take raw r₂ tail hrest₂
  have hcount : (UInt8.ofNat raw.length).toNat = raw.length :=
    UInt8.toNat_ofNat_of_lt' (by change _ < 256; omega)
  rw [← hcount] at h₃
  have hmore : r.isEmpty = false := by
    cases he : r.isEmpty with
    | false => rfl
    | true =>
      rw [Reader.isEmpty_iff, h] at he
      cases he
  refine ⟨r₃, by rw [hadv₃.rest, hrest₂, List.drop_left], ?_⟩
  rw [decodeValues, Read.isEmpty, Prog.gets_bind_run, hmore]
  rw [if_neg (by decide), Prog.bind_run_ok h₁, Prog.bind_run_ok h₂, Prog.bind_run_ok h₃]

theorem decodeValues_nil {fuel : Nat} {out : Parameters} {r : Reader} (h : r.rest = []) :
    decodeValues (fuel + 1) out r = (.ok out, r) := by
  rw [decodeValues, Read.isEmpty, Prog.gets_bind_run, (r.isEmpty_iff).mpr h]
  rfl

/-- Parameters are read back from the bytes that go out. -/
theorem decode_encode (p : Parameters) : p.encode.fault = none ∧ p.encode.data.length ≤ 27 ∧
    decode p.encode.data = .ok p := by
  obtain ⟨hf₁, raw₁, hd₁, hl₁, hv₁⟩ := writeParam_data 5 p.maxInfoTx.toUInt32
  obtain ⟨hf₂, raw₂, hd₂, hl₂, hv₂⟩ := writeParam_data 6 p.maxInfoRx.toUInt32
  obtain ⟨hf₃, raw₃, hd₃, hl₃, hv₃⟩ := writeParam_data 7 p.windowTx
  obtain ⟨hf₄, raw₄, hd₄, hl₄, hv₄⟩ := writeParam_data 8 p.windowRx
  have hfault : p.body.fault = none := by
    rw [body, Emit.append_fault_eq_none, Emit.append_fault_eq_none, Emit.append_fault_eq_none]
    exact ⟨⟨⟨hf₁, hf₂⟩, hf₃⟩, hf₄⟩
  have hdata : p.body.data = 5 :: UInt8.ofNat raw₁.length :: raw₁ ++
      (6 :: UInt8.ofNat raw₂.length :: raw₂ ++ (7 :: UInt8.ofNat raw₃.length :: raw₃ ++
        (8 :: UInt8.ofNat raw₄.length :: raw₄ ++ []))) := by
    rw [body, Emit.append_data (Emit.append_fault_eq_none.mpr ⟨Emit.append_fault_eq_none.mpr ⟨hf₁, hf₂⟩, hf₃⟩),
      Emit.append_data (Emit.append_fault_eq_none.mpr ⟨hf₁, hf₂⟩), Emit.append_data hf₁, hd₁, hd₂, hd₃, hd₄]
    simp only [List.append_assoc, List.cons_append, List.append_nil]
  have hsize : p.body.data.length ≤ 24 := by
    rw [hdata]
    simp only [List.length_append, List.length_cons, List.length_nil]
    omega
  have hbody : SliceWriter.encodeInto p.body (List.replicate 32 0) = .ok p.body.data :=
    SliceWriter.encodeInto_fits hfault (by rw [Emit.size, List.length_replicate]; omega)
  have hencode : p.encode = Emit.bytes [0x81, 0x80, UInt8.ofNat p.body.data.length] ++
      Emit.bytes p.body.data := by
    rw [encode, hbody]
  have hall : p.encode.data = 0x81 :: 0x80 :: UInt8.ofNat p.body.data.length :: p.body.data := by
    rw [hencode, Emit.append_data rfl, Emit.bytes_data, Emit.bytes_data]
    rfl
  refine ⟨by rw [hencode]; rfl, by rw [hall]; simp only [List.length_cons]; omega, ?_⟩
  have htakes : Takes decodeBody ([0x81] ++ ([0x80] ++ ([UInt8.ofNat p.body.data.length] ++ p.body.data)))
      (p.body.data = ·) := by
    refine (Takes.u8 0x81).bind fun a ha => ?_
    obtain rfl := ha
    rw [if_neg (by decide)]
    refine (Takes.u8 0x80).bind fun b hb => ?_
    obtain rfl := hb
    rw [if_neg (by decide)]
    refine (Takes.u8 _).bind fun len hlen => ?_
    obtain rfl := hlen
    rw [UInt8.toNat_ofNat_of_lt' (by change _ < 256; omega)]
    exact Takes.take _
  obtain ⟨_, r, hrun, rfl, -⟩ := htakes (Reader.new p.encode.data) [] (by rw [hall]; simp [Reader.new])
  have hinner : (decodeBody (Reader.new p.encode.data)).1 = .ok p.body.data := by rw [hrun]
  unfold decode
  rw [if_neg (by rw [hall]; simp), hinner]
  change (decodeValues (p.body.data.length + 1) default (Reader.withBase p.body.data 3)).1 = .ok p
  obtain ⟨fuel, hfuel⟩ : ∃ fuel, p.body.data.length + 1 = fuel + 1 + 1 + 1 + 1 + 1 := by
    refine ⟨p.body.data.length - 4, ?_⟩
    rw [hdata]
    simp only [List.length_append, List.length_cons, List.length_nil]
    omega
  obtain ⟨r₁, hr₁, hs₁⟩ := decodeValues_cons (fuel + 1 + 1 + 1 + 1) default
    (r := Reader.withBase p.body.data 3) hdata hl₁
  obtain ⟨r₂, hr₂, hs₂⟩ := decodeValues_cons (fuel + 1 + 1 + 1) (default.set 5 _) hr₁ hl₂
  obtain ⟨r₃, hr₃, hs₃⟩ := decodeValues_cons (fuel + 1 + 1) ((default.set 5 _).set 6 _) hr₂ hl₃
  obtain ⟨r₄, hr₄, hs₄⟩ := decodeValues_cons (fuel + 1) (((default.set 5 _).set 6 _).set 7 _)
    hr₃ hl₄
  rw [hfuel, hs₁, hs₂, hs₃, hs₄, decodeValues_nil hr₄, hv₁, hv₂, hv₃, hv₄]
  simp [set, clamp_toUInt32]

/-- After SNRM and UA one side sends what the other one accepts. -/
theorem negotiate_agrees (client server : Parameters) :
    let confirmed := server.negotiate client
    let agreed := client.negotiate confirmed
    agreed.maxInfoTx = confirmed.maxInfoRx ∧ agreed.maxInfoRx = confirmed.maxInfoTx ∧
      agreed.windowTx = confirmed.windowRx ∧ agreed.windowRx = confirmed.windowTx := by
  simp only [negotiate]
  refine ⟨?_, ?_, ?_, ?_⟩ <;> grind

end Parameters

end Dlms.Hdlc
