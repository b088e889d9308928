import DlmsCosem.Codec.Echo
import DlmsCosem.Codec.Writer
import DlmsCosem.Lib.Framing

/-!
# The wrapper

Eight bytes in front of an APDU: a version, two service access points and a length. Over TCP the
`StreamReassembler` finds the PDUs in what has arrived. A decision is made on the header and on as many
bytes as it announces, so it is the same whatever follows, and the PDUs come out however the stream is cut
(`reassembly_exact`).
-/

namespace Dlms.Wrapper

/-- The only wrapper version. -/
def version : UInt16 := 0x0001

structure Header where
  version : UInt16
  source : UInt16
  destination : UInt16
  length : UInt16
  deriving Repr, DecidableEq

namespace Header

def len : Nat := 8

def new (source destination length : UInt16) : Header := ⟨Wrapper.version, source, destination, length⟩

def encode (h : Header) : Emit :=
  Emit.u16 h.version ++ Emit.u16 h.source ++ Emit.u16 h.destination ++ Emit.u16 h.length

def decode : Read Header := do
  let version ← Read.u16
  if version != Wrapper.version then Read.errBack .invalidValue 2
  else return ⟨version, ← Read.u16, ← Read.u16, ← Read.u16⟩

end Header

/-- A header and the APDU behind it. -/
structure Wpdu where
  header : Header
  apdu : Bytes
  deriving Repr, DecidableEq

namespace Wpdu

def new (source destination : UInt16) (apdu : Bytes) : Result Wpdu :=
  if apdu.length < 2 ^ 16 then .ok ⟨Header.new source destination (UInt16.ofNat apdu.length), apdu⟩
  else .error ⟨.invalidLength, 0⟩

def encode (w : Wpdu) : Emit := w.header.encode ++ Emit.bytes w.apdu

end Wpdu

/-- A reassembler that refuses a PDU announcing more than `maxApdu` bytes, or none where it is zero. -/
structure StreamReassembler where
  maxApdu : UInt16
  deriving Repr, DecidableEq

/-- `next_pdu`: the PDU at the start of `buf`, and how many bytes it takes. -/
def StreamReassembler.nextPdu (self : StreamReassembler) (buf : Bytes) : Result (Option (Wpdu × Nat)) :=
  if buf.length < Header.len then .ok none
  else do
    let header ← (Header.decode (Reader.new buf)).1
    if self.maxApdu != 0 && self.maxApdu < header.length then .error ⟨.invalidLength, 6⟩
    else
      let total := Header.len + header.length.toNat
      if buf.length < total then .ok none
      else .ok (some (⟨header, (buf.take total).drop Header.len⟩, total))

/-- What `next_pdu` says to a caller: nothing is ever dropped. -/
def found : Option (Wpdu × Nat) → Framing.Found Wpdu
  | some (w, used) => .item w used
  | none => .incomplete 0

/-- The loop of a caller: append a chunk, call `next_pdu` until it has none. -/
def StreamReassembler.receive (self : StreamReassembler) (chunks : List Bytes) :
    Prog Error Unit (List Wpdu × Bytes) :=
  Framing.feed (fun buf => .ofExcept ((self.nextPdu buf).map found)) [] chunks

/-! ## The header -/

theorem u16_run {r : Reader} {a b : UInt8} {rest : Bytes} (h : r.rest = a :: b :: rest) :
    ∃ r', Read.u16 r = (.ok (UInt16.ofNat (beNat [a, b])), r') ∧ r'.rest = rest ∧
      r'.offset = r.offset + 2 := by
  obtain ⟨_, r', hr', rfl, hadv⟩ := Takes.take [a, b] r rest h
  exact ⟨r', Prog.bind_run_ok hr', by rw [hadv.rest, h]; rfl, hadv.offset⟩

theorem Header.decode_run (v v' s s' d d' l l' : UInt8) (rest : Bytes) :
    (decode (Reader.new (v :: v' :: s :: s' :: d :: d' :: l :: l' :: rest))).1 =
      if UInt16.ofNat (beNat [v, v']) != Wrapper.version then .error ⟨.invalidValue, 0⟩
      else .ok ⟨UInt16.ofNat (beNat [v, v']), UInt16.ofNat (beNat [s, s']),
        UInt16.ofNat (beNat [d, d']), UInt16.ofNat (beNat [l, l'])⟩ := by
  obtain ⟨r₁, h₁, hrest₁, ho₁⟩ :=
    u16_run (r := Reader.new (v :: v' :: s :: s' :: d :: d' :: l :: l' :: rest)) rfl
  obtain ⟨r₂, h₂, hrest₂, -⟩ := u16_run hrest₁
  obtain ⟨r₃, h₃, hrest₃, -⟩ := u16_run hrest₂
  obtain ⟨r₄, h₄, -, -⟩ := u16_run hrest₃
  have hstart : r₁.offset = 2 := ho₁
  rw [decode, Prog.bind_run_ok h₁]
  by_cases hv : (UInt16.ofNat (beNat [v, v']) != Wrapper.version) = true
  · simp [hv, Read.errBack, hstart]
  · rw [if_neg hv, if_neg hv, Prog.bind_run_ok h₂, Prog.bind_run_ok h₃, Prog.bind_run_ok h₄]
    rfl

/-- A header is read back. -/
theorem Header.takes_new (source destination length : UInt16) :
    (new source destination length).encode.data.length = len ∧
      Takes decode (new source destination length).encode.data (new source destination length = ·) := by
  have hdata : (new source destination length).encode.data = beBytes 2 Wrapper.version.toNat ++
      (beBytes 2 source.toNat ++ (beBytes 2 destination.toNat ++ beBytes 2 length.toNat)) := rfl
  refine ⟨rfl, ?_⟩
  rw [hdata]
  refine Takes.bind (.ofReads (.u16 Wrapper.version)) fun v hv => ?_
  obtain rfl := hv
  rw [if_neg (by decide)]
  refine Takes.bind (.ofReads (.u16 source)) fun s hs => ?_
  obtain rfl := hs
  refine Takes.bind (.ofReads (.u16 destination)) fun d hd => ?_
  obtain rfl := hd
  exact (Takes.ofReads (.u16 length)).map fun l hl => by rw [← hl]; rfl

/-- How many bytes the header at the start of `buf` announces. -/
def announced (buf : Bytes) : Nat := beNat ((buf.drop 6).take 2)

/-- The header is read off the first eight bytes. -/
theorem Header.decode_append {a : Bytes} (h : len ≤ a.length) (b : Bytes) :
    (decode (Reader.new (a ++ b))).1 = (decode (Reader.new a)).1 := by
  match a, h with
  | v :: v' :: s :: s' :: d :: d' :: l :: l' :: rest, _ =>
    simp only [List.cons_append, decode_run]

theorem Header.decode_length {a : Bytes} {h : Header} (hlen : len ≤ a.length)
    (hrun : (decode (Reader.new a)).1 = .ok h) : h.length.toNat = announced a := by
  match a, hlen with
  | v :: v' :: s :: s' :: d :: d' :: l :: l' :: rest, _ =>
    rw [decode_run] at hrun
    split at hrun
    · cases hrun
    · obtain rfl := Except.ok.inj hrun
      have hlt : beNat [l, l'] < 2 ^ 16 := by simpa using beNat_lt [l, l']
      exact UInt16.toNat_ofNat_of_lt' hlt

/-! ## Decisions -/

namespace StreamReassembler

variable {self : StreamReassembler} {a buf : Bytes}

/-- A decision on some bytes is the decision on every extension of them. -/
theorem nextPdu_append {r : Result (Option (Wpdu × Nat))} (h : self.nextPdu a = r) (hr : r ≠ .ok none)
    (b : Bytes) : self.nextPdu (a ++ b) = r := by
  unfold nextPdu at h ⊢
  by_cases hshort : a.length < Header.len
  · rw [if_pos hshort] at h
    exact absurd h.symm hr
  have hlen := Nat.not_lt.mp hshort
  rw [if_neg hshort] at h
  rw [if_neg (by rw [List.length_append]; omega), Header.decode_append hlen]
  match hheader : (Header.decode (Reader.new a)).1 with
  | .error e =>
    rw [hheader] at h
    exact h
  | .ok header =>
    rw [hheader] at h
    simp only [bind, Except.bind] at h ⊢
    split
    · rename_i hlong
      rw [if_pos hlong] at h
      exact h
    · rename_i hshort
      rw [if_neg hshort] at h
      by_cases hwait : a.length < Header.len + header.length.toNat
      · rw [if_pos hwait] at h
        exact absurd h.symm hr
      · rw [if_neg hwait] at h
        rw [if_neg (by rw [List.length_append]; omega), List.take_append_of_le_length (by omega)]
        exact h

/-- A PDU that is found is all there. -/
theorem nextPdu_used {w : Wpdu} {used : Nat} (h : self.nextPdu buf = .ok (some (w, used))) :
    used ≤ buf.length := by
  unfold nextPdu at h
  split at h
  · cases h
  obtain ⟨header, -, h⟩ := Result.bind_ok.mp h
  dsimp only at h
  split at h
  · cases h
  · split at h
    · cases h
    · rename_i hlen
      obtain ⟨-, rfl⟩ := Prod.mk.inj (Option.some.inj (Except.ok.inj h))
      exact Nat.not_lt.mp hlen

/-- More than the limit is not waited for. -/
theorem nextPdu_wait (hmax : self.maxApdu ≠ 0) (hlen : Header.len ≤ buf.length)
    (h : self.nextPdu buf = .ok none) : announced buf ≤ self.maxApdu.toNat := by
  unfold nextPdu at h
  rw [if_neg (Nat.not_lt.mpr hlen)] at h
  obtain ⟨header, hheader, h⟩ := Result.bind_ok.mp h
  rw [← Header.decode_length hlen hheader]
  dsimp only at h
  split at h
  · cases h
  · rename_i hallowed
    have hle : ¬ self.maxApdu < header.length := by simpa [hmax] using hallowed
    exact Nat.not_lt.mp fun hlt => hle (UInt16.lt_iff_toNat_lt.mpr hlt)

/-- A PDU that `Wpdu.new` built, of a length that the reassembler allows. -/
def Allows (self : StreamReassembler) (w : Wpdu) : Prop :=
  (∃ source destination apdu, Wpdu.new source destination apdu = .ok w) ∧
    (self.maxApdu = 0 ∨ w.apdu.length ≤ self.maxApdu.toNat)

theorem nextPdu_encode {w : Wpdu} (h : self.Allows w) (rest : Bytes) :
    self.nextPdu (w.encode.data ++ rest) = .ok (some (w, w.encode.data.length)) := by
  obtain ⟨⟨source, destination, apdu, hnew⟩, hallowed⟩ := h
  unfold Wpdu.new at hnew
  split at hnew
  · rename_i hlt
    obtain rfl := Except.ok.inj hnew
    obtain ⟨hsize, hdecode⟩ := Header.takes_new source destination (UInt16.ofNat apdu.length)
    have hlength : (Header.new source destination (UInt16.ofNat apdu.length)).length.toNat = apdu.length :=
      UInt16.toNat_ofNat_of_lt' hlt
    generalize Header.new source destination (UInt16.ofNat apdu.length) = header at *
    have hdata : (⟨header, apdu⟩ : Wpdu).encode.data = header.encode.data ++ apdu := by
      rw [Wpdu.encode, Emit.append_data rfl, Emit.bytes_data]
    obtain ⟨_, r, hrun, rfl, -⟩ := hdecode (Reader.new (header.encode.data ++ (apdu ++ rest))) _ rfl
    rw [hdata, List.append_assoc, List.length_append, hsize]
    unfold nextPdu
    rw [if_neg (by rw [List.length_append, hsize]; omega), hrun]
    simp only [bind, Except.bind]
    split
    · rename_i hlong
      rw [Bool.and_eq_true, bne_iff_ne, decide_eq_true_eq, UInt16.lt_iff_toNat_lt, hlength] at hlong
      obtain hzero | hle := hallowed
      · exact absurd hzero hlong.1
      · exact absurd hlong.2 (Nat.not_lt.mpr hle)
    · have htake : (header.encode.data ++ (apdu ++ rest)).take (Header.len + apdu.length) =
          header.encode.data ++ apdu := by
        rw [← List.append_assoc, List.take_left']
        rw [List.length_append, hsize]
      rw [hlength, if_neg (by simp only [List.length_append]; omega), htake, List.drop_left' hsize]
  · cases hnew

/-- A part of a PDU is waited for. -/
theorem waits_take {w : Wpdu} (h : self.Allows w) {k : Nat} (hk : k < w.encode.data.length) :
    self.nextPdu (w.encode.data.take k) = .ok none := by
  by_contra hne
  have hsame := nextPdu_append rfl hne (w.encode.data.drop k)
  have hwhole := nextPdu_encode h []
  rw [List.take_append_drop] at hsame
  rw [List.append_nil, hsame] at hwhole
  have hused := nextPdu_used hwhole
  rw [List.length_take] at hused
  omega

/-- The PDUs that were sent come out however the stream is cut. What is waited for was waited for before,
a decision stays, and no more than the limit is waited for where there is one. -/
theorem reassembly_exact (self : StreamReassembler) :
    (∀ pdus chunks, (∀ w ∈ pdus, self.Allows w) →
      chunks.flatten = pdus.flatMap (fun w => w.encode.data) →
      self.receive chunks () = (.ok (pdus, []), ())) ∧
    (∀ a b, self.nextPdu (a ++ b) = .ok none → self.nextPdu a = .ok none) ∧
    (∀ a b r, self.nextPdu a = r → r ≠ .ok none → self.nextPdu (a ++ b) = r) ∧
    (self.maxApdu ≠ 0 → ∀ buf, Header.len ≤ buf.length → self.nextPdu buf = .ok none →
      announced buf ≤ self.maxApdu.toNat) := by
  refine ⟨fun pdus chunks hpdus hchunks => ?_, fun a b h => ?_, fun a b r h hr => nextPdu_append h hr b,
    fun hmax buf => nextPdu_wait hmax⟩
  · have hnext : ∀ {buf : Bytes} {o : Option (Wpdu × Nat)}, self.nextPdu buf = .ok o →
        (Prog.ofExcept (S := Unit) ((self.nextPdu buf).map found)).Always (found o) := by
      intro buf o h s
      rw [h]
      exact ⟨s, rfl⟩
    have hfinds : ∀ w ∈ pdus, Framing.Finds (S := Unit)
        (fun buf => .ofExcept ((self.nextPdu buf).map found)) (fun w => w.encode.data) w := by
      intro w hw
      refine ⟨?_, fun rest => hnext (nextPdu_encode (hpdus w hw) rest), fun k hk =>
        .inl (hnext (waits_take (hpdus w hw) hk))⟩
      intro hnil
      have hlen := congrArg List.length hnil
      have hwhole := nextPdu_encode (hpdus w hw) []
      rw [hnil] at hwhole
      cases hwhole
    have hempty : Framing.Waits (S := Unit) (fun buf => .ofExcept ((self.nextPdu buf).map found)) [] :=
      fun s => ⟨s, rfl⟩
    obtain ⟨hiff, hrest⟩ := Framing.feed_iff hempty hfinds hchunks ()
    obtain ⟨rest, _, hrun⟩ := hiff.mpr fun past _ => by
      obtain ⟨-, hnil⟩ | ⟨w, more, k, hw, hk, hpart⟩ :=
        Framing.pending_part (fun w : Wpdu => w.encode.data) pdus past.flatten.length
      · rw [hnil]
        exact hempty
      · rw [hpart]
        refine hnext (waits_take (hpdus w ?_) hk)
        rw [hw]
        exact List.mem_append_right _ (List.mem_cons_self ..)
    obtain rfl := hrest _ _ hrun
    exact hrun
  · by_contra hne
    rw [nextPdu_append rfl hne b] at h
    exact hne h

/-- Without a limit any length is waited for. -/
theorem waits_without_limit : ¬ ∀ (self : StreamReassembler) buf, Header.len ≤ buf.length →
    self.nextPdu buf = .ok none → announced buf ≤ self.maxApdu.toNat := by
  intro h
  have hwait := h ⟨0⟩ [0x00, 0x01, 0x00, 0x10, 0x00, 0x01, 0xFF, 0xFF] (by decide) (by decide)
  exact absurd hwait (by decide)

/-- Two PDUs, cut in the header of the first and in the body of the second. -/
theorem reassembly_exact_sample : ∃ first second,
    Wpdu.new 0x10 1 [0xC0, 0x01] = .ok first ∧ Wpdu.new 1 0x10 [0xC4] = .ok second ∧
    (⟨4⟩ : StreamReassembler).receive [[0x00, 0x01, 0x00], [0x10, 0x00, 0x01, 0x00, 0x02, 0xC0, 0x01,
      0x00, 0x01, 0x00, 0x01, 0x00, 0x10, 0x00, 0x01], [], [0xC4]] () = (.ok ([first, second], []), ()) ∧
    announced [0x00, 0x01, 0x00, 0x10, 0x00, 0x01, 0x00, 0x02] ≤ 4 := by
  refine ⟨⟨⟨1, 0x10, 1, 2⟩, [0xC0, 0x01]⟩, ⟨⟨1, 1, 0x10, 1⟩, [0xC4]⟩, rfl, rfl, ?_, ?_⟩
  · refine (reassembly_exact ⟨4⟩).1 _ _ ?_ (by decide)
    intro w hw
    obtain rfl | hw := List.mem_cons.mp hw
    · exact ⟨⟨0x10, 1, [0xC0, 0x01], rfl⟩, .inr (by decide)⟩
    · obtain rfl := List.mem_singleton.mp hw
      exact ⟨⟨1, 0x10, [0xC4], rfl⟩, .inr (by decide)⟩
  · exact (reassembly_exact ⟨4⟩).2.2.2 (by decide) _ (by decide) (by decide)

end StreamReassembler

end Dlms.Wrapper
