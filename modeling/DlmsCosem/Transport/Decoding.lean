import DlmsCosem.Transport.Hdlc

/-!
# What decoding looks at

`decodeFrame` reads a format field, waits for as many bytes as it says, and then looks at nothing behind
them. So what is decided on some bytes is decided whatever follows (`decodeFrame_append`), and a part of
a frame is waited for (`Frame.decodeFrame_take`). Address parts and sequence numbers go out as the bits
that their fields have room for, and are read back so (`Frame.decodeFrame_wire`).
-/

namespace Dlms.Hdlc

/-! ## The format field -/

theorem slice_append_slice (bs : Bytes) {a b c : Nat} (hab : a ≤ b) (hbc : b ≤ c) :
    slice bs a b ++ slice bs b c = slice bs a c := by
  simp only [slice, List.drop_take]
  have hskip : bs.drop b = (bs.drop a).drop (b - a) := by
    rw [List.drop_drop]
    congr 1
    omega
  have hsplit := (List.take_add (l := bs.drop a) (i := b - a) (j := c - b)).symm
  rw [hskip]
  convert hsplit using 2
  omega

/-- A check sequence that is read is what stands there. -/
theorem leBytes_leAt {bs : Bytes} {at' : Nat} (h : at' + 2 ≤ bs.length) :
    leBytes (leAt bs at') = slice bs at' (at' + 2) := by
  obtain ⟨lo, hi, rest, hdrop⟩ : ∃ lo hi rest, bs.drop at' = lo :: hi :: rest := by
    have hlen : (bs.drop at').length = bs.length - at' := List.length_drop
    match hd : bs.drop at' with
    | [] | [_] =>
      rw [hd] at hlen
      simp only [List.length_nil, List.length_singleton] at hlen
      omega
    | lo :: hi :: rest => exact ⟨lo, hi, rest, rfl⟩
  have hget : ∀ i, bs.getD (at' + i) 0 = (lo :: hi :: rest).getD i 0 := by
    intro i
    rw [← hdrop]
    simp
  have hlo : bs.getD at' 0 = lo := hget 0
  have hhi : bs.getD (at' + 1) 0 = hi := hget 1
  have hlt : beNat [hi, lo] < 65536 := by simpa using beNat_lt [hi, lo]
  rw [slice, List.drop_take, hdrop, leAt, hlo, hhi, leBytes, UInt16.toNat_ofNat_of_lt' hlt]
  have hbytes : beBytes 2 (beNat [hi, lo]) = [hi, lo] := beBytes_beNat [hi, lo]
  rw [hbytes]
  simp

theorem decodeFormat_cons (a b c : UInt8) (rest : Bytes) :
    (decodeFormat (Reader.new (a :: b :: c :: rest))).1 =
      let format := UInt16.ofNat (beNat [b, c])
      if a != flag then .error ⟨.invalidValue, 0⟩
      else if format &&& 0xF000 != 0xA000 then .error ⟨.invalidValue, 1⟩
      else if (format &&& 0x07FF).toNat < minFrameLen then .error ⟨.invalidLength, 1⟩
      else .ok format := by
  obtain ⟨_, r₁, hr₁, rfl, hadv₁⟩ := Takes.u8 a (Reader.new (a :: b :: c :: rest)) (b :: c :: rest) rfl
  have hrest₁ : r₁.rest = [b, c] ++ rest := by
    rw [hadv₁.rest]
    rfl
  obtain ⟨_, r₂, hr₂, rfl, hadv₂⟩ := Takes.take [b, c] r₁ rest hrest₁
  have hread : Read.u16 r₁ = (.ok (UInt16.ofNat (beNat [b, c])), r₂) := Prog.bind_run_ok hr₂
  have ho₁ : r₁.offset = 1 := hadv₁.offset
  have ho₂ : r₂.offset = 3 := by
    rw [hadv₂.offset, ho₁]
    rfl
  rw [decodeFormat, Prog.bind_run_ok hr₁]
  dsimp only
  by_cases ha : (a != flag) = true
  · simp [ha, Read.errBack, ho₁]
  · rw [if_neg ha, if_neg ha, Prog.bind_run_ok hread]
    generalize UInt16.ofNat (beNat [b, c]) = format
    by_cases hk : (format &&& 0xF000 != 0xA000) = true
    · simp [hk, Read.errBack, ho₂]
    · rw [if_neg hk, if_neg hk]
      by_cases hn : (format &&& 0x07FF).toNat < minFrameLen
      · rw [if_pos hn, if_pos hn]
        simp [Read.errBack, ho₂]
      · rw [if_neg hn, if_neg hn]
        rfl

theorem decodeFormat_notFlag {a : UInt8} (h : a ≠ flag) (rest : Bytes) :
    (decodeFormat (Reader.new (a :: rest))).1 = .error ⟨.invalidValue, 0⟩ := by
  obtain ⟨_, r₁, hr₁, rfl, hadv₁⟩ := Takes.u8 a (Reader.new (a :: rest)) rest rfl
  have ho₁ : r₁.offset = 1 := hadv₁.offset
  rw [decodeFormat, Prog.bind_run_ok hr₁]
  simp [h, Read.errBack, ho₁]

/-- Only a format field that is not there yet is waited for. -/
theorem decodeFormat_short (rest : Bytes) (h : rest.length < 2) :
    ∃ n, (decodeFormat (Reader.new (flag :: rest))).1 = .error ⟨.truncated n, 1⟩ := by
  match rest, h with
  | [], _ => exact ⟨2, rfl⟩
  | [b], _ => exact ⟨1, rfl⟩

/-- Nothing behind the format field is looked at. -/
theorem decodeFormat_congr {x y : Bytes} (hlen : 2 ≤ x.length) (h : x.take 2 = y.take 2) :
    (decodeFormat (Reader.new (flag :: x))).1 = (decodeFormat (Reader.new (flag :: y))).1 := by
  match x, y with
  | b :: c :: x, b' :: c' :: y =>
    obtain ⟨rfl, rfl⟩ : b = b' ∧ c = c' := by simpa using h
    rw [decodeFormat_cons, decodeFormat_cons]
  | b :: c :: x, [] | b :: c :: x, [_] => simp at h
  | [], _ | [_], _ => simp at hlen

/-- A format field that is taken. -/
theorem decodeFormat_ok {bytes : Bytes} {format : UInt16}
    (h : (decodeFormat (Reader.new bytes)).1 = .ok format) :
    ∃ b c rest, bytes = flag :: b :: c :: rest ∧ format = UInt16.ofNat (beNat [b, c]) ∧
      format &&& 0xF000 = 0xA000 ∧ minFrameLen ≤ (format &&& 0x07FF).toNat := by
  match bytes with
  | [] => cases h
  | a :: rest =>
    by_cases ha : a = flag
    · subst ha
      by_cases hshort : rest.length < 2
      · obtain ⟨n, hn⟩ := decodeFormat_short _ hshort
        rw [hn] at h
        cases h
      · match rest, hshort with
        | b :: c :: rest, _ =>
          rw [decodeFormat_cons] at h
          simp only [bne_self_eq_false, Bool.false_eq_true, if_false] at h
          split at h
          · cases h
          · rename_i hkind
            split at h
            · cases h
            · rename_i hlen
              obtain rfl := Except.ok.inj h
              exact ⟨b, c, rest, rfl, rfl, by simpa using hkind, Nat.not_lt.mp hlen⟩
    · rw [decodeFormat_notFlag ha] at h
      cases h

/-- The rest of `decodeFrame`, once the whole frame is there. -/
def decodeWhole (format : UInt16) (frame : Bytes) : Result (Frame × Nat) := do
  let segmented := format &&& 0x0800 != 0
  let total := 1 + (format &&& 0x07FF).toNat + 1
  let (destination, source, control, headerEnd) ← (decodeHeader (Reader.new frame)).1
  let fcsAt := total - 3
  if fcsAt < headerEnd then .error ⟨.invalidLength, headerEnd⟩
  else if leAt frame fcsAt != fcs16 (slice frame 1 fcsAt) then .error ⟨.badChecksum, fcsAt⟩
  else if headerEnd == fcsAt then .ok (⟨segmented, destination, source, control, []⟩, total)
  else if fcsAt < headerEnd + 2 then .error ⟨.invalidLength, headerEnd⟩
  else if leAt frame headerEnd != fcs16 (slice frame 1 headerEnd) then
    .error ⟨.badChecksum, headerEnd⟩
  else .ok (⟨segmented, destination, source, control, slice frame (headerEnd + 2) fcsAt⟩, total)

/-- Behind the format field nothing is looked at before the whole frame is there. -/
theorem decodeFrame_of_format {bytes : Bytes} {format : UInt16}
    (h : (decodeFormat (Reader.new bytes)).1 = .ok format) : decodeFrame bytes =
      let total := 1 + (format &&& 0x07FF).toNat + 1
      if bytes.length < total then .error ⟨.truncated (total - bytes.length), bytes.length⟩
      else if bytes.getD (total - 1) 0 != flag then .error ⟨.invalidValue, total - 1⟩
      else decodeWhole format (slice bytes 0 total) := by
  rw [decodeFrame, h]
  rfl

theorem decodeFrame_of_error {bytes : Bytes} {e : Error}
    (h : (decodeFormat (Reader.new bytes)).1 = .error e) : decodeFrame bytes = .error e := by
  rw [decodeFrame, h]
  rfl

/-! ## Addresses -/

namespace Address

/-- The last byte of an address has its low bit set. -/
def ends (b : UInt8) : Bool := b &&& 1 != 0

theorem decodeParts_more (left : Nat) (parts : List UInt8) {r : Reader} {b : UInt8} {bs : Bytes}
    (h : r.rest = b :: bs) (hb : ends b = false) : ∃ r', r'.rest = bs ∧ r.Advanced 1 r' ∧
      decodeParts (left + 1) parts r = decodeParts left (parts ++ [b >>> 1]) r' := by
  obtain ⟨_, r', hr', rfl, hadv⟩ := Takes.u8 b r bs h
  refine ⟨r', by rw [hadv.rest, h]; rfl, hadv, ?_⟩
  rw [decodeParts, Prog.bind_run_ok hr']
  exact congrFun (if_neg (by rw [ends] at hb; simp [hb])) r'

theorem decodeParts_end (left : Nat) (parts : List UInt8) {r : Reader} {b : UInt8} {bs : Bytes}
    (h : r.rest = b :: bs) (hb : ends b = true) : ∃ r', r'.rest = bs ∧ r.Advanced 1 r' ∧
      decodeParts (left + 1) parts r = (.ok (parts ++ [b >>> 1]), r') := by
  obtain ⟨_, r', hr', rfl, hadv⟩ := Takes.u8 b r bs h
  refine ⟨r', by rw [hadv.rest, h]; rfl, hadv, ?_⟩
  rw [decodeParts, Prog.bind_run_ok hr']
  exact congrFun (if_pos hb) r'

/-- No byte is left to read. -/
theorem decodeParts_nil {left : Nat} {parts : List UInt8} {r : Reader} (h : r.rest = []) :
    decodeParts (left + 1) parts r = (.error ⟨.truncated 1, r.offset⟩, r) := by
  have hlen := r.length_rest
  rw [h, List.length_nil, Reader.remaining] at hlen
  have hread : Read.u8 r = (.error ⟨.truncated 1, r.offset⟩, r) := dif_neg (by omega)
  rw [decodeParts, Prog.bind_run_error hread]

/-- An address that is read: its bytes up to the one that ends it. -/
theorem decodeParts_ok {left : Nat} {parts ps : List UInt8} {r r' : Reader}
    (h : decodeParts left parts r = (.ok ps, r')) : ∃ bs b tail, r.rest = bs ++ b :: tail ∧
      (∀ x ∈ bs, ends x = false) ∧ ends b = true ∧ bs.length < left ∧
      ps.length = parts.length + bs.length + 1 ∧ r.Advanced (bs.length + 1) r' := by
  induction left generalizing parts r with
  | zero => cases h
  | succ left ih =>
    match hrest : r.rest with
    | [] =>
      rw [decodeParts_nil hrest] at h
      cases h
    | b :: tail =>
      cases hb : ends b with
      | true =>
        obtain ⟨r₁, -, hadv, hrun⟩ := decodeParts_end left parts hrest hb
        rw [hrun] at h
        obtain ⟨hps, rfl⟩ := Prod.mk.inj h
        obtain rfl := Except.ok.inj hps
        exact ⟨[], b, tail, rfl, nofun, hb, Nat.succ_pos _, by simp, hadv⟩
      | false =>
        obtain ⟨r₁, hrest₁, hadv, hrun⟩ := decodeParts_more left parts hrest hb
        rw [hrun] at h
        obtain ⟨bs, c, tail', hbs, heven, hc, hlt, hlen, hadv'⟩ := ih h
        refine ⟨b :: bs, c, tail', by rw [← hrest₁, hbs]; rfl, ?_, hc, Nat.succ_lt_succ hlt, ?_, ?_⟩
        · intro x hx
          obtain rfl | hx := List.mem_cons.mp hx
          · exact hb
          · exact heven x hx
        · rw [hlen]
          simp
          omega
        · have hall := hadv.trans hadv'
          rwa [Nat.add_comm 1] at hall

/-- An address is waited for where the bytes end in front of the one that ends it, and only there. -/
theorem decodeParts_short {left : Nat} {parts : List UInt8} {r r' : Reader} {n o : Nat}
    (h : decodeParts left parts r = (.error ⟨.truncated n, o⟩, r')) :
    r.rest.length < left ∧ ∀ x ∈ r.rest, ends x = false := by
  induction left generalizing parts r with
  | zero => cases h
  | succ left ih =>
    match hrest : r.rest with
    | [] => exact ⟨Nat.succ_pos _, nofun⟩
    | b :: tail =>
      cases hb : ends b with
      | true =>
        obtain ⟨r₁, -, -, hrun⟩ := decodeParts_end left parts hrest hb
        rw [hrun] at h
        cases h
      | false =>
        obtain ⟨r₁, hrest₁, -, hrun⟩ := decodeParts_more left parts hrest hb
        rw [hrun] at h
        obtain ⟨hlt, heven⟩ := ih h
        rw [hrest₁] at hlt heven
        refine ⟨Nat.succ_lt_succ hlt, fun x hx => ?_⟩
        obtain rfl | hx := List.mem_cons.mp hx
        · exact hb
        · exact heven x hx

/-- An address takes as many bytes as it has. -/
theorem decode_ok {r r' : Reader} {a : Address} (h : decode r = (.ok a, r')) :
    ∃ bs b tail, r.rest = bs ++ b :: tail ∧ (∀ x ∈ bs, ends x = false) ∧ ends b = true ∧
      a.len = bs.length + 1 ∧ r.Advanced a.len r' := by
  obtain ⟨ps, r₁, hparts, hof⟩ := Prog.bind_ok h
  obtain ⟨bs, b, tail, hrest, heven, hb, -, hlen, hadv⟩ := decodeParts_ok hparts
  have hof' : a.len = ps.length ∧ r₁ = r' := by
    match ps with
    | [_] | [_, _] | [_, _, _, _] =>
      obtain ⟨ha, rfl⟩ := Prod.mk.inj hof
      obtain rfl := Except.ok.inj ha
      exact ⟨rfl, rfl⟩
    | [] | [_, _, _] | _ :: _ :: _ :: _ :: _ :: _ => cases hof
  obtain ⟨ha, rfl⟩ := hof'
  rw [List.length_nil, Nat.zero_add] at hlen
  exact ⟨bs, b, tail, hrest, heven, hb, ha.trans hlen, by rw [ha, hlen]; exact hadv⟩

theorem decodeParts_even (left : Nat) (parts : List UInt8) {r : Reader} (hlen : r.rest.length < left)
    (heven : ∀ x ∈ r.rest, ends x = false) :
    ∃ o r', decodeParts left parts r = (.error ⟨.truncated 1, o⟩, r') := by
  induction left generalizing parts r with
  | zero => exact absurd hlen (Nat.not_lt_zero _)
  | succ left ih =>
    match hrest : r.rest with
    | [] => exact ⟨_, _, decodeParts_nil hrest⟩
    | b :: tail =>
      rw [hrest] at hlen heven
      obtain ⟨r₁, hrest₁, -, hrun⟩ := decodeParts_more left parts hrest
        (heven b (List.mem_cons_self ..))
      rw [hrun]
      rw [← hrest₁] at hlen heven
      exact ih _ (Nat.lt_of_succ_lt_succ hlen) fun x hx => heven x (List.mem_cons_of_mem _ hx)

theorem decode_short {r r' : Reader} {n o : Nat} (h : decode r = (.error ⟨.truncated n, o⟩, r')) :
    r.rest.length < 4 ∧ ∀ x ∈ r.rest, ends x = false := by
  rw [decode, Prog.bind_run] at h
  match hparts : decodeParts 4 [] r with
  | (.error e, r₁) =>
    rw [hparts] at h
    obtain ⟨he, -⟩ := Prod.mk.inj h
    obtain rfl := Except.error.inj he
    exact decodeParts_short hparts
  | (.ok ps, r₁) =>
    rw [hparts] at h
    match ps with
    | [_] | [_, _] | [_, _, _, _] | [] | [_, _, _] | _ :: _ :: _ :: _ :: _ :: _ => cases h

end Address
/-! ## Frames -/

theorem decodeFormat_append {a : Bytes} (h : 3 ≤ a.length) (b : Bytes) :
    (decodeFormat (Reader.new (a ++ b))).1 = (decodeFormat (Reader.new a)).1 := by
  match a with
  | x :: y :: z :: rest =>
    rw [List.cons_append, List.cons_append, List.cons_append, decodeFormat_cons, decodeFormat_cons]
  | [] | [_] | [_, _] => simp at h

/-- Fewer bytes than a format field takes are waited for behind a flag, and refused behind anything
else. -/
theorem decodeFrame_short {a : Bytes} (h : a.length < 3) :
    (∃ e, decodeFrame a = .error e ∧ e.isTruncated = true) ∨
      ∃ x rest, a = x :: rest ∧ x ≠ flag ∧ decodeFrame a = .error ⟨.invalidValue, 0⟩ := by
  match a with
  | [] => exact .inl ⟨_, rfl, rfl⟩
  | x :: rest =>
    by_cases hx : x = flag
    · subst hx
      obtain ⟨n, hn⟩ := decodeFormat_short rest (Nat.lt_of_succ_lt_succ h)
      exact .inl ⟨_, decodeFrame_of_error hn, rfl⟩
    · exact .inr ⟨x, rest, rfl, hx, decodeFrame_of_error (decodeFormat_notFlag hx rest)⟩

theorem slice_append_left {a : Bytes} {n : Nat} (h : n ≤ a.length) (b : Bytes) :
    slice (a ++ b) 0 n = slice a 0 n := by
  rw [slice, slice, List.take_append_of_le_length h]

/-- What is decided on some bytes is decided whatever follows them. -/
theorem decodeFrame_append {a : Bytes} {r : Result (Frame × Nat)} (h : decodeFrame a = r)
    (hr : ∀ e, r = .error e → e.isTruncated = false) (b : Bytes) : decodeFrame (a ++ b) = r := by
  by_cases hshort : a.length < 3
  · obtain ⟨e, he, ht⟩ | ⟨x, rest, rfl, hx, hrun⟩ := decodeFrame_short hshort
    · rw [hr e (h.symm.trans he)] at ht
      cases ht
    · rw [← h, hrun]
      exact decodeFrame_of_error (decodeFormat_notFlag hx (rest ++ b))
  have hformat := decodeFormat_append (Nat.not_lt.mp hshort) b
  match ha : (decodeFormat (Reader.new a)).1 with
  | .error e =>
    rw [ha] at hformat
    rw [← h, decodeFrame_of_error ha, decodeFrame_of_error hformat]
  | .ok format =>
    rw [ha] at hformat
    rw [decodeFrame_of_format ha] at h
    rw [decodeFrame_of_format hformat]
    obtain ⟨_, _, _, _, _, _, hmin⟩ := decodeFormat_ok ha
    generalize (format &&& 0x07FF).toNat = n at *
    dsimp only at h ⊢
    by_cases hlen : a.length < 1 + n + 1
    · rw [if_pos hlen] at h
      cases hr _ h.symm
    · rw [if_neg hlen] at h
      have hget : (a ++ b).getD (1 + n + 1 - 1) 0 = a.getD (1 + n + 1 - 1) 0 := by
        rw [List.getD_eq_getElem?_getD, List.getElem?_append_left (by omega), List.getD_eq_getElem?_getD]
      rw [if_neg (by rw [List.length_append]; omega), hget, slice_append_left (by omega)]
      exact h

/-- Where the addresses and the control byte end. -/
theorem decodeHeader_ok {bytes : Bytes} {destination source : Address} {control : Control} {stop : Nat}
    (h : (decodeHeader (Reader.new bytes)).1 = .ok (destination, source, control, stop)) :
    stop = 3 + destination.len + source.len + 1 := by
  obtain ⟨_, r₁, h₁, h⟩ := Prog.bind_fst_ok h
  obtain ⟨d, r₂, h₂, h⟩ := Prog.bind_fst_ok h
  obtain ⟨s, r₃, h₃, h⟩ := Prog.bind_fst_ok h
  obtain ⟨c, r₄, h₄, h⟩ := Prog.bind_fst_ok h
  obtain ⟨rfl, rfl, -, rfl⟩ : d = destination ∧ s = source ∧ Control.fromU8 c = control ∧
      r₄.offset = stop := by simpa [Read.offset] using h
  obtain ⟨_, _, htake, hunit⟩ := Prog.bind_ok h₁
  obtain rfl := (Prod.mk.inj hunit).2
  obtain ⟨-, -, hadv₁⟩ := Read.take_ok htake
  obtain ⟨-, -, -, -, -, -, -, hadv₂⟩ := Address.decode_ok h₂
  obtain ⟨-, -, -, -, -, -, -, hadv₃⟩ := Address.decode_ok h₃
  obtain ⟨-, hadv₄⟩ := Read.u8_ok h₄
  rw [hadv₄.offset, hadv₃.offset, hadv₂.offset, hadv₁.offset]
  simp [Reader.new]

/-- A frame that is found fits in the bytes that it uses. -/
theorem decodeFrame_used {bytes : Bytes} {f : Frame} {used : Nat}
    (h : decodeFrame bytes = .ok (f, used)) : f.encodedLen ≤ used ∧ used ≤ bytes.length := by
  match hformat : (decodeFormat (Reader.new bytes)).1 with
  | .error e =>
    rw [decodeFrame_of_error hformat] at h
    cases h
  | .ok format =>
    rw [decodeFrame_of_format hformat] at h
    dsimp only at h
    split at h
    · cases h
    rename_i hlen
    split at h
    · cases h
    unfold decodeWhole at h
    obtain ⟨⟨destination, source, control, stop⟩, hheader, h⟩ := Result.bind_ok.mp h
    have hstop := decodeHeader_ok hheader
    generalize (format &&& 0x07FF).toNat = n at *
    have hsize : (slice bytes 0 (1 + n + 1)).length = 1 + n + 1 := by
      rw [slice, List.drop_zero, List.length_take]
      omega
    dsimp only at h
    split at h
    · cases h
    split at h
    · cases h
    split at h
    · rename_i hcut _ hnone
      obtain ⟨rfl, rfl⟩ := Prod.mk.inj (Except.ok.inj h)
      rw [beq_iff_eq] at hnone
      refine ⟨?_, by omega⟩
      simp only [Frame.encodedLen, List.isEmpty_nil, if_true]
      omega
    · split at h
      · cases h
      split at h
      · cases h
      rename_i hcut _ _ hhcs _
      obtain ⟨rfl, rfl⟩ := Prod.mk.inj (Except.ok.inj h)
      refine ⟨?_, by omega⟩
      have hinfo : (slice (slice bytes 0 (1 + n + 1)) (stop + 2) (1 + n + 1 - 3)).length =
          1 + n + 1 - 3 - (stop + 2) := by
        rw [slice, List.length_drop, List.length_take, hsize]
        omega
      simp only [Frame.encodedLen, hinfo]
      split <;> omega

/-! ## What goes out -/

namespace Address

/-- The address that goes out: the bits that its bytes have room for. -/
def wire : Address → Address
  | single v => single (v &&& 0x7F)
  | double upper lower => double (upper &&& 0x7F) (lower &&& 0x7F)
  | quad upper lower => quad (upper &&& 0x3FFF) (lower &&& 0x3FFF)

@[simp] theorem wire_len (a : Address) : a.wire.len = a.len := by
  cases a <;> rfl

theorem low_bits (v : UInt8) : v &&& 0x7F < 0x80 ∧ (v &&& 0x7F) <<< 1 = v <<< 1 := by
  have hall : ∀ n : Fin 256, UInt8.ofNat n &&& 0x7F < 0x80 ∧
      (UInt8.ofNat n &&& 0x7F) <<< 1 = UInt8.ofNat n <<< 1 := by decide +kernel
  have hv := hall ⟨v.toNat, v.toNat_lt⟩
  rwa [UInt8.ofNat_toNat] at hv

theorem low_bits_quad (v : UInt16) : v &&& 0x3FFF < 0x4000 ∧
    ((v &&& 0x3FFF) >>> 7).toUInt8 <<< 1 = (v >>> 7).toUInt8 <<< 1 ∧
    (v &&& 0x3FFF) &&& 0x7F = v &&& 0x7F := by
  have hlow : (v &&& 0x3FFF).toNat = v.toNat % 16384 := Nat.and_two_pow_sub_one_eq_mod v.toNat 14
  refine ⟨UInt16.lt_iff_toNat_lt.mpr ?_, UInt8.toNat_inj.mp ?_, ?_⟩
  · rw [hlow]
    exact Nat.mod_lt _ (by decide)
  · simp [hlow, Nat.shiftRight_eq_div_pow, Nat.shiftLeft_eq]
    omega
  · rw [UInt16.and_assoc]
    rfl

theorem wire_fits (a : Address) : a.wire.Fits := by
  cases a with
  | single v => exact (low_bits v).1
  | double upper lower => exact ⟨(low_bits upper).1, (low_bits lower).1⟩
  | quad upper lower => exact ⟨(low_bits_quad upper).1, (low_bits_quad lower).1⟩

@[simp] theorem wire_encode (a : Address) : a.wire.encode = a.encode := by
  cases a with
  | single v => simp only [wire, encode, (low_bits v).2]
  | double upper lower => simp only [wire, encode, (low_bits upper).2, (low_bits lower).2]
  | quad upper lower =>
    simp only [wire, encode, (low_bits_quad upper).2.1, (low_bits_quad upper).2.2,
      (low_bits_quad lower).2.1, (low_bits_quad lower).2.2]

theorem wire_of_fits {a : Address} (h : a.Fits) : a.wire = a := by
  have hsmall : ∀ n : Fin 128, UInt8.ofNat n &&& 0x7F = UInt8.ofNat n := by decide +kernel
  have hbyte : ∀ {v : UInt8}, v < 0x80 → v &&& 0x7F = v := by
    intro v hv
    have h := hsmall ⟨v.toNat, UInt8.lt_iff_toNat_lt.mp hv⟩
    rwa [UInt8.ofNat_toNat] at h
  have hquad : ∀ {v : UInt16}, v < 0x4000 → v &&& 0x3FFF = v := by
    intro v hv
    have hlow : (v &&& 0x3FFF).toNat = v.toNat % 16384 := Nat.and_two_pow_sub_one_eq_mod v.toNat 14
    have hlt : v.toNat < 16384 := UInt16.lt_iff_toNat_lt.mp hv
    exact UInt16.toNat_inj.mp (hlow.trans (Nat.mod_eq_of_lt hlt))
  cases a with
  | single v => rw [wire, hbyte h]
  | double upper lower => rw [wire, hbyte h.1, hbyte h.2]
  | quad upper lower => rw [wire, hquad h.1, hquad h.2]

end Address

namespace Control

/-- The control field that goes out. -/
def wire : Control → Control
  | i ns nr pf => i (ns &&& 7) (nr &&& 7) pf
  | rr nr pf => rr (nr &&& 7) pf
  | rnr nr pf => rnr (nr &&& 7) pf
  | c => c

theorem low_bits (v : UInt8) : v &&& 7 < 8 ∧ (v &&& 7) &&& 7 = v &&& 7 := by
  have hlow : (v &&& 7).toNat = v.toNat % 8 := Nat.and_two_pow_sub_one_eq_mod v.toNat 3
  refine ⟨UInt8.lt_iff_toNat_lt.mpr ?_, ?_⟩
  · rw [hlow]
    exact Nat.mod_lt _ (by decide)
  · rw [UInt8.and_assoc]
    rfl

theorem wire_fits (c : Control) : c.wire.Fits := by
  cases c with
  | i ns nr pf => exact ⟨(low_bits ns).1, (low_bits nr).1⟩
  | rr nr pf | rnr nr pf => exact (low_bits nr).1
  | snrm | ua | disc | dm | frmr | ui => trivial

@[simp] theorem wire_asU8 (c : Control) : c.wire.asU8 = c.asU8 := by
  cases c with
  | i ns nr pf => simp only [wire, asU8, (low_bits ns).2, (low_bits nr).2]
  | rr nr pf | rnr nr pf => simp only [wire, asU8, (low_bits nr).2]
  | snrm | ua | disc | dm | frmr | ui => rfl

theorem wire_of_fits {c : Control} (h : c.Fits) : c.wire = c := by
  have hlow : ∀ {v : UInt8}, v < 8 → v &&& 7 = v := by
    intro v hv
    have hmod : (v &&& 7).toNat = v.toNat % 8 := Nat.and_two_pow_sub_one_eq_mod v.toNat 3
    exact UInt8.toNat_inj.mp (hmod.trans (Nat.mod_eq_of_lt (UInt8.lt_iff_toNat_lt.mp hv)))
  cases c with
  | i ns nr pf => rw [wire, hlow h.1, hlow h.2]
  | rr nr pf | rnr nr pf => rw [wire, hlow h]
  | snrm | ua | disc | dm | frmr | ui => rfl

end Control

namespace Frame

/-- The frame that goes out. -/
def wire (f : Frame) : Frame :=
  { f with destination := f.destination.wire, source := f.source.wire, control := f.control.wire }

theorem wire_frameLen (f : Frame) : f.wire.frameLen = f.frameLen := by
  simp [wire, frameLen]

theorem wire_encodedLen (f : Frame) : f.wire.encodedLen = f.encodedLen := by
  simp [wire, encodedLen]

theorem wire_encode (f : Frame) : f.wire.encode = f.encode := by
  have hheader : f.wire.header = f.header := by
    rw [header, header, format, format, wire_frameLen]
    simp [wire]
  rw [encode, encode, wire_frameLen, hheader]
  rfl

/-- What is written of a frame that is not too long is read back as the frame that goes out. -/
theorem decodeFrame_wire {f : Frame} (h : f.frameLen ≤ 0x7FF) (rest : Bytes) :
    decodeFrame (f.encode.data ++ rest) = .ok (f.wire, f.encode.data.length) := by
  rw [← f.wire_encode]
  exact f.wire.decodeFrame_encode (by rwa [wire_frameLen]) f.destination.wire_fits
    f.source.wire_fits f.control.wire_fits rest

theorem length_encode_data {f : Frame} (h : f.frameLen ≤ 0x7FF) :
    f.encode.data.length = f.encodedLen := by
  have hchecked := f.length_checked
  rw [(encode_data h).2, f.encodedLen_eq]
  simp only [List.length_cons, List.length_append, length_leBytes, List.length_nil]
  omega

theorem frameLen_le (f : Frame) :
    f.frameLen ≤ f.destination.len + f.source.len + f.information.length + 7 := by
  unfold frameLen
  dsimp only
  split <;> omega

theorem frameLen_nonempty {f : Frame} (h : f.information ≠ []) :
    f.frameLen = f.destination.len + f.source.len + f.information.length + 7 := by
  unfold frameLen
  rw [if_neg (by rwa [List.isEmpty_iff])]
  dsimp only
  omega

/-- A frame is written where it is not too long and there is room. -/
theorem encodeInto_iff {f : Frame} {out bytes : Bytes} :
    SliceWriter.encodeInto f.encode out = .ok bytes ↔
      f.frameLen ≤ 0x7FF ∧ f.encodedLen ≤ out.length ∧ bytes = f.encode.data := by
  constructor
  · intro h
    obtain ⟨hfault, hbytes, hroom⟩ := SliceWriter.encodeInto_ok h
    have hlen : f.frameLen ≤ 0x7FF := by
      by_contra hlong
      rw [encode, if_pos (Nat.not_le.mp hlong)] at hfault
      cases hfault
    rw [Emit.size, length_encode_data hlen] at hroom
    exact ⟨hlen, hroom, hbytes⟩
  · rintro ⟨hlen, hroom, rfl⟩
    exact SliceWriter.encodeInto_fits (encode_data hlen).1
      (by rwa [Emit.size, length_encode_data hlen])

/-- A frame that was written is read as the frame that goes out. -/
theorem read_written {f g : Frame} {out bytes : Bytes} {used : Nat}
    (hwrite : SliceWriter.encodeInto f.encode out = .ok bytes) (hread : decodeFrame bytes = .ok (g, used)) :
    g = f.wire := by
  obtain ⟨hlen, -, rfl⟩ := encodeInto_iff.mp hwrite
  have hwire := decodeFrame_wire hlen []
  rw [List.append_nil, hread] at hwire
  exact (Prod.mk.inj (Except.ok.inj hwire)).1

/-- A frame that fits is written and read. -/
theorem written_read (f : Frame) (out : Bytes) (hlen : f.frameLen ≤ 0x7FF)
    (hroom : f.frameLen + 2 ≤ out.length) : SliceWriter.encodeInto f.encode out = .ok f.encode.data ∧
      decodeFrame f.encode.data = .ok (f.wire, f.encode.data.length) := by
  have hwire := decodeFrame_wire hlen []
  rw [List.append_nil] at hwire
  exact ⟨encodeInto_iff.mpr ⟨hlen, by rw [encodedLen_eq]; exact hroom, rfl⟩, hwire⟩

/-- A part of a frame, its opening flag at least, is waited for. -/
theorem decodeFrame_take {f : Frame} (h : f.frameLen ≤ 0x7FF) {k : Nat} (hk : k < f.encodedLen) :
    ∃ e, decodeFrame (f.encode.data.take k) = .error e ∧ e.isTruncated = true := by
  have hdata := (encode_data h).2
  have hsize := length_encode_data h
  obtain ⟨more, hmore⟩ := f.checked_header
  have hbytes : f.encode.data = flag :: (f.header.data ++ (more ++ (leBytes (fcs16 f.checked) ++ [flag]))) := by
    rw [hdata, hmore, List.append_assoc]
  have hlength : (f.encode.data.take k).length = k := by
    rw [List.length_take, hsize]
    omega
  by_cases hshort : k < 3
  · obtain hwait | ⟨x, rest, hcons, hx, -⟩ := decodeFrame_short (hlength.trans_lt hshort)
    · exact hwait
    · rw [hbytes] at hcons
      match k, hcons with
      | k + 1, hcons =>
        rw [List.take_succ_cons, List.cons.injEq] at hcons
        exact absurd hcons.1.symm hx
  · have hformat : (decodeFormat (Reader.new (f.encode.data.take k))).1 = .ok f.format := by
      have hwhole : (decodeFormat (Reader.new f.encode.data)).1 = .ok f.format := by
        rw [hbytes]
        exact decodeFormat_run h _
      rw [← hwhole]
      conv => rhs; rw [← List.take_append_drop k f.encode.data]
      exact (decodeFormat_append (by omega) _).symm
    have hlen : (f.encode.data.take k).length < 1 + (f.format &&& 0x07FF).toNat + 1 := by
      rw [(format_read h).2.2, hlength]
      have := f.encodedLen_eq
      omega
    have hrun := decodeFrame_of_format hformat
    dsimp only at hrun
    rw [if_pos hlen] at hrun
    exact ⟨_, hrun, rfl⟩

end Frame

end Dlms.Hdlc
