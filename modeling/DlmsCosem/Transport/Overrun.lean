import DlmsCosem.Transport.Framer

/-!
# What a waiting caller keeps

A candidate is waited for while bytes of it are missing, so at most the largest frame is kept of it. But
the addresses are read out of the frame itself, and where they run past its end this is the same error:
a frame that is all there is waited for as well (`Overruns`), and for ever. What a caller keeps is bounded
exactly where no such frame is in front of the last 2048 bytes (`Framer.incomplete_bounded_iff`).
-/

namespace Dlms.Hdlc

/-- A frame of seven or eight bytes between its flags whose destination takes four of them and whose
source does not end in front of the closing flag. -/
def Overruns (bytes : Bytes) : Prop :=
  ∃ kind n destination source rest, bytes = flag :: kind :: n :: (destination ++ (source ++ flag :: rest)) ∧
    (kind = 0xA0 ∨ kind = 0xA8) ∧ n.toNat = 6 + source.length ∧
    (source.length = 1 ∨ source.length = 2) ∧ destination.map Address.ends = [false, false, false, true] ∧
    ∀ x ∈ source, Address.ends x = false

/-! ## The header -/

/-- An address ends in front of the closing flag. -/
theorem Address.decode_front {r r' : Reader} {a : Address} {body : Bytes} (hrest : r.rest = body ++ [flag])
    (h : Address.decode r = (.ok a, r')) : ∃ bs b behind, body = bs ++ b :: behind ∧
      (∀ x ∈ bs, ends x = false) ∧ ends b = true ∧ bs.length + 1 = a.len ∧ r'.rest = behind ++ [flag] := by
  obtain ⟨bs, b, tail, hsplit, heven, hb, hlen, hadv⟩ := decode_ok h
  have hrest' : r'.rest = tail := by
    rw [hadv.rest, hsplit, hlen, List.append_cons, List.drop_left']
    simp
  rw [hrest] at hsplit
  cases tail using List.reverseRecOn with
  | nil =>
    obtain ⟨-, hlast⟩ := List.append_inj' hsplit rfl
    rw [← List.singleton_inj.mp hlast] at hb
    exact absurd hb (by decide)
  | append_singleton behind c =>
    rw [← List.cons_append, ← List.append_assoc] at hsplit
    obtain ⟨hbody, hlast⟩ := List.append_inj' hsplit rfl
    exact ⟨bs, b, behind, hbody, heven, hb, hlen.symm, by rw [hrest', ← hlast]⟩

theorem decodeHeader_skip (a b c : UInt8) (bytes : Bytes) : ∃ r, r.rest = bytes ∧
    Read.skip 3 (Reader.new (a :: b :: c :: bytes)) = (.ok (), r) := by
  obtain ⟨_, r, hr, rfl, hadv⟩ := Takes.take [a, b, c] (Reader.new (a :: b :: c :: bytes)) bytes rfl
  exact ⟨r, hadv.rest, Prog.bind_run_ok hr⟩

/-- A header is read short where its source does not end. -/
theorem decodeHeader_short {a b c : UInt8} {body : Bytes} {k o : Nat} (hlen : 5 ≤ body.length)
    (h : (decodeHeader (Reader.new (a :: b :: c :: (body ++ [flag])))).1 = .error ⟨.truncated k, o⟩) :
    ∃ destination source, body = destination ++ source ∧ (source.length = 1 ∨ source.length = 2) ∧
      destination.map Address.ends = [false, false, false, true] ∧
      ∀ x ∈ source, Address.ends x = false := by
  obtain ⟨r₁, hrest₁, h₁⟩ := decodeHeader_skip a b c (body ++ [flag])
  rw [decodeHeader, Prog.bind_run_ok h₁, Prog.bind_run] at h
  rcases hdest : Address.decode r₁ with ⟨e | destination, r₂⟩
  · rw [hdest] at h
    obtain rfl := Except.error.inj h
    have := (Address.decode_short hdest).1
    rw [hrest₁, List.length_append] at this
    omega
  · rw [hdest] at h
    obtain ⟨bs, d, source, rfl, heven, hd, hlen₂, hrest₂⟩ := Address.decode_front hrest₁ hdest
    have hle := destination.len_le
    dsimp only at h
    rw [Prog.bind_run] at h
    rcases hsource : Address.decode r₂ with ⟨e | _, r₃⟩
    · rw [hsource] at h
      obtain rfl := Except.error.inj h
      obtain ⟨hshort, hall⟩ := Address.decode_short hsource
      rw [hrest₂] at hshort hall
      simp only [List.length_append, List.length_cons, List.length_nil] at hshort hlen
      have hfour : bs.length = 3 := by
        have : destination.len ≠ 3 := by
          cases destination <;> simp [Address.len]
        omega
      obtain ⟨x, y, z, rfl⟩ := List.length_eq_three.mp hfour
      refine ⟨[x, y, z, d], source, by simp, by omega, ?_, fun w hw => hall w (List.mem_append_left _ hw)⟩
      simp only [List.map_cons, List.map_nil, heven x (by simp), heven y (by simp), heven z (by simp), hd]
    · -- Behind the source there is a control byte at least, the closing flag.
      obtain ⟨_, _, behind, -, -, -, -, hrest₃⟩ := Address.decode_front hrest₂ hsource
      obtain ⟨x, xs, hcons⟩ : ∃ x xs, behind ++ [flag] = x :: xs := by
        cases behind <;> exact ⟨_, _, rfl⟩
      obtain ⟨_, r₄, h₄, -, -⟩ := Takes.u8 x r₃ xs (hrest₃.trans hcons)
      rw [hsource] at h
      dsimp only at h
      rw [Prog.bind_run_ok h₄] at h
      cases h

/-- Such a header is read short. -/
theorem decodeHeader_overruns {a b c : UInt8} {destination source : Bytes}
    (hdest : destination.map Address.ends = [false, false, false, true]) (hlen : source.length < 3)
    (hsource : ∀ x ∈ source, Address.ends x = false) :
    ∃ o, (decodeHeader (Reader.new (a :: b :: c :: (destination ++ source ++ [flag])))).1 =
      .error ⟨.truncated 1, o⟩ := by
  obtain ⟨r₁, hrest₁, h₁⟩ := decodeHeader_skip a b c (destination ++ source ++ [flag])
  rw [decodeHeader, Prog.bind_run_ok h₁]
  -- The four bytes of the destination: only the last one ends it.
  obtain ⟨x, _, rfl, hx, hdest⟩ := List.map_eq_cons_iff.mp hdest
  obtain ⟨y, _, rfl, hy, hdest⟩ := List.map_eq_cons_iff.mp hdest
  obtain ⟨z, _, rfl, hz, hdest⟩ := List.map_eq_cons_iff.mp hdest
  obtain ⟨d, rfl, hd⟩ := List.map_eq_singleton_iff.mp hdest
  have hbytes : r₁.rest = x :: y :: z :: d :: (source ++ [flag]) := by simpa using hrest₁
  obtain ⟨r₂, hrest₂, -, h₂⟩ := Address.decodeParts_more 3 [] hbytes hx
  obtain ⟨r₃, hrest₃, -, h₃⟩ := Address.decodeParts_more 2 ([] ++ [x >>> 1]) hrest₂ hy
  obtain ⟨r₄, hrest₄, -, h₄⟩ :=
    Address.decodeParts_more 1 ([] ++ [x >>> 1] ++ [y >>> 1]) hrest₃ hz
  obtain ⟨r₅, hrest₅, -, h₅⟩ :=
    Address.decodeParts_end 0 ([] ++ [x >>> 1] ++ [y >>> 1] ++ [z >>> 1]) hrest₄ hd
  have hparts := (h₂.trans h₃).trans (h₄.trans h₅)
  have hdecode : ∃ address, Address.decode r₁ = (.ok address, r₅) :=
    ⟨_, Prog.bind_run_ok hparts⟩
  obtain ⟨address, hdecode⟩ := hdecode
  obtain ⟨o, r₆, h₆⟩ := Address.decodeParts_even 4 [] (r := r₅)
    (by rw [hrest₅, List.length_append, List.length_singleton]; omega) (by
      rw [hrest₅]
      intro w hw
      obtain hw | hw := List.mem_append.mp hw
      · exact hsource w hw
      · rw [List.mem_singleton.mp hw]
        rfl)
  have hfail : Address.decode r₅ = (.error ⟨.truncated 1, o⟩, r₆) := Prog.bind_run_error h₆
  refine ⟨o, ?_⟩
  rw [Prog.bind_run_ok hdecode, Prog.bind_run_error hfail]

/-! ## The wait -/

/-- The format field of a frame of seven or eight bytes. -/
theorem format_bytes {kind n : UInt8} (hkind : UInt16.ofNat (beNat [kind, n]) &&& 0xF000 = 0xA000)
    {len : Nat} (hlen : (UInt16.ofNat (beNat [kind, n]) &&& 0x07FF).toNat = len) (h : len = 7 ∨ len = 8) :
    (kind = 0xA0 ∨ kind = 0xA8) ∧ n.toNat = len := by
  have hall : ∀ k : Fin 256, ∀ i : Fin 2, UInt16.ofNat (k.val * 256 + (7 + i.val)) &&& 0xF000 = 0xA000 →
      k.val % 8 = 0 → UInt8.ofNat k.val = 0xA0 ∨ UInt8.ofNat k.val = 0xA8 := by decide +kernel
  have hbe : beNat [kind, n] = kind.toNat * 256 + n.toNat := by simp [beNat]
  have hk := kind.toNat_lt
  have hn := n.toNat_lt
  rw [hbe] at hkind hlen
  have hlow : (kind.toNat * 256 + n.toNat) % 2048 = len := by
    have hand : (kind.toNat * 256 + n.toNat) &&& 0x07FF = (kind.toNat * 256 + n.toNat) % 2048 :=
      Nat.and_two_pow_sub_one_eq_mod _ 11
    rw [← hand, ← hlen, UInt16.toNat_and, UInt16.toNat_ofNat_of_lt' (by change _ < 65536; omega)]
    rfl
  have hn' : n.toNat = len := by omega
  refine ⟨?_, hn'⟩
  have hk' := hall ⟨kind.toNat, hk⟩ ⟨len - 7, by omega⟩
  have hsum : 7 + (len - 7) = n.toNat := by omega
  simp only [hsum, UInt8.ofNat_toNat] at hk'
  exact hk' hkind (by omega)

theorem decodeHeader_of_whole {format : UInt16} {frame : Bytes} {e : Error}
    (h : decodeWhole format frame = .error e) (ht : e.isTruncated = true) :
    (decodeHeader (Reader.new frame)).1 = .error e := by
  unfold decodeWhole at h
  match hheader : (decodeHeader (Reader.new frame)).1 with
  | .error e' =>
    rw [hheader] at h
    rw [Except.error.inj h]
  | .ok (destination, source, control, stop) =>
    rw [hheader] at h
    dsimp only [bind, Except.bind] at h
    -- Every other error is a refusal.
    split at h
    · cases Except.error.inj h; cases ht
    split at h
    · cases Except.error.inj h; cases ht
    split at h
    · cases h
    split at h
    · cases Except.error.inj h; cases ht
    split at h
    · cases Except.error.inj h; cases ht
    · cases h

/-- Three bytes are enough for the format field: it fails on them for what they say. -/
theorem decodeFormat_whole {bytes : Bytes} {e : Error} (hlen : 3 ≤ bytes.length)
    (h : (decodeFormat (Reader.new bytes)).1 = .error e) : e.isTruncated = false := by
  obtain ⟨x, y, z, rest, rfl⟩ : ∃ x y z rest, bytes = x :: y :: z :: rest := by
    rcases bytes with - | ⟨x, - | ⟨y, - | ⟨z, rest⟩⟩⟩
    · cases hlen
    · simp at hlen
    · simp at hlen
    · exact ⟨x, y, z, rest, rfl⟩
  rw [decodeFormat_cons] at h
  dsimp only at h
  split at h
  · obtain rfl := Except.error.inj h
    rfl
  split at h
  · obtain rfl := Except.error.inj h
    rfl
  split at h
  · obtain rfl := Except.error.inj h
    rfl
  · cases h

/-- Enough bytes for any frame are waited for only where a header overruns. -/
theorem overruns_of_wait {bytes : Bytes} (hlen : 2 + 0x7FF ≤ bytes.length) (h : judge bytes = .wait) :
    Overruns bytes := by
  obtain ⟨e, he, ht⟩ := judge_wait.mp h
  cases hformat : (decodeFormat (Reader.new bytes)).1 with
  | error e' =>
    rw [decodeFrame_of_error hformat] at he
    obtain rfl := Except.error.inj he
    rw [decodeFormat_whole (by omega) hformat] at ht
    cases ht
  | ok format =>
    obtain ⟨kind, n, rest, rfl, hvalue, hkind, hmin⟩ := decodeFormat_ok hformat
    rw [decodeFrame_of_format hformat] at he
    have hbound : (format &&& 0x07FF).toNat ≤ 0x7FF := by
      rw [UInt16.toNat_and]
      exact Nat.and_le_right
    rw [minFrameLen] at hmin
    generalize htotal : (format &&& 0x07FF).toNat = total at *
    simp only [List.length_cons] at hlen
    dsimp only at he
    rw [if_neg (by simp only [List.length_cons]; omega)] at he
    split at he
    · obtain rfl := Except.error.inj he
      cases ht
    rename_i hflag
    rw [bne_iff_ne, ne_eq, not_not] at hflag
    -- The frame, from its opening flag to its closing one.
    obtain ⟨body, behind, hrest, hbody⟩ : ∃ body behind, rest = body ++ flag :: behind ∧
        body.length + 3 = total + 1 := by
      have hlt : total - 2 < rest.length := by omega
      refine ⟨rest.take (total - 2), rest.drop (total - 2 + 1), ?_, ?_⟩
      · have hget : rest[total - 2] = flag := by
          obtain ⟨m, rfl⟩ : ∃ m, total = m + 2 := ⟨total - 2, by omega⟩
          rw [show 1 + (m + 2) + 1 - 1 = m + 1 + 1 + 1 by omega] at hflag
          rw [← hflag, List.getD_cons_succ, List.getD_cons_succ, List.getD_cons_succ,
            List.getD_eq_getElem?_getD, List.getElem?_eq_getElem (by omega)]
          rfl
        rw [← hget, ← List.drop_eq_getElem_cons hlt, List.take_append_drop]
      · rw [List.length_take]
        omega
    have hslice : slice (flag :: kind :: n :: rest) 0 (1 + total + 1) =
        flag :: kind :: n :: (body ++ [flag]) := by
      rw [slice, hrest, List.drop_zero, show 1 + total + 1 = body.length + 1 + 1 + 1 + 1 by omega]
      simp [List.take_append]
    rw [hslice] at he
    have hheader := decodeHeader_of_whole he ht
    obtain ⟨k, o, rfl⟩ := Error.isTruncated_iff.mp ht
    obtain ⟨destination, source, rfl, hsource, hdest, heven⟩ := decodeHeader_short (by omega) hheader
    have hfour : destination.length = 4 := by simpa using congrArg List.length hdest
    rw [List.length_append] at hbody
    rw [hvalue] at hkind htotal
    obtain ⟨hk, hn⟩ := format_bytes hkind htotal (by omega)
    exact ⟨kind, n, destination, source, behind, by rw [hrest, List.append_assoc], hk, by omega,
      hsource, hdest, heven⟩

/-- A frame whose header overruns is waited for. -/
theorem wait_of_overruns {bytes : Bytes} (h : Overruns bytes) : judge bytes = .wait := by
  obtain ⟨kind, n, destination, source, rest, rfl, hkind, hn, hsource, hdest, heven⟩ := h
  have hfour : destination.length = 4 := by simpa using congrArg List.length hdest
  obtain ⟨o, hheader⟩ := decodeHeader_overruns (a := flag) (b := kind) (c := n) hdest (by omega) heven
  generalize hformat : UInt16.ofNat (beNat [kind, n]) = format
  have hfields : format &&& 0xF000 = 0xA000 ∧ (format &&& 0x07FF).toNat = 6 + source.length := by
    have hn' : n = UInt8.ofNat (6 + source.length) := by rw [← hn, UInt8.ofNat_toNat]
    rw [← hformat, hn']
    obtain rfl | rfl := hkind <;> obtain hlen | hlen := hsource <;> rw [hlen] <;> decide
  have hread : (decodeFormat (Reader.new (flag :: kind :: n :: (destination ++ (source ++ flag :: rest))))).1 =
      .ok format := by
    rw [decodeFormat_cons, hformat]
    simp [hfields.1, hfields.2, minFrameLen]
    omega
  refine judge_wait.mpr ⟨⟨.truncated 1, o⟩, ?_, rfl⟩
  rw [decodeFrame_of_format hread, hfields.2]
  have hsplit : flag :: kind :: n :: (destination ++ (source ++ flag :: rest)) =
      (flag :: kind :: n :: (destination ++ source)) ++ flag :: rest := by simp
  have hat : 1 + (6 + source.length) + 1 - 1 = (flag :: kind :: n :: (destination ++ source)).length := by
    simp only [List.length_cons, List.length_append]
    omega
  have hflag : (flag :: kind :: n :: (destination ++ (source ++ flag :: rest))).getD
      (1 + (6 + source.length) + 1 - 1) 0 = flag := by
    rw [hsplit, hat, List.getD_eq_getElem?_getD, List.getElem?_append_right le_rfl, Nat.sub_self]
    rfl
  have hslice : slice (flag :: kind :: n :: (destination ++ (source ++ flag :: rest))) 0
      (1 + (6 + source.length) + 1) = flag :: kind :: n :: (destination ++ source ++ [flag]) := by
    have hall : flag :: kind :: n :: (destination ++ (source ++ flag :: rest)) =
        (flag :: kind :: n :: (destination ++ source ++ [flag])) ++ rest := by simp
    rw [slice, List.drop_zero, hall, List.take_left']
    simp only [List.length_cons, List.length_append, List.length_nil]
    omega
  dsimp only
  rw [if_neg (by simp only [List.length_cons, List.length_append]; omega), hflag, if_neg (by decide), hslice,
    decodeWhole, hheader]
  rfl

namespace Framer

/-- While the finder waits a caller keeps less than the largest frame, exactly where in front of the last
2048 bytes no header overruns its frame. -/
theorem incomplete_bounded_iff {buf : Bytes} {framer framer' : Framer} {discard : Nat}
    (h : nextFrame buf framer = (.ok (.incomplete discard), framer')) :
    buf.length - discard < 2 + 0x7FF ↔
      ∀ at', at' + (2 + 0x7FF) ≤ buf.length → ¬ Overruns (buf.drop at') := by
  have hsearch := nextFrame_iff.mp (congrArg Prod.fst h)
  obtain ⟨k, rfl, hk, hreject, hwait, -⟩ := Framing.search_incomplete hsearch
  rw [Nat.zero_add]
  constructor
  · intro hlt at' hat hover
    have hw := hreject at'
    rw [wait_of_overruns hover] at hw
    by_cases hbefore : at' < k
    · cases hw hbefore
    · omega
  · intro hnone
    by_contra hlong
    have hlen : 2 + 0x7FF ≤ (buf.drop k).length := by
      rw [List.length_drop]
      omega
    exact hnone k (by omega) (overruns_of_wait hlen (hwait (by omega)))

/-- A header that overruns, and as many bytes behind it as make the buffer too long. -/
def overrunning : Bytes :=
  [0x7E, 0xA0, 0x07, 0x00, 0x00, 0x00, 0x01, 0x00, 0x7E] ++ List.replicate 2040 0x55

theorem overrunning_kept : ∃ framer', nextFrame overrunning new = (.ok (.incomplete 0), framer') ∧
    ¬ overrunning.length - 0 < 2 + 0x7FF := by
  refine ⟨⟨0⟩, ?_, ?_⟩
  · decide +kernel
  · decide +kernel

theorem incomplete_bounded_sample :
    nextFrame [0x55, flag, 0xA0, 0x08, 0x03] new = (.ok (.incomplete 1), ⟨1⟩) ∧
      ∀ at', at' + (2 + 0x7FF) ≤ 5 → ¬ Overruns ([0x55, flag, 0xA0, 0x08, 0x03].drop at') := by
  have hrun : nextFrame [0x55, flag, 0xA0, 0x08, 0x03] new = (.ok (.incomplete 1), ⟨1⟩) := by decide
  exact ⟨hrun, (incomplete_bounded_iff hrun).mp (by decide)⟩

end Framer

end Dlms.Hdlc
