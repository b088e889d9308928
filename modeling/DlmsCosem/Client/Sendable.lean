import DlmsCosem.Client.Blocks
import DlmsCosem.Server.Fragments

/-!
# Every block goes out

A transfer is begun with a fragment size that leaves room for the longest header and the longest
protection in what the server receives. So a block of it is never too long for the server. But it is
encoded in the scratch buffer first, which has to hold the header as well, and the fragment size is no
more than bounded by that buffer. So the blocks of a transfer go out exactly where the first one,
as long as the server alone allows it to be, fits the scratch buffer (`BlockTransfer.blocks_sendable`).
-/

namespace Dlms

/-! ## How long a block is -/

namespace BlockTarget

/-- The bytes of a target that are counted beside the fixed header. -/
def extra : BlockTarget → Nat
  | .attribute _ access => (access.map fun a => a.encode.size).getD 0
  | .method _ => 0
  | .attributeList list => list.encode.size

/-- The selector or the list of a target can be encoded. -/
def Encodes : BlockTarget → Prop
  | .attribute _ access => ∀ a ∈ access, a.encode.fault = none
  | .method _ => True
  | .attributeList list => list.encode.fault = none

/-- What stands before the block in the first request: the tag, the choice, the invoke id, and what
the target is. -/
def headSize : BlockTarget → Nat
  | .attribute d access => 1 + 1 + 1 + 9 + 1 + (BlockTarget.attribute d access).extra
  | .method _ => 1 + 1 + 1 + 9
  | .attributeList list => 1 + 1 + 1 + (BlockTarget.attributeList list).extra

/-- How long the first request is, around a fragment of `n` bytes. -/
def firstSize (target : BlockTarget) (n : Nat) : Nat :=
  target.headSize + (1 + 4 + (Emit.lengthSize n + n))

/-- How long a later request is. -/
def laterSize (n : Nat) : Nat := 1 + 1 + 1 + (1 + 4 + (Emit.lengthSize n + n))

/-- The tag of the requests. -/
def tag : BlockTarget → ApduTag
  | .method _ => .actionRequest
  | _ => .setRequest

theorem tag_hasCiphered (target : BlockTarget) : target.tag.HasCiphered := by
  cases target <;> exact ⟨rfl, rfl⟩

/-- The header is no longer than reckoned with. -/
theorem firstSize_le (target : BlockTarget) (n : Nat) :
    target.firstSize n ≤ n + (ClientSession.headerMax + target.extra) := by
  have := Emit.lengthSize_le n
  unfold firstSize ClientSession.headerMax
  cases target <;> simp only [headSize] <;> omega

theorem firstSize_mono (target : BlockTarget) {m n : Nat} (h : m ≤ n) :
    target.firstSize m ≤ target.firstSize n := by
  have := Emit.lengthSize_mono h
  unfold firstSize
  omega

/-- A later request is shorter than a first one. -/
theorem laterSize_le (target : BlockTarget) (n : Nat) : laterSize n ≤ target.firstSize n := by
  unfold laterSize firstSize
  cases target <;> simp only [headSize] <;> omega

theorem lt_firstSize (target : BlockTarget) (n : Nat) : n < target.firstSize n := by
  unfold firstSize
  omega

end BlockTarget

theorem AttributeDescriptor.encode_sized (d : AttributeDescriptor) : d.encode.Sized 9 :=
  ((Emit.Sized.u16 d.classId).append (.bytes d.instanceId.toBytes)).append (.u8 _)

theorem MethodDescriptor.encode_sized (d : MethodDescriptor) : d.encode.Sized 9 :=
  ((Emit.Sized.u16 d.classId).append (.bytes d.instanceId.toBytes)).append (.u8 _)

theorem DataBlockSA.encode_sized {b : DataBlockSA} (h : b.rawData.length < 2 ^ 32) :
    b.encode.Sized (1 + 4 + (Emit.lengthSize b.rawData.length + b.rawData.length)) :=
  ((Emit.Sized.u8 _).append (.u32 _)).append (Emit.lengthPrefixed_sized h)

theorem encodeOptional_sized {access : Option SelectiveAccess} (h : ∀ a ∈ access, a.encode.fault = none) :
    (encodeOptional SelectiveAccess.encode access).Sized
      (1 + (access.map fun a => a.encode.size).getD 0) := by
  cases access with
  | none => exact .u8 _
  | some a => exact (Emit.Sized.u8 1).append ⟨h a rfl, rfl⟩

namespace BlockSender

variable {b : BlockSender}

/-- How long the next request is. -/
def nextSize (b : BlockSender) : Nat :=
  if b.block = 0 then b.target.firstSize b.nextBlock.rawData.length
  else BlockTarget.laterSize b.nextBlock.rawData.length

theorem nextSize_le (b : BlockSender) :
    b.nextSize ≤ b.target.firstSize b.nextBlock.rawData.length := by
  unfold nextSize
  split
  · exact le_rfl
  · exact b.target.laterSize_le _

theorem length_rawData (b : BlockSender) : b.nextBlock.rawData.length = b.stop - b.sent := by
  have hstop : b.stop ≤ b.bytes.length := Nat.min_le_right ..
  unfold nextBlock
  rw [List.length_drop, List.length_take, Nat.min_eq_left hstop]

theorem length_rawData_le (b : BlockSender) : b.nextBlock.rawData.length ≤ b.fragment := by
  rw [length_rawData]
  unfold stop
  omega

/-- The next request, where the target has an encoding. -/
theorem request_sized (i : InvokeId) (ht : b.block = 0 → b.target.Encodes)
    (hlen : b.nextBlock.rawData.length < 2 ^ 32) : (b.request i).Sized b.target.tag b.nextSize := by
  have hb := DataBlockSA.encode_sized hlen
  have hi : i.encode.Sized 1 := .u8 i.val
  unfold request nextSize
  by_cases h0 : b.block = 0
  · have hfirst : (b.block == 0) = true := by rw [h0]; rfl
    have ht := ht h0
    rw [if_pos h0]
    match htarget : b.target with
    | .attribute d access =>
      rw [htarget] at ht
      rw [hfirst]
      have h := (Emit.Sized.u8 ApduTag.setRequest.asU8).append
        (((((Emit.Sized.u8 2).append hi).append d.encode_sized).append (encodeOptional_sized ht)).append hb)
      refine ⟨⟨h.fault, h.size.trans ?_⟩, Emit.head_u8 ..⟩
      simp only [BlockTarget.firstSize, BlockTarget.headSize, BlockTarget.extra]
      omega
    | .method d =>
      rw [hfirst]
      have h := (Emit.Sized.u8 ApduTag.actionRequest.asU8).append
        ((((Emit.Sized.u8 4).append hi).append d.encode_sized).append hb)
      refine ⟨⟨h.fault, h.size.trans ?_⟩, Emit.head_u8 ..⟩
      simp only [BlockTarget.firstSize, BlockTarget.headSize]
      omega
    | .attributeList list =>
      rw [htarget] at ht
      rw [hfirst]
      have hl : list.encode.Sized list.encode.size := ⟨ht, rfl⟩
      have h := (Emit.Sized.u8 ApduTag.setRequest.asU8).append
        ((((Emit.Sized.u8 5).append hi).append hl).append hb)
      refine ⟨⟨h.fault, h.size.trans ?_⟩, Emit.head_u8 ..⟩
      simp only [BlockTarget.firstSize, BlockTarget.headSize, BlockTarget.extra]
      omega
  · have hlater : (b.block == 0) = false := by simpa using h0
    rw [if_neg h0, hlater]
    have hsize (t : ApduTag) (c : UInt8) := (Emit.Sized.u8 t.asU8).append
      (((Emit.Sized.u8 c).append hi).append hb)
    have hsum (n : Nat) : 1 + (1 + 1 + (1 + 4 + (Emit.lengthSize n + n))) = BlockTarget.laterSize n := by
      unfold BlockTarget.laterSize
      omega
    match b.target with
    | .attribute d access | .attributeList list =>
      exact ⟨⟨(hsize .setRequest 3).fault, (hsize .setRequest 3).size.trans (hsum _)⟩, Emit.head_u8 ..⟩
    | .method d =>
      exact ⟨⟨(hsize .actionRequest 6).fault, (hsize .actionRequest 6).size.trans (hsum _)⟩,
        Emit.head_u8 ..⟩

/-- A first request that has an encoding is one for a target that has. -/
theorem encodes_of_request {i : InvokeId} (h0 : b.block = 0) (h : (b.request i).encode.fault = none) :
    b.target.Encodes := by
  have hfirst : (b.block == 0) = true := by rw [h0]; rfl
  unfold request at h
  rw [hfirst] at h
  match htarget : b.target with
  | .method d => trivial
  | .attribute d access =>
    rw [htarget] at h
    intro a ha
    obtain rfl := Option.mem_def.mp ha
    have hbody := (Emit.append_fault_eq_none.mp h).2
    have hhead := (Emit.append_fault_eq_none.mp hbody).1
    have hopt := (Emit.append_fault_eq_none.mp hhead).2
    exact (Emit.append_fault_eq_none.mp hopt).2
  | .attributeList list =>
    rw [htarget] at h
    have hbody := (Emit.append_fault_eq_none.mp h).2
    have hhead := (Emit.append_fault_eq_none.mp hbody).1
    exact (Emit.append_fault_eq_none.mp hhead).2

end BlockSender

/-! ## One request -/

namespace ClientSession

variable {π : Type} {N : Nat} (C : CryptoProvider π)

/-- What protection adds to a request at most. -/
def overhead (s : ClientSession π N) : Nat := if s.config.security.isNone then 0 else protectionMax

/-- The longest fragment that the server receives beside `extra` bytes of header. -/
def payloadRoom (s : ClientSession π N) (extra : Nat) : Nat :=
  s.ceiling.toNat - headerMax - s.overhead - extra

theorem maxFragmentLess_ok {s : ClientSession π N} {extra : Nat} {fragment : { n : Nat // 0 < n }}
    (h : s.maxFragmentLess extra = .ok fragment) : fragment.val = min (s.payloadRoom extra) N := by
  unfold maxFragmentLess at h
  change (if h : 0 < min (s.payloadRoom extra) N then Except.ok (⟨_, h⟩ : { n : Nat // 0 < n })
    else Error.fail .invalidLength 0) = _ at h
  split at h
  · exact (congrArg Subtype.val (Except.ok.inj h)).symm
  · cases h

/-- The keys of a session that protects are there. -/
def Keyed (s : ClientSession π N) : Prop :=
  s.config.security.isNone = false → ∃ key, C.authenticationKey s.protector.provider = some key ∧
    C.Seals s.protector.provider s.protector.policy key

/-- `t` is `s` in all that a request is made under. -/
structure SameTerms (s t : ClientSession π N) : Prop where
  config : t.config = s.config
  protector : t.protector = s.protector
  negotiated : t.negotiated = s.negotiated

namespace SameTerms

variable {C} {s t u : ClientSession π N}

theorem refl (s : ClientSession π N) : s.SameTerms s := ⟨rfl, rfl, rfl⟩

theorem trans (h : s.SameTerms t) (h' : t.SameTerms u) : s.SameTerms u :=
  ⟨h'.config.trans h.config, h'.protector.trans h.protector, h'.negotiated.trans h.negotiated⟩

theorem ceiling (h : s.SameTerms t) : t.ceiling = s.ceiling := by
  unfold ClientSession.ceiling
  rw [h.negotiated, h.config]

theorem overhead (h : s.SameTerms t) : t.overhead = s.overhead := by
  unfold ClientSession.overhead
  rw [h.config]

theorem keyed (h : s.SameTerms t) (hk : s.Keyed C) : t.Keyed C := by
  unfold Keyed
  rw [h.config, h.protector]
  exact hk

end SameTerms

end ClientSession

namespace Cli

variable {π : Type} {N : Nat} (C : CryptoProvider π) {s : ClientSession π N}

/-- How many numbers a request takes. -/
def numbers (s : ClientSession π N) : Nat := if s.config.security.isNone then 0 else 1

/-- What `send` leaves of a session. -/
structure Sent (s t : ClientSession π N) : Prop where
  terms : s.SameTerms t
  state : t.state = s.state
  outstanding : t.outstanding = s.outstanding
  counter : t.invocationCounter.last.toNat = s.invocationCounter.last.toNat + numbers s

/-- A plain APDU goes out where a number is left and there is room for it and its protection. -/
theorem sendPlain_fits {plain : Bytes} {tag : ApduTag} {room : Nat}
    (htag : plain.head?.bind ApduTag.fromU8 = some tag) (hc : tag.HasCiphered) (hk : s.Keyed C)
    (htitle : s.config.security.isNone = false → s.config.systemTitle.isSome = true)
    (hcount : s.config.security.isNone = false → s.invocationCounter.last.toNat < 0xFFFFFFFF)
    (hplain : plain.length < 2 ^ 31) (hroom : plain.length + s.overhead ≤ room) :
    ∃ bytes t, sendPlain C plain room s = (.ok bytes, t) ∧ bytes.length ≤ plain.length + s.overhead ∧
      Sent s t := by
  unfold sendPlain
  rw [Prog.gets_bind_run]
  cases hsec : s.config.security.isNone with
  | true =>
    rw [if_pos rfl, encode_run, SliceWriter.encodeInto_fits rfl (by simp [Emit.size]; omega)]
    refine ⟨plain, s, by rw [Emit.bytes_data], Nat.le_add_right .., .refl s, rfl, rfl, ?_⟩
    rw [numbers, hsec, if_pos rfl, Nat.add_zero]
  | false =>
    have hover : s.overhead = Server.protectionMax := by
      rw [ClientSession.overhead, hsec]
      rfl
    rw [hover] at hroom ⊢
    obtain ⟨title, htitle⟩ := Option.isSome_iff_exists.mp (htitle hsec)
    obtain ⟨key, hkey, hseals⟩ := hk hsec
    have hlast := hcount hsec
    have hneed : need s.config.systemTitle .unexpectedMessage s = (.ok title, s) := by
      rw [htitle]
      rfl
    rw [if_neg Bool.false_ne_true, Prog.bind_run_ok hneed]
    obtain ⟨value, c, hc', hnext⟩ | ⟨e, he, -⟩ := nextCounter_run s
    · obtain ⟨rfl, hvalue⟩ := InvocationCounter.next_ok hc'
      rw [Prog.bind_run_ok hnext]
      simp only [log, Prog.gets_bind_run, Prog.modify_bind_run, Prog.ofExcept_run]
      generalize hctx : (Outgoing.mk _ _ _ _ _ : Outgoing) = ctx
      obtain ⟨out, hout⟩ : ∃ out, protectApdu C s.protector ctx plain room = .ok out := by
        subst hctx
        exact protectApdu_total C htag hc hkey hseals hplain hroom
      refine ⟨out, _, Prod.ext hout rfl, protectApdu_length C htag hc hout, ⟨rfl, rfl, rfl⟩, rfl, rfl, ?_⟩
      rw [numbers, hsec, if_neg Bool.false_ne_true]
      exact hvalue
    · unfold InvocationCounter.next at he
      rw [if_neg fun h => absurd (congrArg UInt32.toNat h) (Nat.ne_of_lt hlast)] at he
      cases he

/-- So does an APDU that fits the scratch buffer. -/
theorem send_fits {apdu : Apdu} {tag : ApduTag} {n room : Nat} (ha : apdu.Sized tag n)
    (hc : tag.HasCiphered) (hk : s.Keyed C)
    (htitle : s.config.security.isNone = false → s.config.systemTitle.isSome = true)
    (hcount : s.config.security.isNone = false → s.invocationCounter.last.toNat < 0xFFFFFFFF)
    (hn : n < 2 ^ 31) (hN : n ≤ N) (hroom : n + s.overhead ≤ room) :
    ∃ bytes t, send C apdu room s = (.ok bytes, t) ∧ bytes.length ≤ n + s.overhead ∧ Sent s t := by
  have hlen : apdu.encode.data.length = n := ha.encode.size
  have henc : encode apdu.encode N s = (.ok apdu.encode.data, s) := by
    rw [encode_run, SliceWriter.encodeInto_fits ha.encode.fault (by rw [ha.encode.size]; simpa using hN)]
  rw [← hlen] at hn hroom ⊢
  obtain ⟨bytes, t, hrun, hle, hsent⟩ := sendPlain_fits C ha.fromU8 hc hk htitle hcount hn hroom
  refine ⟨bytes, t.log (.sent apdu bytes), ?_, hle, ⟨hsent.terms.config, hsent.terms.protector,
    hsent.terms.negotiated⟩, hsent.state, hsent.outstanding, hsent.counter⟩
  unfold send
  rw [Prog.bind_run_ok henc, Prog.bind_run_ok hrun]
  rfl

/-- What goes out fits the scratch buffer, and is under a title where it is protected. -/
theorem send_ok {apdu : Apdu} {room : Nat} {t : ClientSession π N} {bytes : Bytes}
    (h : send C apdu room s = (.ok bytes, t)) : apdu.encode.fault = none ∧ apdu.encode.size ≤ N ∧
      (s.config.security.isNone = false → s.config.systemTitle.isSome = true) := by
  obtain ⟨plain, s₁, henc, h⟩ := Prog.bind_ok h
  rw [encode_run] at henc
  obtain ⟨hcode, rfl⟩ := Prod.mk.inj henc
  obtain ⟨hfault, -, hsize⟩ := SliceWriter.encodeInto_ok hcode
  refine ⟨hfault, by simpa using hsize, fun hsec => ?_⟩
  obtain ⟨_, s₂, hplain, -⟩ := Prog.bind_ok h
  unfold sendPlain at hplain
  rw [Prog.gets_bind_run, hsec, if_neg Bool.false_ne_true] at hplain
  obtain ⟨title, htitle, -⟩ | ⟨-, hneed⟩ := need_run s.config.systemTitle .unexpectedMessage s
  · rw [htitle]
    rfl
  · rw [Prog.bind_run_error hneed] at hplain
    cases hplain

theorem requireAssociated_ok (h : s.state = .associated) : requireAssociated s = (.ok (), s) := by
  unfold requireAssociated
  rw [Prog.gets_bind_run, if_pos h]
  rfl

/-- The next block goes out where its request does. -/
theorem nextBlockRequest_fits {b : BlockSender} {room : Nat} (hst : s.state = .associated)
    (hdone : b.isDone = false) (hout : b.block ≠ 0 → s.outstanding.isSome = true)
    (ht : b.block = 0 → b.target.Encodes) (hlen : b.nextBlock.rawData.length < 2 ^ 32) (hk : s.Keyed C)
    (htitle : s.config.security.isNone = false → s.config.systemTitle.isSome = true)
    (hcount : s.config.security.isNone = false → s.invocationCounter.last.toNat < 0xFFFFFFFF)
    (hn : b.nextSize < 2 ^ 31) (hN : b.nextSize ≤ N) (hroom : b.nextSize + s.overhead ≤ room) :
    ∃ bytes t, nextBlockRequest C room (s, b) = (.ok bytes, (t, b.advance)) ∧
      bytes.length ≤ b.nextSize + s.overhead ∧ s.SameTerms t ∧ t.state = .associated ∧
      t.outstanding.isSome = true ∧
      t.invocationCounter.last.toNat = s.invocationCounter.last.toNat + numbers s := by
  have hid : ∃ i s₁, (if b.block = 0 then nextInvokeId else outstandingId : Cli π N InvokeId) s =
      (.ok i, s₁) ∧ s.SameTerms s₁ ∧ s₁.state = s.state ∧ s₁.outstanding.isSome = true ∧
      s₁.invocationCounter = s.invocationCounter := by
    by_cases h0 : b.block = 0
    · rw [if_pos h0]
      exact ⟨_, _, rfl, ⟨rfl, rfl, rfl⟩, rfl, rfl, rfl⟩
    · obtain ⟨i, hi⟩ := Option.isSome_iff_exists.mp (hout h0)
      rw [if_neg h0, outstandingId, Prog.gets_bind_run, hi]
      exact ⟨i, s, rfl, .refl s, rfl, hout h0, rfl⟩
  obtain ⟨i, s₁, hid, hterms, hst₁, hout₁, hcount₁⟩ := hid
  rw [← hterms.overhead] at hroom ⊢
  obtain ⟨bytes, t, hsend, hle, hsent⟩ := send_fits C (s := s₁) (b.request_sized i ht hlen)
    b.target.tag_hasCiphered (hterms.keyed hk) (by rw [hterms.config]; exact htitle)
    (by rw [hterms.config, hcount₁]; exact hcount) hn hN hroom
  have hnumbers : numbers s₁ = numbers s := by rw [numbers, hterms.config, numbers]
  refine ⟨bytes, t, ?_, hle, hterms.trans hsent.terms, hsent.state.trans (hst₁.trans hst), ?_, ?_⟩
  · unfold nextBlockRequest
    rw [Prog.bind_run_ok (Sending.onSession_run (requireAssociated_ok hst) b), Prog.gets_bind_run]
    dsimp only
    rw [hdone, if_neg Bool.false_ne_true, Prog.bind_run_ok (Sending.onSession_run hid b),
      Prog.bind_run_ok (Sending.onSession_run hsend b)]
    rfl
  · rw [hsent.outstanding]
    exact hout₁
  · rw [hsent.counter, hcount₁, hnumbers]

/-- A first block that goes out has an encoding that fits the scratch buffer. -/
theorem nextBlockRequest_ok {b : BlockSender} {room : Nat} {bytes : Bytes} (h0 : b.block = 0)
    (h : (nextBlockRequest C room (s, b)).1 = .ok bytes) :
    ∃ i, (b.request i).encode.fault = none ∧ (b.request i).encode.size ≤ N ∧
      (s.config.security.isNone = false → s.config.systemTitle.isSome = true) := by
  have hrun : ((nextBlockRequest C room).inSession b) s = (.ok bytes, _) := Prod.ext h rfl
  rw [nextBlockRequest_inSession] at hrun
  obtain ⟨_, s₁, hreq, hrun⟩ := Prog.bind_ok hrun
  obtain ⟨-, hsame⟩ | hsame := requireAssociated_run s
  · rw [hsame] at hreq
    obtain ⟨-, rfl⟩ := Prod.mk.inj hreq
    by_cases hdone : b.isDone = true
    · rw [if_pos hdone] at hrun
      cases hrun
    · rw [if_neg hdone, if_pos h0] at hrun
      obtain ⟨i, s₂, hid, hsend⟩ := Prog.bind_ok hrun
      obtain ⟨-, rfl⟩ := Prod.mk.inj hid
      obtain ⟨hfault, hsize, htitle⟩ := send_ok C hsend
      exact ⟨i, hfault, hsize, htitle⟩
  · rw [hsame] at hreq
    cases hreq

/-- A sender that is done sends nothing more. -/
theorem nextBlockRequest_done {b : BlockSender} (room : Nat) (hst : s.state = .associated)
    (hdone : b.isDone = true) :
    nextBlockRequest C room (s, b) = (.error ⟨.unexpectedMessage, 0⟩, (s, b)) := by
  unfold nextBlockRequest
  rw [Prog.bind_run_ok (Sending.onSession_run (requireAssociated_ok hst) b), Prog.gets_bind_run]
  dsimp only
  rw [hdone, if_pos rfl]
  rfl

/-- An answer leaves what the next request is made under. -/
theorem handleResponse_sameTerms (apdu : Bytes) (size : Nat) (s : ClientSession π N) :
    s.SameTerms (handleResponse C apdu size s).2 ∧
      (handleResponse C apdu size s).2.outstanding = s.outstanding ∧
      (handleResponse C apdu size s).2.invocationCounter = s.invocationCounter := by
  have hsame (t : ClientSession π N) (h : t = (unprotectInto C apdu size s).2) :
      s.SameTerms t ∧ t.outstanding = s.outstanding ∧ t.invocationCounter = s.invocationCounter := by
    subst h
    exact ⟨⟨rfl, rfl, rfl⟩, rfl, rfl⟩
  unfold handleResponse
  match hu : unprotectInto C apdu size s with
  | (.error e, t) =>
    rw [Prog.bind_run_error hu]
    exact hsame t (by rw [hu])
  | (.ok plain, t) =>
    obtain ⟨ht, hout, hcount⟩ := hsame t (by rw [hu])
    rw [Prog.bind_run_ok hu]
    cases Apdu.fromBytes plain with
    | error e => exact ⟨ht, hout, hcount⟩
    | ok d =>
      simp only [Prog.ofExcept_ok, Prog.pure_bind_run, Prog.gets_bind_run]
      cases d.misdirected t.outstanding with
      | true => exact ⟨ht, hout, hcount⟩
      | false =>
        cases d.response with
        | error e => exact ⟨ht, hout, hcount⟩
        | ok r =>
          simp only [Bool.false_eq_true, if_false, Prog.ofExcept_ok, Prog.pure_bind_run,
            Prog.modify_bind_run]
          split
          · exact ⟨⟨ht.config, ht.protector, ht.negotiated⟩, hout, hcount⟩
          · exact ⟨⟨ht.config, ht.protector, ht.negotiated⟩, hout, hcount⟩

end Cli

/-! ## The whole transfer -/

namespace BlockSender

/-- A sender has sent all its blocks when it has sent one, and the whole value. -/
theorem blocks_le_iff (b : BlockSender) (k : Nat) :
    b.blocks ≤ k ↔ 0 < k ∧ b.bytes.length ≤ k * b.fragment := by
  have hdiv : (b.bytes.length + b.fragment - 1) / b.fragment ≤ k ↔ b.bytes.length ≤ k * b.fragment := by
    have hpos := b.fragment.property
    rw [← Nat.lt_succ_iff, Nat.div_lt_iff_lt_mul hpos, Nat.succ_mul]
    omega
  unfold blocks
  dsimp only
  split
  · rename_i hzero
    rw [hzero] at hdiv
    have hlen := hdiv.mp (Nat.zero_le k)
    constructor
    · exact fun h => ⟨h, hlen⟩
    · exact fun h => h.1
  · rename_i hsome
    rw [hdiv]
    exact ⟨fun h => ⟨(Nat.pos_of_ne_zero hsome).trans_le (hdiv.mpr h), h⟩, fun h => h.2⟩

theorem blocks_pos (b : BlockSender) : 0 < b.blocks := ((b.blocks_le_iff b.blocks).mp le_rfl).1

end BlockSender

namespace BlockTransfer

variable {π : Type} {N : Nat} (C : CryptoProvider π)

/-- How often the next block is asked for. -/
def nexts (acts : List TransferAct) : Nat := acts.countP fun
  | .next _ => true
  | .other _ => false

/-- The caller gives every block a buffer of what the server receives, and in between takes answers
that leave the association open. -/
def Attends (t : BlockTransfer π N) : TransferAct → Prop
  | .next room => t.session.ceiling.toNat ≤ room
  | .other (.handleResponse apdu size) =>
    (t.session.step C (.handleResponse apdu size)).state = .associated
  | .other _ => False

/-- Where the caller attends to a transfer, every block goes out until the sender is done, none is
longer than the server receives, and there are as many as `blocks` says. -/
def Delivered (t : BlockTransfer π N) : Prop :=
  ∀ acts, Run.Meeting (BlockTransfer.step C) (Attends C) t acts →
    (t.run C acts).emitted.length = min (nexts acts) t.sender.blocks ∧
    ((t.run C acts).sender.isDone = true ↔ (t.run C acts).emitted.length = t.sender.blocks) ∧
    ((t.run C acts).sender.isDone = false → ∀ room, t.session.ceiling.toNat ≤ room → ∃ bytes,
      (Cli.nextBlockRequest C room ((t.run C acts).session, (t.run C acts).sender)).1 = .ok bytes ∧
      bytes.length ≤ t.session.ceiling.toNat)

theorem Delivered.first {C : CryptoProvider π} {t : BlockTransfer π N} (h : Delivered C t)
    (hdone : t.sender.isDone = false) : ∃ bytes,
      (Cli.nextBlockRequest C t.session.ceiling.toNat (t.session, t.sender)).1 = .ok bytes := by
  obtain ⟨-, -, hnext⟩ := h [] .nil
  obtain ⟨bytes, hbytes, -⟩ := hnext hdone _ le_rfl
  exact ⟨bytes, hbytes⟩

/-- The first block, as long as the server allows it to be, fits the scratch buffer. A session that
protects has a title. -/
def FitsScratch (s : ClientSession π N) (target : BlockTarget) (bytes : Bytes) : Prop :=
  target.Encodes ∧ target.firstSize (min (s.payloadRoom target.extra) bytes.length) ≤ N ∧
    (s.config.security.isNone = false → s.config.systemTitle.isSome = true)

/-- What a transfer asks of a session first leaves the session as it was. -/
theorem required {m : Cli π N Unit} (hm : Cli.Looks m) {s t : ClientSession π N} {u : Unit}
    (h : m s = (.ok u, t)) : t = s := by
  have hsame := hm.run s
  rw [h] at hsame
  exact hsame

/-- The fragment size is taken last. -/
theorem fragment_taken {s t : ClientSession π N} {target : BlockTarget} {bytes : Bytes} {b : BlockSender}
    {extra : Nat} (h : (do
      let fragment ← Prog.ofExcept ((← Prog.gets id).maxFragmentLess extra)
      return BlockSender.start target bytes fragment : Cli π N BlockSender) s = (.ok b, t)) :
    t = s ∧ ∃ fragment, b = .start target bytes fragment ∧ s.maxFragmentLess extra = .ok fragment := by
  rw [Prog.gets_bind_run] at h
  obtain ⟨fragment, hmax, h⟩ := Prog.ofExcept_bind_ok h
  obtain ⟨hb, ht⟩ := Prod.mk.inj h
  exact ⟨ht.symm, fragment, (Except.ok.inj hb).symm, hmax⟩

/-- A transfer is begun on an open association, with the fragment size for its target. -/
theorem Started.begun {bytes : Bytes} {t : BlockTransfer π N} (h : Started bytes t) :
    t.session.state = .associated ∧ t.emitted = [] ∧ ∃ target fragment,
      t.sender = .start target bytes fragment ∧
      t.session.maxFragmentLess target.extra = .ok fragment := by
  have open_ok {s s' : ClientSession π N} {u : Unit} (h : Cli.requireAssociated s = (.ok u, s')) :
      s'.state = .associated := by
    obtain ⟨hst, hrun⟩ | hrun := Cli.requireAssociated_run s
    · rw [hrun] at h
      obtain ⟨-, rfl⟩ := Prod.mk.inj h
      exact hst
    · rw [hrun] at h
      cases h
  have agreed {s s' : ClientSession π N} {c : Conformance} {u : Unit}
      (h : Cli.requireConformance c s = (.ok u, s')) : s' = s :=
    required (Cli.Looks.rules.requireConformance (P := fun _ => True) c) h
  cases h with
  | set s d access h hnil =>
    obtain ⟨_, s₁, hreq, h⟩ := Prog.bind_ok h
    obtain ⟨_, s₂, hset, h⟩ := Prog.bind_ok h
    obtain ⟨_, s₃, hblock, h⟩ := Prog.bind_ok h
    obtain ⟨ht, fragment, hb, hmax⟩ := fragment_taken h
    obtain rfl := agreed hset
    obtain rfl := agreed hblock
    exact ⟨ht ▸ open_ok hreq, hnil, .attribute d access, fragment, hb, ht ▸ hmax⟩
  | setList s items scratch h hnil =>
    obtain ⟨_, s₁, hreq, h⟩ := Prog.bind_ok h
    obtain ⟨_, s₂, hset, h⟩ := Prog.bind_ok h
    obtain ⟨_, s₃, hrefs, h⟩ := Prog.bind_ok h
    obtain ⟨_, s₄, hblock, h⟩ := Prog.bind_ok h
    obtain ⟨_, s₅, hargs, h⟩ := Prog.bind_ok h
    obtain ⟨raw, s₆, henc, h⟩ := Prog.bind_ok h
    obtain ⟨ht, fragment, hb, hmax⟩ := fragment_taken h
    obtain rfl := agreed hset
    obtain rfl := agreed hrefs
    obtain rfl := agreed hblock
    obtain rfl := required (Cli.Looks.rules.requireArguments (P := fun _ => True) _) hargs
    rw [Cli.encode_run] at henc
    obtain ⟨-, rfl⟩ := Prod.mk.inj henc
    exact ⟨ht ▸ open_ok hreq, hnil, .attributeList (.fromRaw items.length raw), fragment, hb, ht ▸ hmax⟩
  | action s d h hnil =>
    obtain ⟨_, s₁, hreq, h⟩ := Prog.bind_ok h
    obtain ⟨_, s₂, hset, h⟩ := Prog.bind_ok h
    obtain ⟨_, s₃, hblock, h⟩ := Prog.bind_ok h
    obtain ⟨ht, fragment, hb, hmax⟩ := fragment_taken h
    obtain rfl := agreed hset
    obtain rfl := agreed hblock
    exact ⟨ht ▸ open_ok hreq, hnil, .method d, fragment, hb, ht ▸ hmax⟩

/-- What holds once `k` blocks of a transfer have gone out. -/
structure Progress (t₀ t : BlockTransfer π N) (k : Nat) : Prop where
  terms : t₀.session.SameTerms t.session
  state : t.session.state = .associated
  outstanding : k ≠ 0 → t.session.outstanding.isSome = true
  counter : t.session.invocationCounter.last.toNat =
    t₀.session.invocationCounter.last.toNat + k * Cli.numbers t₀.session
  target : t.sender.target = t₀.sender.target
  bytes : t.sender.bytes = t₀.sender.bytes
  fragment : t.sender.fragment = t₀.sender.fragment
  sent : t.sender.sent = min (k * t₀.sender.fragment) t₀.sender.bytes.length
  block : t.sender.block.toNat = min k 0xFFFFFFFF
  emitted : t.emitted.length = k
  count : k ≤ t₀.sender.blocks

namespace Progress

variable {C} {t₀ t : BlockTransfer π N} {k : Nat}

theorem stop_eq (h : Progress t₀ t k) :
    t.sender.stop = min ((k + 1) * t₀.sender.fragment) t₀.sender.bytes.length := by
  unfold BlockSender.stop
  rw [h.sent, h.bytes, h.fragment, Nat.succ_mul]
  omega

theorem isDone_iff (h : Progress t₀ t k) : t.sender.isDone = true ↔ k = t₀.sender.blocks := by
  have hpos : 0 < t.sender.block ↔ 0 < k := by
    rw [UInt32.lt_iff_toNat_lt, h.block]
    change 0 < min k 0xFFFFFFFF ↔ 0 < k
    omega
  have hall : t.sender.bytes.length ≤ t.sender.sent ↔
      t₀.sender.bytes.length ≤ k * t₀.sender.fragment := by
    rw [h.bytes, h.sent]
    omega
  unfold BlockSender.isDone
  rw [Bool.and_eq_true, decide_eq_true_iff, decide_eq_true_iff, hpos, hall,
    ← BlockSender.blocks_le_iff]
  have := h.count
  omega

theorem block_eq_zero (h : Progress t₀ t k) : t.sender.block = 0 ↔ k = 0 := by
  rw [← UInt32.toNat_inj, h.block]
  change min k 0xFFFFFFFF = 0 ↔ k = 0
  omega

theorem nextNumber (h : Progress t₀ t k) : t.sender.nextNumber.toNat = min (k + 1) 0xFFFFFFFF := by
  have hblock := h.block
  by_cases hmax : t.sender.block = 0xFFFFFFFF
  · rw [BlockSender.nextNumber, if_pos hmax, hmax]
    rw [hmax] at hblock
    change 0xFFFFFFFF = min k 0xFFFFFFFF at hblock
    change 0xFFFFFFFF = min (k + 1) 0xFFFFFFFF
    omega
  · rw [nextNumber_toNat hmax, hblock]
    have hne : t.sender.block.toNat ≠ 0xFFFFFFFF := fun heq => hmax (UInt32.toNat_inj.mp heq)
    omega

/-- The next block is not too long for either buffer. -/
theorem nextSize_le (h : Progress t₀ t k)
    (hmax : t₀.session.maxFragmentLess t₀.sender.target.extra = .ok t₀.sender.fragment)
    (hfits : FitsScratch t₀.session t₀.sender.target t₀.sender.bytes) :
    t.sender.nextBlock.rawData.length ≤ t₀.session.ceiling.toNat ∧ t.sender.nextSize ≤ N ∧
      t.sender.nextSize + t₀.session.overhead ≤ t₀.session.ceiling.toNat := by
  have hfragment := ClientSession.maxFragmentLess_ok hmax
  have hpos := t₀.sender.fragment.property
  have hraw : t.sender.nextBlock.rawData.length ≤ t₀.sender.fragment := by
    rw [← h.fragment]
    exact t.sender.length_rawData_le
  have hlen : t.sender.nextBlock.rawData.length ≤ t₀.sender.bytes.length := by
    rw [BlockSender.length_rawData, h.stop_eq]
    omega
  have hnext := t.sender.nextSize_le
  rw [h.target] at hnext
  generalize t.sender.nextBlock.rawData.length = n at hraw hlen hnext
  have hroom : n ≤ t₀.session.payloadRoom t₀.sender.target.extra ∧
      0 < t₀.session.payloadRoom t₀.sender.target.extra := by omega
  have hreckoned := t₀.sender.target.firstSize_le n
  have hmono := t₀.sender.target.firstSize_mono (le_min hroom.1 hlen)
  have hscratch := hfits.2.1
  unfold ClientSession.payloadRoom at hroom
  refine ⟨?_, ?_, ?_⟩ <;> omega

/-- The next block goes out, and is no longer than the server receives. -/
theorem sends (h : Progress t₀ t k) (hk : k < t₀.sender.blocks)
    (hmax : t₀.session.maxFragmentLess t₀.sender.target.extra = .ok t₀.sender.fragment)
    (hfits : FitsScratch t₀.session t₀.sender.target t₀.sender.bytes) (hkeys : t₀.session.Keyed C)
    (hcount : t₀.session.config.security.isNone = false →
      t₀.session.invocationCounter.last.toNat + t₀.sender.blocks ≤ 0xFFFFFFFF)
    {room : Nat} (hroom : t₀.session.ceiling.toNat ≤ room) :
    ∃ bytes s, Cli.nextBlockRequest C room (t.session, t.sender) = (.ok bytes, (s, t.sender.advance)) ∧
      bytes.length ≤ t₀.session.ceiling.toNat ∧ t₀.session.SameTerms s ∧ s.state = .associated ∧
      s.outstanding.isSome = true ∧ s.invocationCounter.last.toNat =
        t₀.session.invocationCounter.last.toNat + (k + 1) * Cli.numbers t₀.session := by
  obtain ⟨hraw, hN, hceiling⟩ := h.nextSize_le hmax hfits
  have hlt := t₀.session.ceiling.toNat_lt
  have hdone : t.sender.isDone = false := by
    rw [← Bool.not_eq_true, h.isDone_iff]
    omega
  have hnumbers : Cli.numbers t.session = Cli.numbers t₀.session := by
    rw [Cli.numbers, h.terms.config, Cli.numbers]
  have hroom' : t.sender.nextSize + t.session.overhead ≤ room := by
    rw [h.terms.overhead]
    exact hceiling.trans hroom
  obtain ⟨bytes, s, hrun, hle, hterms, hst, hout, hcounter⟩ := Cli.nextBlockRequest_fits C h.state hdone
    (fun h0 => h.outstanding fun hk => h0 (h.block_eq_zero.mpr hk))
    (fun _ => h.target ▸ hfits.1) (by omega) (h.terms.keyed hkeys)
    (by rw [h.terms.config]; exact hfits.2.2)
    (fun hsec => by
      rw [h.terms.config] at hsec
      have hleft := hcount hsec
      have hone : Cli.numbers t₀.session = 1 := by
        rw [Cli.numbers, hsec]
        rfl
      rw [h.counter, hone]
      omega)
    (by omega) hN hroom'
  rw [h.terms.overhead] at hle
  refine ⟨bytes, s, hrun, hle.trans hceiling, h.terms.trans hterms, hst, hout, ?_⟩
  rw [hcounter, h.counter, hnumbers, Nat.succ_mul]
  omega

/-- One more block. -/
theorem next (h : Progress t₀ t k) (hk : k < t₀.sender.blocks)
    (hmax : t₀.session.maxFragmentLess t₀.sender.target.extra = .ok t₀.sender.fragment)
    (hfits : FitsScratch t₀.session t₀.sender.target t₀.sender.bytes) (hkeys : t₀.session.Keyed C)
    (hcount : t₀.session.config.security.isNone = false →
      t₀.session.invocationCounter.last.toNat + t₀.sender.blocks ≤ 0xFFFFFFFF)
    {room : Nat} (hroom : t₀.session.ceiling.toNat ≤ room) :
    Progress t₀ (t.sendNext C room) (k + 1) := by
  obtain ⟨bytes, s, hrun, -, hterms, hst, hout, hcounter⟩ := h.sends hk hmax hfits hkeys hcount hroom
  obtain ⟨-, -, e, he⟩ | ⟨i, -, hemitted, -, -⟩ := sendNext_run C room t
  · rw [hrun] at he
    cases he
  · have hpair : ((t.sendNext C room).session, (t.sendNext C room).sender) = (s, t.sender.advance) :=
      congrArg Prod.snd hrun
    obtain ⟨hsession, hsender⟩ := Prod.mk.inj hpair
    refine ⟨hsession ▸ hterms, hsession ▸ hst, fun _ => hsession ▸ hout, hsession ▸ hcounter,
      hsender ▸ h.target, hsender ▸ h.bytes, hsender ▸ h.fragment, hsender ▸ h.stop_eq,
      hsender ▸ h.nextNumber, ?_, hk⟩
    rw [hemitted, List.length_append, h.emitted, List.length_singleton]

/-- Where the caller attends to a transfer, it is as far as blocks were asked for. -/
theorem run (h : Progress t₀ t₀ 0)
    (hmax : t₀.session.maxFragmentLess t₀.sender.target.extra = .ok t₀.sender.fragment)
    (hfits : FitsScratch t₀.session t₀.sender.target t₀.sender.bytes) (hkeys : t₀.session.Keyed C)
    (hcount : t₀.session.config.security.isNone = false →
      t₀.session.invocationCounter.last.toNat + t₀.sender.blocks ≤ 0xFFFFFFFF)
    {acts : List TransferAct} (hacts : Run.Meeting (BlockTransfer.step C) (Attends C) t₀ acts) :
    Progress t₀ (t₀.run C acts) (min (nexts acts) t₀.sender.blocks) := by
  induction acts using List.reverseRecOn with
  | nil => simpa [nexts, BlockTransfer.run] using h
  | append_singleton acts a ih =>
    have hpast := ih (hacts.of_prefix (List.prefix_append ..))
    have ha : Attends C (t₀.run C acts) a := hacts acts a List.prefix_rfl
    rw [BlockTransfer.run, Run.after_concat]
    change Progress t₀ ((t₀.run C acts).step C a) _
    generalize t₀.run C acts = t at hpast ha
    cases a with
    | next room =>
      have hroom : t₀.session.ceiling.toNat ≤ room := by
        rw [← hpast.terms.ceiling]
        exact ha
      have hnexts : nexts (acts ++ [.next room]) = nexts acts + 1 := by simp [nexts]
      rw [hnexts]
      change Progress t₀ (t.sendNext C room) _
      by_cases hk : nexts acts < t₀.sender.blocks
      · rw [Nat.min_eq_left (Nat.le_of_lt hk)] at hpast
        rw [Nat.min_eq_left hk]
        exact hpast.next hk hmax hfits hkeys hcount hroom
      · have hall : min (nexts acts) t₀.sender.blocks = t₀.sender.blocks := by omega
        rw [hall] at hpast
        have hsame : t.sendNext C room = t := by
          unfold sendNext
          rw [Cli.nextBlockRequest_done C room hpast.state (hpast.isDone_iff.mpr rfl)]
          simp [blocksSince]
        rw [hsame, Nat.min_eq_right (by omega)]
        exact hpast
    | other op =>
      have hnexts : nexts (acts ++ [.other op]) = nexts acts := by simp [nexts]
      rw [hnexts]
      cases op with
      | handleResponse apdu size =>
        obtain ⟨hterms, hout, hcounter⟩ := Cli.handleResponse_sameTerms C apdu size t.session
        exact ⟨hpast.terms.trans hterms, ha, fun hk => by
            change (Cli.handleResponse C apdu size t.session).2.outstanding.isSome = true
            rw [hout]
            exact hpast.outstanding hk,
          by
            change (Cli.handleResponse C apdu size t.session).2.invocationCounter.last.toNat = _
            rw [hcounter]
            exact hpast.counter,
          hpast.target, hpast.bytes, hpast.fragment, hpast.sent, hpast.block, hpast.emitted, hpast.count⟩
      | _ => exact ha.elim

end Progress

/-- Every block of a transfer goes out, and no more of them, exactly where the first one fits the
scratch buffer: in blocks as long as the server receives. The keys are there, and the numbers. -/
theorem blocks_sendable {bytes : Bytes} {t : BlockTransfer π N} (h : Started bytes t)
    (hkeys : t.session.Keyed C)
    (hcount : t.session.config.security.isNone = false →
      t.session.invocationCounter.last.toNat + t.sender.blocks ≤ 0xFFFFFFFF) :
    Delivered C t ↔ FitsScratch t.session t.sender.target bytes := by
  obtain ⟨hst, hnil, target, fragment, hsender, hmax⟩ := h.begun
  have hbytes : t.sender.bytes = bytes := by rw [hsender]; rfl
  have hmax' : t.session.maxFragmentLess t.sender.target.extra = .ok t.sender.fragment := by
    rw [hsender]
    exact hmax
  have hstart : Progress t t 0 := by
    refine ⟨.refl _, hst, fun h => absurd rfl h, by simp, rfl, rfl, rfl, ?_, ?_, ?_, Nat.zero_le _⟩
    · rw [hsender]
      simp [BlockSender.start]
    · rw [hsender]
      rfl
    · rw [hnil]
      rfl
  constructor
  · intro hall
    obtain ⟨out, hout⟩ := hall.first (by rw [hsender]; rfl)
    have h0 : t.sender.block = 0 := by rw [hsender]; rfl
    obtain ⟨i, hfault, hsize, htitle⟩ := Cli.nextBlockRequest_ok C h0 hout
    have hencodes := BlockSender.encodes_of_request h0 hfault
    have hfragment := ClientSession.maxFragmentLess_ok hmax'
    have hraw : t.sender.nextBlock.rawData.length = min t.sender.fragment.val bytes.length := by
      rw [BlockSender.length_rawData, hstart.stop_eq, hstart.sent, hbytes]
      omega
    have hceiling : t.session.payloadRoom t.sender.target.extra ≤ t.session.ceiling.toNat := by
      unfold ClientSession.payloadRoom
      omega
    have hlt := t.session.ceiling.toNat_lt
    have hsized := t.sender.request_sized i (fun _ => hencodes) (by omega)
    rw [hsized.encode.size, BlockSender.nextSize, if_pos h0] at hsize
    have hless := t.sender.target.lt_firstSize t.sender.nextBlock.rawData.length
    -- The bound of the scratch buffer did not shorten a block that fits it with its header.
    have hsame : min (t.session.payloadRoom t.sender.target.extra) bytes.length =
        t.sender.nextBlock.rawData.length := by omega
    refine ⟨hencodes, ?_, htitle⟩
    rw [hsame]
    exact hsize
  · intro hfits acts hacts
    rw [← hbytes] at hfits
    have hrun := hstart.run hmax' hfits hkeys hcount hacts
    refine ⟨hrun.emitted, ?_, fun hdone room hroom => ?_⟩
    · rw [hrun.isDone_iff, hrun.emitted]
    · have hlt : min (nexts acts) t.sender.blocks < t.sender.blocks := by
        rw [← Bool.not_eq_true, hrun.isDone_iff] at hdone
        omega
      obtain ⟨out, s, hsend, hle, -⟩ := hrun.sends hlt hmax' hfits hkeys hcount hroom
      exact ⟨out, by rw [hsend], hle⟩

/-! ### Under protection, and in a narrow buffer -/

/-- A session that protects, on an open association. -/
def protectedSession : ClientSession SampleKeys 64 :=
  { ClientSession.new 64 { systemTitle := some sampleTitle, security := samplePolicy, maxPduSize := 60 }
      .authenticating with
    state := .associated }

/-- Its blocks have 14 bytes. -/
def protectedTransfer : BlockTransfer SampleKeys 64 where
  session := protectedSession
  sender := .start (.attribute sampleAttribute none) (zeros 20) ⟨14, by decide⟩
  emitted := []

theorem protectedSession_keyed : protectedSession.Keyed sampleProvider := fun _ =>
  ⟨[1], rfl, by decide, fun _ _ _ => ⟨_, rfl⟩, fun _ _ => ⟨_, rfl⟩⟩

theorem protectedTransfer_sender :
    (Cli.setTransfer sampleAttribute none (zeros 20) protectedSession).1 =
      .ok protectedTransfer.sender := by decide +kernel

theorem protectedTransfer_started : Started (zeros 20) protectedTransfer :=
  .of_setTransfer protectedTransfer_sender

/-- The keys and the numbers are there, and a block of 14 bytes fits 64. -/
theorem blocks_sendable_sample : Delivered sampleProvider protectedTransfer :=
  (blocks_sendable sampleProvider protectedTransfer_started protectedSession_keyed
    (by decide +kernel)).mpr ⟨nofun, by decide +kernel, by decide +kernel⟩

/-- A session with a scratch buffer of 32 bytes, for a server that receives 64. -/
def narrowSession : ClientSession SampleKeys 32 :=
  Run.after (ClientSession.step sampleProvider) (.new 32 { maxPduSize := 64 } .plain)
    [.associateRequest 100 .zeros, .handleAssociateResponse sampleAare]

def narrowTransfer : BlockTransfer SampleKeys 32 where
  session := narrowSession
  sender := .start (.attribute sampleAttribute none) (zeros 40) ⟨32, by decide⟩
  emitted := []

theorem narrowTransfer_refused :
    (Cli.nextBlockRequest sampleProvider narrowTransfer.session.ceiling.toNat
      (narrowTransfer.session, narrowTransfer.sender)).1 = .error ⟨.bufferTooSmall 19, 19⟩ := by
  decide +kernel

/-- A transfer of 40 bytes is begun, with a fragment as long as the scratch buffer, and its first block
is refused. -/
theorem block_unsendable :
    (Cli.setTransfer sampleAttribute none (zeros 40) narrowSession).1 = .ok narrowTransfer.sender ∧
      ¬ Delivered sampleProvider narrowTransfer := by
  refine ⟨by decide +kernel, fun h => ?_⟩
  obtain ⟨bytes, hbytes⟩ := h.first (by decide +kernel)
  rw [narrowTransfer_refused] at hbytes
  cases hbytes

end BlockTransfer

end Dlms
