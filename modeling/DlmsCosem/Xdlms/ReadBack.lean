import DlmsCosem.Xdlms.Places

/-!
# The messages of a handshake are read back

What one end writes when an association opens is what the other end reads: the two Initiate messages
and the two ACTION APDUs that carry the proofs (`ReadsBack`).
-/

namespace Dlms

theorem Emit.append_assoc (a b c : Emit) : a ++ b ++ c = a ++ (b ++ c) := by
  by_cases ha : a.fault = none
  · by_cases hb : b.fault = none
    · have hab : (a ++ b).fault = none := append_fault_eq_none.mpr ⟨ha, hb⟩
      have hchunks : (a ++ b ++ c).chunks = (a ++ (b ++ c)).chunks := by
        rw [append_chunks_of_none hab, append_chunks_of_none ha, append_chunks_of_none ha,
          append_chunks_of_none hb, List.append_assoc]
      have hfault : (a ++ b ++ c).fault = (a ++ (b ++ c)).fault := by
        rw [append_fault_of_none hab, append_fault_of_none ha, append_fault_of_none hb]
      calc a ++ b ++ c = ⟨(a ++ b ++ c).chunks, (a ++ b ++ c).fault⟩ := rfl
        _ = ⟨(a ++ (b ++ c)).chunks, (a ++ (b ++ c)).fault⟩ := by rw [hchunks, hfault]
        _ = a ++ (b ++ c) := rfl
    · have hab : (a ++ b).fault ≠ none := fun h => hb (append_fault_eq_none.mp h).2
      rw [append_of_fault hab, append_of_fault hb]
  · have hab : (a ++ b).fault ≠ none := fun h => ha (append_fault_eq_none.mp h).1
    rw [append_of_fault hab, append_of_fault ha, append_of_fault ha]

/-- `e` is written without a fault, and `m` reads it as `a`. -/
structure ReadsBack {α : Type} (m : Read α) (e : Emit) (a : α) : Prop where
  fault : e.fault = none
  takes : Takes m e.data (a = ·)

namespace ReadsBack

variable {α β : Type} {m : Read α} {e e' : Emit} {a : α} {b : β}

theorem bind {f : α → Read β} (hm : ReadsBack m e a) (hf : ReadsBack (f a) e' b) :
    ReadsBack (m >>= f) (e ++ e') b := by
  refine ⟨Emit.append_fault_eq_none.mpr ⟨hm.fault, hf.fault⟩, ?_⟩
  rw [Emit.append_data hm.fault]
  refine hm.takes.bind fun a' ha => ?_
  subst ha
  exact hf.takes

theorem map {g : α → β} (hm : ReadsBack m e a) : ReadsBack (m >>= fun a => pure (g a)) e (g a) :=
  ⟨hm.fault, hm.takes.map fun a' ha => by rw [ha]⟩

theorem u8 (v : UInt8) : ReadsBack Read.u8 (Emit.u8 v) v := ⟨rfl, .byte v⟩

theorem u16 (v : UInt16) : ReadsBack Read.u16 (Emit.u16 v) v := ⟨rfl, .u16 v⟩

theorem lengthPrefixed {bs : Bytes} (h : bs.length < 2 ^ 32) :
    ReadsBack Read.lengthPrefixed (Emit.lengthPrefixed bs) bs :=
  ⟨(Emit.lengthPrefixed_sized h).fault, .lengthPrefixed h⟩

/-- A value that may be missing. -/
theorem optional {enc : α → Emit} {o : Option α} (h : ∀ a, o = some a → ReadsBack m (enc a) a) :
    ReadsBack (decodeOptional m) (encodeOptional enc o) o := by
  cases o with
  | none =>
    refine ⟨rfl, ?_⟩
    have htake : Takes (decodeOptional m) ([0] ++ []) (none = ·) :=
      (Takes.byte 0).bind fun b hb => by subst hb; exact .pure rfl
    exact htake
  | some a => exact (u8 1).bind (h a rfl).map

/-- A whole byte string is read. -/
theorem fromBytes (h : ReadsBack m e a) : Read.fromBytes m e.data = .ok a := by
  obtain ⟨a', ha, rfl⟩ := h.takes.fromBytes
  exact ha

/-- What follows is not looked at. -/
theorem run (h : ReadsBack m e a) : (m (Reader.new e.data)).1 = .ok a := by
  obtain ⟨a', r, hr, rfl, -⟩ := h.takes (Reader.new e.data) [] (by simp [Reader.new])
  rw [hr]

end ReadsBack

/-! ## Initiate -/

theorem Conformance.fromBytes_toBytes (c : Conformance) : fromBytes c.toBytes = c := by
  have hlt : c.bits.reverse.toNat < 256 ^ 3 := c.bits.reverse.isLt
  rw [fromBytes, toBytes, beNat_beBytes, Nat.mod_eq_of_lt hlt, BitVec.ofNat_toNat,
    BitVec.setWidth_eq, BitVec.reverse_reverse_eq]

theorem Conformance.readsBack (c : Conformance) : ReadsBack decodeTagged c.encodeTagged c := by
  refine ⟨rfl, ?_⟩
  have hlen : c.toBytes.length = 3 := length_beBytes ..
  have htake : Takes decodeTagged ([0x5F] ++ ([0x1F] ++ ([0x04] ++ ([0x00] ++ c.toBytes)))) (c = ·) := by
    refine (Takes.u8 _).bind fun b hb => (Takes.u8 _).bind fun b' hb' => ?_
    subst hb hb'
    rw [if_neg (by decide)]
    refine (Takes.u8 _).bind fun b hb => ?_
    subst hb
    rw [if_neg (by decide)]
    refine (Takes.u8 _).bind fun b hb => ?_
    subst hb
    rw [if_neg (by decide)]
    exact (Takes.taken hlen).map fun bs hbs => by rw [← hbs, fromBytes_toBytes]
  exact htake

theorem InitiateRequest.readsBack (q : InitiateRequest)
    (h : ∀ key, q.dedicatedKey = some key → key.length < 2 ^ 32) : ReadsBack decode q.encode q := by
  obtain ⟨key, allowed, quality, version, conformance, maxPdu⟩ := q
  unfold encode
  simp only [Emit.append_assoc]
  refine (ReadsBack.optional fun key hkey => .lengthPrefixed (h key hkey)).bind ?_
  refine (ReadsBack.optional fun v _ => ?_).bind ?_
  · exact ⟨rfl, (Takes.byte _).map fun b hb => by rw [← hb, Bool.toUInt8_bne_zero]⟩
  · refine (ReadsBack.optional fun v _ => ⟨rfl, .i8 v⟩).bind ?_
    exact (ReadsBack.u8 _).bind ((conformance.readsBack).bind (ReadsBack.u16 _).map)

theorem InitiateResponse.readsBack (q : InitiateResponse) : ReadsBack decode q.encode q := by
  obtain ⟨quality, version, conformance, maxPdu, name⟩ := q
  unfold encode
  simp only [Emit.append_assoc]
  refine (ReadsBack.optional fun v _ => ⟨rfl, .i8 v⟩).bind ?_
  exact (ReadsBack.u8 _).bind ((conformance.readsBack).bind ((ReadsBack.u16 _).bind (ReadsBack.u16 _).map))

/-! ## The APDUs of the proofs -/

/-- An octet string in a value. -/
theorem Data.readsBack_octetString {bs : Bytes} (h : bs.length < 2 ^ 32) :
    ReadsBack decode (octetString bs).encode (octetString bs) := by
  have hcontents : ReadsBack Read.lengthPrefixed (Emit.lengthPrefixed bs) bs := .lengthPrefixed h
  exact (ReadsBack.u8 _).bind hcontents.map

theorem InvokeId.readsBack (i : InvokeId) : ReadsBack decode i.encode i := (ReadsBack.u8 i.val).map

theorem MethodDescriptor.readsBack (d : MethodDescriptor) : ReadsBack decode d.encode d := by
  obtain ⟨c, o, m⟩ := d
  unfold encode
  rw [Emit.append_assoc]
  exact (ReadsBack.u16 c).bind ((ReadsBack.mk rfl (Obis.takes o)).bind (ReadsBack.mk rfl (.i8 m)).map)

theorem ActionRequest.readsBack_normal (i : InvokeId) (d : MethodDescriptor) {p : Option Data}
    (h : ∀ v, p = some v → ReadsBack Data.decode v.encode v) :
    ReadsBack decode (normal i d p).encode (normal i d p) := by
  unfold encode
  simp only [Emit.append_assoc]
  exact (ReadsBack.u8 1).bind (i.readsBack.bind (d.readsBack.bind (ReadsBack.optional h).map))

theorem GetDataResult.readsBack_data {v : Data} (h : ReadsBack Data.decode v.encode v) :
    ReadsBack decode (data v).encode (data v) :=
  (ReadsBack.u8 0).bind h.map

/-- The result of a method that the encoder and the decoder spell alike. -/
theorem ActionResponse.readsBack_normal (i : InvokeId) {r : ActionResponseWithOptionalData}
    (hr : .fromU8 r.result.asU8 = r.result)
    (h : ∀ v, r.returnParameters = some v → ReadsBack GetDataResult.decode v.encode v) :
    ReadsBack decode (normal i r).encode (normal i r) := by
  obtain ⟨result, parameters⟩ := r
  have hresult : ReadsBack ActionResult.decode result.encode result := by
    have := (ReadsBack.u8 result.asU8).map (g := ActionResult.fromU8)
    rwa [hr] at this
  have hbody : ReadsBack ActionResponseWithOptionalData.decode
      (ActionResponseWithOptionalData.encode ⟨result, parameters⟩) ⟨result, parameters⟩ :=
    hresult.bind (ReadsBack.optional h).map
  unfold encode
  simp only [Emit.append_assoc]
  exact (ReadsBack.u8 1).bind (i.readsBack.bind hbody.map)

/-! ## Dates and ciphered bodies -/

theorem OptionalDateTime.takes (t : OptionalDateTime) : Takes decode t.encode.data (t = ·) := by
  obtain ⟨_ | t⟩ := t
  · have hnone : Takes decode ((Emit.lengthPrefixed []).data ++ []) ((⟨none⟩ : OptionalDateTime) = ·) := by
      refine (Takes.lengthPrefixed (by norm_num)).bind fun bs hbs => ?_
      subst hbs
      exact .pure rfl
    exact hnone
  · have hlen : t.toBytes.length = 12 := rfl
    have hsome : Takes decode ((Emit.lengthPrefixed t.toBytes).data ++ [])
        ((⟨some t⟩ : OptionalDateTime) = ·) := by
      refine (Takes.lengthPrefixed (by rw [hlen]; norm_num)).bind fun bs hbs => ?_
      subst hbs
      rw [if_neg (by rw [hlen]; decide), if_pos hlen, DateTime.fromBytes_toBytes]
      exact .pure rfl
    rwa [List.append_nil] at hsome

theorem OptionalDateTime.encode_sized (t : OptionalDateTime) :
    t.encode.Sized (if t.val.isSome then 13 else 1) := by
  obtain ⟨_ | t⟩ := t
  · exact Emit.length_sized (by norm_num)
  · have hlen : t.toBytes.length < 2 ^ 32 := by change 12 < _; norm_num
    exact Emit.lengthPrefixed_sized hlen

namespace CipheredService

variable {c : CipheredService}

/-- What stands inside the length. -/
def body (c : CipheredService) : Bytes :=
  c.securityControl.val :: (beBytes 4 c.invocationCounter.toNat ++ c.payload)

theorem length_body (c : CipheredService) : c.body.length = 5 + c.payload.length := by
  rw [body, List.length_cons, List.length_append, length_beBytes]
  omega

theorem encode_data (h : 5 + c.payload.length < 2 ^ 32) :
    c.encode.data = (Emit.lengthPrefixed c.body).data := by
  have hone := Emit.length_sized h
  have htwo := hone.append (.u8 c.securityControl.val)
  have hall := htwo.append (.u32 c.invocationCounter)
  unfold encode Emit.lengthPrefixed
  rw [c.length_body, Emit.append_data hall.fault, Emit.append_data htwo.fault, Emit.append_data hone.fault,
    Emit.append_data hone.fault, List.append_assoc, List.append_assoc, Emit.bytes_data, Emit.bytes_data,
    Emit.u8_data, Emit.u32, Emit.bytes_data]
  rfl

theorem decodeBody_body (c : CipheredService) (base : Nat) :
    (decodeBody (Reader.withBase c.body base)).1 = .ok c := by
  obtain ⟨r₁, h₁, hadv₁⟩ := Reads.u8 c.securityControl.val (Reader.withBase c.body base)
    (beBytes 4 c.invocationCounter.toNat ++ c.payload) rfl
  have hr₁ : r₁.rest = beBytes 4 c.invocationCounter.toNat ++ c.payload := by
    rw [hadv₁.rest]
    rfl
  obtain ⟨r₂, h₂, hadv₂⟩ := Reads.u32 c.invocationCounter r₁ c.payload hr₁
  have hr₂ : r₂.rest = c.payload := by
    rw [hadv₂.rest, hr₁, List.drop_left]
  unfold decodeBody
  rw [Prog.bind_run_ok h₁, Prog.bind_run_ok h₂]
  change Except.ok (CipheredService.mk _ _ r₂.rest) = _
  rw [hr₂]

/-- What stands behind the tag of a protected APDU is read back. -/
theorem takes (h : 5 + c.payload.length < 2 ^ 32) : Takes decode c.encode.data (c = ·) := by
  rw [encode_data h, ← List.append_nil (Emit.lengthPrefixed c.body).data]
  refine (Takes.lengthPrefixed (by rw [c.length_body]; exact h)).bind fun body hbody => ?_
  subst hbody
  refine .atOffset fun o => ?_
  rw [c.decodeBody_body]
  exact .pure rfl

end CipheredService

/-! ## Whole APDUs -/

theorem Read.peekU8_run {r : Reader} {b : UInt8} {tail : Bytes} (hr : r.rest = b :: tail) :
    peekU8 r = (.ok b, r) := by
  have hlt : r.pos < r.buf.length := by
    have hlen := r.length_rest
    rw [hr, List.length_cons, Reader.remaining] at hlen
    omega
  have hb := List.drop_eq_getElem_cons hlt
  rw [← Reader.rest, hr] at hb
  rw [peekU8, dif_pos hlt, ← (List.cons.inj hb).1]

/-- The tag of a message that is neither ciphered nor of the association control. -/
structure ApduTag.Service (tag : ApduTag) : Prop where
  bare : tag.unprotect = none
  service : tag ≠ .aarq ∧ tag ≠ .aare ∧ tag ≠ .releaseRequest ∧ tag ≠ .releaseResponse

namespace Apdu

/-- The tag is looked at, and then the body under it. -/
theorem decode_service {tag : ApduTag} (h : tag.Service) {r : Reader} {tail : Bytes}
    (hr : r.rest = tag.asU8 :: tail) : decode r = (Read.skip 1 >>= fun _ => decodePlain tag) r := by
  unfold decode
  rw [Prog.bind_run_ok (Read.peekU8_run hr), ApduTag.fromU8_asU8]
  obtain ⟨hbare, h1, h2, h3, h4⟩ := h
  cases tag <;> first | contradiction | (dsimp only; rw [hbare])

theorem readsBack {tag : ApduTag} (h : tag.Service) {e : Emit} {a : Apdu}
    (he : ReadsBack (decodePlain tag) e a) : ReadsBack decode (Emit.u8 tag.asU8 ++ e) a := by
  have hskip : ReadsBack (Read.skip 1) (Emit.u8 tag.asU8) () :=
    ⟨rfl, (Takes.take [tag.asU8]).map fun _ _ => rfl⟩
  have hall := hskip.bind (f := fun _ => decodePlain tag) he
  refine ⟨hall.fault, fun r tail hr => ?_⟩
  rw [decode_service h (by
    rw [hr, Emit.append_data rfl, Emit.u8_data, List.append_assoc, List.singleton_append])]
  exact hall.takes r tail hr

theorem readsBack_actionRequest {q : ActionRequest} (h : ReadsBack ActionRequest.decode q.encode q) :
    ReadsBack decode (actionRequest q).encode (actionRequest q) := by
  have htag : ApduTag.actionRequest.Service := ⟨by decide, by decide⟩
  exact readsBack htag h.map

theorem readsBack_actionResponse {q : ActionResponse}
    (h : ReadsBack ActionResponse.decode q.encode q) :
    ReadsBack decode (actionResponse q).encode (actionResponse q) := by
  have htag : ApduTag.actionResponse.Service := ⟨by decide, by decide⟩
  exact readsBack htag h.map

/-- Under the tag of an exception there is nothing else. -/
theorem fromBytes_exception {tail : Bytes} {a : Apdu}
    (h : fromBytes (ApduTag.exceptionResponse.asU8 :: tail) = .ok a) :
    ∃ x, a = .exceptionResponse x := by
  obtain ⟨r, hr, -⟩ := Read.fromBytes_ok h
  have hrest : (Reader.new (ApduTag.exceptionResponse.asU8 :: tail)).rest =
      ApduTag.exceptionResponse.asU8 :: tail := rfl
  rw [decode_service ⟨by decide, by decide⟩ hrest] at hr
  obtain ⟨_, r₁, -, hr⟩ := Prog.bind_ok hr
  obtain ⟨x, r₂, -, hr⟩ := Prog.bind_ok hr
  exact ⟨x, (Except.ok.inj (Prod.mk.inj hr).1).symm⟩

end Apdu

end Dlms
