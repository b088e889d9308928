import DlmsCosem.Acse.Decoding

/-!
# How long an association APDU gets

The contents of an association APDU are written if they are shorter than `2 ^ 32` bytes (`Measures`). An
APDU that was decoded can get longer: a title that stood in a primitive TLV is written in a constructed
one, and an AARE states its result and its diagnostic always. Any that is written is read back.
-/

namespace Dlms

open Ber

/-- `e` writes `n` bytes, if they can be counted in four bytes, as every length in it can. -/
structure Measures (e : Emit) (n : Nat) : Prop where
  size : WellSized e → e.size = n
  fits : n < 2 ^ 32 → e.Sized n

/-- How long a TLV is over contents of `n` bytes. -/
def tlvLength (n : Nat) : Nat := 1 + Emit.lengthSize n + n

namespace Measures

variable {a b body : Emit} {m n : Nat}

theorem append (ha : Measures a m) (hb : Measures b n) : Measures (a ++ b) (m + n) where
  size hw := by
    obtain ⟨hwa, hwb⟩ := hw.append
    rw [Emit.size, Emit.append_data hwa.1, List.length_append]
    exact congrArg₂ (· + ·) (ha.size hwa) (hb.size hwb)
  fits h := (ha.fits (by omega)).append (hb.fits (by omega))

theorem of_sized (h : a.Sized n) : Measures a n := ⟨fun _ => h.size, fun _ => h⟩

theorem opt {β : Type} {o : Option β} {enc : β → Emit} {len : β → Nat}
    (h : ∀ x, Measures (enc x) (len x)) : Measures (Ber.opt o enc) (o.elim 0 len) := by
  cases o with
  | none => exact of_sized ⟨rfl, rfl⟩
  | some x => exact h x

theorem tlv (tag : UInt8) (value : Bytes) : Measures (writeTlv tag value) (tlvLength value.length) := by
  have hsized (h : value.length < 2 ^ 32) : (writeTlv tag value).Sized (tlvLength value.length) :=
    ((Emit.Sized.u8 tag).append (Emit.length_sized h)).append (.bytes value)
  exact ⟨fun hw => (hsized hw.tlv).size, fun h => hsized (by unfold tlvLength at h; omega)⟩

theorem constructed (tag : UInt8) (h : Measures body n) :
    Measures (writeConstructed tag body) (tlvLength n) := by
  have hsized (hbody : body.Sized n) (hn : n < 2 ^ 32) :
      (writeConstructed tag body).Sized (tlvLength n) := by
    have hhead := (Emit.Sized.u8 tag).append (Emit.length_sized hn)
    rw [writeConstructed, hbody.fault]
    dsimp only
    rw [hbody.size]
    exact hhead.append hbody
  refine ⟨fun hw => ?_, fun hn => ?_⟩
  · obtain ⟨hbody, hlt⟩ := hw.constructed
    have hsize := h.size hbody
    exact (hsized ⟨hbody.1, hsize⟩ (by omega)).size
  · have hlt : n < 2 ^ 32 := by unfold tlvLength at hn; omega
    exact hsized (h.fits hlt) hlt

theorem octets (container inner : UInt8) (value : Bytes) :
    Measures (Dlms.octets container inner value) (tlvLength (tlvLength value.length)) :=
  constructed container (tlv inner value)

/-- An APDU is written if and only if its contents are shorter than `2 ^ 32` bytes. -/
theorem wellSized_iff (tag : UInt8) (h : Measures body n) :
    WellSized (writeConstructed tag body) ↔ n < 2 ^ 32 := by
  constructor
  · intro hw
    obtain ⟨hbody, hlt⟩ := hw.constructed
    rwa [h.size hbody] at hlt
  · intro hn
    have hbody := h.fits hn
    have hbound := Bounded.constructed tag ⟨hbody.fault, hbody.size.le⟩ hn
    exact ⟨hbound.1, by have := hbound.2; omega⟩

end Measures

/-- An octet string that may be missing, in its two TLVs. -/
def octetsLength (o : Option Bytes) : Nat := o.elim 0 fun b => tlvLength (tlvLength b.length)

theorem measures_octets (container inner : UInt8) (o : Option Bytes) :
    Measures (opt o (octets container inner)) (octetsLength o) := .opt (.octets container inner)

theorem measures_bit (b : Bool) (tag : UInt8) :
    Measures (if b then writeTlv tag [0x07, 0x80] else Emit.empty) (if b then 4 else 0) := by
  cases b with
  | false => exact .of_sized ⟨rfl, rfl⟩
  | true => exact .tlv tag _

theorem measures_context (o : Option ApplicationContext) :
    Measures (opt o fun c => writeConstructed 0xA1 (writeTlv 0x06 (oid 1 c.arc))) (o.elim 0 fun _ => 11) :=
  .opt fun c => .constructed 0xA1 (.tlv 0x06 (oid 1 c.arc))

theorem measures_mechanism (o : Option AuthMechanism) (tag : UInt8) :
    Measures (opt o fun m => writeTlv tag (oid 2 m.arc)) (o.elim 0 fun _ => 9) :=
  .opt fun m => .tlv tag (oid 2 m.arc)

namespace Aarq

/-- How long the contents are. -/
def contentsLength (a : Aarq) : Nat :=
  (a.applicationContext.elim 0 fun _ => 11) + octetsLength a.calledApTitle + octetsLength a.callingApTitle +
    octetsLength a.callingAeQualifier + (if a.senderAcseRequirements then 4 else 0) +
    (a.mechanismName.elim 0 fun _ => 9) + octetsLength a.callingAuthenticationValue +
    octetsLength a.userInformation

theorem measures_body (a : Aarq) : Measures a.body a.contentsLength :=
  ((((((((measures_context _).append (measures_octets ..)).append (measures_octets ..)).append
    (measures_octets ..)).append (measures_bit ..)).append (measures_mechanism ..)).append
    (measures_octets ..)).append (measures_octets ..))

theorem wellSized_iff (a : Aarq) : WellSized a.encode ↔ a.contentsLength < 2 ^ 32 :=
  a.measures_body.wellSized_iff 0x60

end Aarq

namespace Aare

/-- How long the contents are: five bytes are the result, and seven the diagnostic. -/
def contentsLength (a : Aare) : Nat :=
  (a.applicationContext.elim 0 fun _ => 11) + 5 + 7 + octetsLength a.respondingApTitle +
    (if a.responderAcseRequirements then 4 else 0) + (a.mechanismName.elim 0 fun _ => 9) +
    octetsLength a.respondingAuthenticationValue + octetsLength a.userInformation

theorem measures_body (a : Aare) : Measures a.body a.contentsLength := by
  have hbyte (container v : UInt8) : Measures (writeConstructed container (writeTlv 0x02 [v])) 5 :=
    .constructed container (.tlv 0x02 [v])
  have hdiag : Measures (diagnosticBody a.diagnostic) 5 := by
    unfold diagnosticBody
    split <;> exact hbyte _ _
  exact ((((((((measures_context _).append (hbyte ..)).append (.constructed 0xA3 hdiag)).append
    (measures_octets ..)).append (measures_bit ..)).append (measures_mechanism ..)).append
    (measures_octets ..)).append (measures_octets ..))

theorem wellSized_iff (a : Aare) : WellSized a.encode ↔ a.contentsLength < 2 ^ 32 :=
  a.measures_body.wellSized_iff 0x61

end Aare

/-! ## What was decoded -/

theorem Aarq.decode_canonical : decode.Yields Canonical := by
  refine (Prog.Yields.any _).bind fun outer _ => ?_
  split
  · exact .throw
  · refine .of_ok fun {s s' v} h => ?_
    rw [Prog.ofExcept_run] at h
    have hfields := foldTlvs_spec (P := Fields) ⟨rfl, rfl, rfl, rfl, rfl, rfl, rfl⟩
      (fun ts x t y => field_fields) (Prod.mk.inj h).1
    exact hfields.canonical

theorem Aare.decode_canonical : decode.Yields Canonical := by
  refine (Prog.Yields.any _).bind fun outer _ => ?_
  split
  · exact .throw
  · refine .of_ok fun {s s' v} h => ?_
    rw [Prog.ofExcept_run] at h
    have hfields := foldTlvs_spec (P := Fields) ⟨rfl, rfl, rfl, rfl, rfl, rfl, rfl⟩
      (fun ts x t y => field_fields) (Prod.mk.inj h).1
    exact hfields.canonical

/-! ## RLRQ and RLRE -/

namespace Release

def contentsLength (a : Release) : Nat := (a.reason.elim 0 fun _ => 3) + octetsLength a.userInformation

theorem measures_body (a : Release) : Measures a.body a.contentsLength := by
  have hreason : Measures (opt a.reason fun r => writeTlv 0x80 [r.asU8]) (a.reason.elim 0 fun _ => 3) :=
    .opt fun r => .tlv 0x80 [r.asU8]
  exact hreason.append (measures_octets ..)

theorem wellSized_iff (a : Release) (tag : UInt8) : WellSized (a.encodeAs tag) ↔ a.contentsLength < 2 ^ 32 :=
  a.measures_body.wellSized_iff tag

/-- A value whose reason is spelled as a decoder spells it. -/
def Canonical (a : Release) : Prop := ∀ r, a.reason = some r → .fromU8 r.asU8 = r

theorem folds_body {v : Release} (hv : v.Canonical) (hw : WellSized v.body) : Folds field {} v.body v := by
  have hreason (w : WellSized (opt v.reason fun r => writeTlv 0x80 [r.asU8])) :
      Folds field {} (opt v.reason fun r => writeTlv 0x80 [r.asU8]) (Release.mk v.reason none) :=
    .opt (fun o => Release.mk o none) rfl w fun r hr _ => .tlv rfl (by simp) fun o => by
      have hn : (⟨0x80, [r.asU8], o⟩ : Tlv).contextNumber = some 0 :=
        contextNumber_of_tag (show _ = (0x80 : UInt8) from rfl) rfl
      simp [field, hn, Tlv.asU8, hv r hr]
  have hinfo (w : WellSized (opt v.userInformation (octets 0xBE 0x04))) :
      Folds field (Release.mk v.reason none) _ v :=
    folds_opt_octets (n := 30) (Release.mk v.reason) rfl rfl rfl rfl rfl
      (fun t b ht ho => by simp [field, ht, ho]) w
  exact .snoc hw hreason hinfo

theorem takes {v : Release} (tag : UInt8) (htag : (tag &&& 0x1F == 0x1F) = false) (hv : v.Canonical)
    (hw : WellSized (v.encodeAs tag)) : Takes (decodeAs tag) (v.encodeAs tag).data (v = ·) :=
  takes_of_folds htag (fun r r' outer h ht => by
    rw [decodeAs, Prog.bind_run_ok h, if_neg (by simp [ht]), Prog.ofExcept_run]) (folds_body hv) hw

theorem canonical_field {v w : Release} {t : Tlv} (hv : v.Canonical) (h : field v t = .ok w) :
    w.Canonical := by
  unfold field at h
  split at h
  · obtain ⟨b, -, h⟩ := Result.bind_ok.mp h
    obtain rfl := Except.ok.inj h
    rintro _ ⟨⟩
    rw [ReleaseReason.asU8_fromU8]
  · obtain ⟨b, -, h⟩ := Result.bind_ok.mp h
    obtain rfl := Except.ok.inj h
    exact hv
  · obtain rfl := Except.ok.inj h
    exact hv

theorem decode_canonical {tag : UInt8} : (decodeAs tag).Yields Canonical := by
  refine (Prog.Yields.any _).bind fun outer _ => ?_
  split
  · exact .throw
  · refine .of_ok fun {s s' v} h => ?_
    rw [Prog.ofExcept_run] at h
    exact foldTlvs_spec (P := fun _ v => v.Canonical) nofun (fun _ _ _ _ => canonical_field)
      (Prod.mk.inj h).1

end Release

end Dlms
