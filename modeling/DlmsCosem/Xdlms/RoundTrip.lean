import DlmsCosem.Acse.Lengths
import DlmsCosem.Xdlms.Decoded

/-!
# An APDU is written and read again

Which APDUs come back equal from what is written of them (`Apdu.round_trip_iff`): all but those with a
value that is no number, with a compact array that is written somewhere else than where it was decoded,
with a counter in an exception that is not about counters, and protected APDUs under no protection. What
was decoded is written, unless the contents of an association APDU get too long.
-/

namespace Dlms

open Ber

namespace ApduTag

/-- A ciphered tag is the ciphered form of the plain tag that it leads to. -/
theorem protectedAs_unprotect {t service : ApduTag} {protection : Protection}
    (h : t.unprotect = some (protection, service)) :
    service.protectedAs protection = some t ∧ protection ≠ .none := by
  cases t <;> cases h <;> exact ⟨rfl, Protection.noConfusion⟩

end ApduTag

namespace Apdu

/-- Codes decode to themselves, lists hold as many elements as they count, and the values are values
that a program can hold. -/
def WellFormed : Apdu → Prop
  | aarq v => v.Canonical
  | aare v => v.Canonical
  | rlrq v | rlre v => v.Canonical
  | getRequest q => q.WellFormed
  | getResponse q => q.WellFormed
  | setRequest q => q.WellFormed
  | setResponse q => q.WellFormed
  | actionRequest q => q.WellFormed
  | actionResponse q => q.WellFormed
  | accessRequest q => q.WellFormed
  | accessResponse q => q.WellFormed
  | dataNotification q => q.body.Public
  | eventNotification q => q.value.Public
  | readRequest q => q.WellFormed
  | readResponse q => q.WellFormed
  | writeRequest q | unconfirmedWriteRequest q => q.WellFormed
  | writeResponse q => q.WellFormed
  | informationReportRequest q => q.WellFormed
  | exceptionResponse x => x.WellFormed
  | _ => True

/-- Protected under a key. -/
def Keyed : Apdu → Prop
  | ciphered protection _ _ | generalCiphered protection _ => protection ≠ .none
  | _ => True

/-- The APDU is equal to what is read back of it at `o`. The values stand behind the tag. -/
def Stays (a : Apdu) (o : Nat) : Prop :=
  match a with
  | getRequest q => q.Stays (o + 1)
  | getResponse q => q.Stays (o + 1)
  | setRequest q => q.Stays (o + 1)
  | actionRequest q => q.Stays (o + 1)
  | actionResponse q => q.Stays (o + 1)
  | dataNotification q => q.Stays (o + 1)
  | eventNotification q => q.Stays (o + 1)
  | exceptionResponse x => x.Stays
  | ciphered protection _ _ | generalCiphered protection _ => protection ≠ .none
  | _ => True

/-- The contents of an association APDU can be counted. -/
def Fits : Apdu → Prop
  | aarq v => v.contentsLength < 2 ^ 32
  | aare v => v.contentsLength < 2 ^ 32
  | rlrq v | rlre v => v.contentsLength < 2 ^ 32
  | _ => True

/-! ## Under each tag -/

theorem takes_skip (tag : ApduTag) (_ : WellSized (Emit.u8 tag.asU8)) :
    Takes (Read.skip 1) (Emit.u8 tag.asU8).data fun _ => True :=
  (Takes.take [tag.asU8]).map fun _ _ => trivial

theorem restores_service (tag : ApduTag) (htag : tag.Service) {e : Emit} {S : Nat → Prop}
    {P : Apdu → Prop} (h : RestoresAll (decodePlain tag) e S P) :
    RestoresAll decode (Emit.u8 tag.asU8 ++ e) (fun o => S (o + 1)) P :=
  (RestoresAll.after (takes_skip tag) fun _ _ => h).of_run fun _ _ hr => decode_service htag hr

theorem decode_ciphered {tag service : ApduTag} {protection : Protection}
    (h : tag.unprotect = some (protection, service)) {r : Reader} {tail : Bytes}
    (hr : r.rest = tag.asU8 :: tail) : decode r = (do
      Read.skip 1
      return ciphered protection service (← CipheredService.decode) : Read Apdu) r := by
  unfold decode
  rw [Prog.bind_run_ok (Read.peekU8_run hr), ApduTag.fromU8_asU8]
  cases tag <;> cases h <;> rfl

theorem restores_ciphered {tag service : ApduTag} {protection : Protection}
    (h : tag.unprotect = some (protection, service)) (body : CipheredService) :
    RestoresAll decode (Emit.u8 tag.asU8 ++ body.encode) (fun _ => True)
      ((ciphered protection service body).eq · = true) := by
  have hbody : RestoresAll (do return ciphered protection service (← CipheredService.decode))
      body.encode (fun _ => True) ((ciphered protection service body).eq · = true) :=
    ((body.regains.restores fun _ => Iff.rfl).map fun b => by simp [eq]).all
  exact (RestoresAll.after (takes_skip tag) fun _ _ => hbody).of_run fun _ _ hr => decode_ciphered h hr

/-- An association APDU begins with its tag. -/
theorem peek_constructed {tag : UInt8} {body : Emit} (hw : WellSized (writeConstructed tag body))
    {r : Reader} (hr : r.rest = (writeConstructed tag body).data) : Read.peekU8 r = (.ok tag, r) := by
  obtain ⟨hbody, hlt⟩ := hw.constructed
  rw [(writeConstructed_of_fits tag hbody.1 hlt).2, writeTlv_data tag hlt, List.singleton_append] at hr
  exact Read.peekU8_run hr

/-- An association APDU is read whole, with its tag. -/
theorem restores_association {α : Type} {m : Read α} {g : α → Apdu} {tag : UInt8} {body : Emit} {v : α}
    (hrun : ∀ r, Read.peekU8 r = (.ok tag, r) → decode r = (m >>= fun a => pure (g a)) r)
    (hm : WellSized (writeConstructed tag body) → Takes m (writeConstructed tag body).data (v = ·))
    (hg : ∀ b, (g v).eq (g b) = true ↔ v = b) :
    RestoresAll decode (writeConstructed tag body) (fun _ => True) ((g v).eq · = true) :=
  ((Restores.of_takes hm).map hg).all.of_run fun hw r hr => hrun r (peek_constructed hw hr)

/-! ## Any APDU -/

/-- What was protected under no key does not come back as that. -/
theorem never_restores {a : Apdu} {e : Emit} {S : Nat → Prop} (hdecode : decode.Yields Keyed)
    (ha : ∀ b, a.eq b = true → ¬ b.Keyed) (hs : ∀ o, ¬ S o) :
    RestoresAll decode e S (a.eq · = true) := by
  intro hw r hr
  constructor
  · rintro ⟨b, r', hb, -, heq⟩
    exact absurd (hdecode.of_run hb) (ha b heq)
  · intro ho
    exact absurd ho (hs _)

theorem decodePlain_keyed (tag : ApduTag) : (decodePlain tag).Yields Keyed := by
  cases tag with
  | generalGloCiphering => exact (Prog.Yields.any _).map fun _ _ => Protection.noConfusion
  | generalDedCiphering => exact (Prog.Yields.any _).map fun _ _ => Protection.noConfusion
  | gatewayRequest =>
    exact (Prog.Yields.any _).bind fun _ _ => (Prog.Yields.any _).bind fun _ _ =>
      (Prog.Yields.any _).map fun _ _ => trivial
  | gatewayResponse =>
    exact (Prog.Yields.any _).bind fun _ _ => (Prog.Yields.any _).bind fun _ _ =>
      (Prog.Yields.any _).map fun _ _ => trivial
  | _ => first
    | exact Read.yields_errBack _ _ _
    | exact (Prog.Yields.any _).map fun _ _ => trivial

theorem decode_keyed : decode.Yields Keyed := by
  refine (Prog.Yields.any _).bind fun b _ => ?_
  split
  · exact Read.yields_fail _ _
  · exact (Prog.Yields.any _).map fun _ _ => trivial
  · exact (Prog.Yields.any _).map fun _ _ => trivial
  · exact (Prog.Yields.any _).map fun _ _ => trivial
  · exact (Prog.Yields.any _).map fun _ _ => trivial
  · refine (Prog.Yields.any _).bind fun _ _ => ?_
    split
    · rename_i hun
      exact (Prog.Yields.any _).map fun _ _ => (ApduTag.protectedAs_unprotect hun).2
    · exact decodePlain_keyed _

theorem restores_protected {protection : Protection} {service : ApduTag} (body : CipheredService) :
    RestoresAll decode (ciphered protection service body).encode (fun _ => protection ≠ .none)
      ((ciphered protection service body).eq · = true) := by
  by_cases hp : protection = .none
  · refine never_restores decode_keyed (fun b hb => ?_) fun _ h => h hp
    cases b <;> simp [eq, Keyed] at hb ⊢
    exact hb.1.symm.trans hp
  · cases hs : service.protectedAs protection with
    | none =>
      intro hw
      have hfault := hw.1
      rw [encode, hs] at hfault
      cases hfault
    | some tag =>
      have henc : (ciphered protection service body).encode = Emit.u8 tag.asU8 ++ body.encode := by
        rw [encode, hs]
      rw [henc]
      exact (restores_ciphered (ApduTag.unprotect_protectedAs hp hs) body).congr fun _ =>
        ⟨fun _ => hp, fun _ => trivial⟩

theorem restores_generalCiphered (protection : Protection) (body : GeneralGloCiphering) :
    RestoresAll decode (generalCiphered protection body).encode (fun _ => protection ≠ .none)
      ((generalCiphered protection body).eq · = true) := by
  cases protection with
  | none =>
    refine never_restores decode_keyed (fun b hb => ?_) fun _ h => h rfl
    cases b <;> simp [eq, Keyed] at hb ⊢
    exact hb.1.symm
  | global =>
    exact (restores_service .generalGloCiphering ⟨by decide, by decide⟩
      ((body.regains.restores fun _ => Iff.rfl).map fun b => by simp [eq]).all).congr fun _ => by simp
  | dedicated =>
    exact (restores_service .generalDedCiphering ⟨by decide, by decide⟩
      ((body.regains.restores fun _ => Iff.rfl).map fun b => by simp [eq]).all).congr fun _ => by simp

/-- The payload of a gateway APDU is all that is left. -/
theorem restores_gateway (response : Bool) (networkId : UInt8) (address payload : Bytes) :
    RestoresAll (do return gateway response (← Read.u8) (← Read.lengthPrefixed) (← Read.takeRest))
      (Emit.u8 networkId ++ Emit.lengthPrefixed address ++ Emit.bytes payload) (fun _ => True)
      ((gateway response networkId address payload).eq · = true) := by
  rw [Emit.append_assoc]
  refine RestoresAll.after (S := fun _ => True) (Regains.u8 networkId).takes fun n hn =>
    RestoresAll.after (S := fun _ => True) (Regains.lengthPrefixed address).takes fun bs hbs =>
      (RestoresAll.takeRest payload).map fun p => ?_
  simp [eq, ← hn, ← hbs]

theorem restores {a : Apdu} (h : a.WellFormed) :
    RestoresAll decode a.encode a.Stays (a.eq · = true) := by
  cases a with
  | aarq v =>
    exact restores_association (g := aarq) (fun r hr => by unfold decode; rw [Prog.bind_run_ok hr]; rfl)
      (Aarq.takes h) fun b => by simp [eq]
  | aare v =>
    exact restores_association (g := aare) (fun r hr => by unfold decode; rw [Prog.bind_run_ok hr]; rfl)
      (Aare.takes h) fun b => by simp [eq]
  | rlrq v =>
    exact restores_association (g := rlrq) (fun r hr => by unfold decode; rw [Prog.bind_run_ok hr]; rfl)
      (Release.takes 0x62 rfl h) fun b => by simp [eq]
  | rlre v =>
    exact restores_association (g := rlre) (fun r hr => by unfold decode; rw [Prog.bind_run_ok hr]; rfl)
      (Release.takes 0x63 rfl h) fun b => by simp [eq]
  | initiateRequest q =>
    exact restores_service .initiateRequest ⟨by decide, by decide⟩
      ((q.regains.restores fun _ => Iff.rfl).map fun b => by simp [eq]).all
  | initiateResponse q =>
    exact restores_service .initiateResponse ⟨by decide, by decide⟩
      ((q.readsBack.regains.restores fun _ => Iff.rfl).map fun b => by simp [eq]).all
  | getRequest q =>
    exact restores_service .getRequest ⟨by decide, by decide⟩
      ((GetRequest.restores h).map fun _ => Iff.rfl).all
  | getResponse q =>
    exact restores_service .getResponse ⟨by decide, by decide⟩
      ((GetResponse.restores h).map fun _ => Iff.rfl).all
  | setRequest q =>
    exact restores_service .setRequest ⟨by decide, by decide⟩
      ((SetRequest.restores h).map fun _ => Iff.rfl).all
  | setResponse q =>
    exact restores_service .setResponse ⟨by decide, by decide⟩
      ((SetResponse.restores h).map fun _ => Iff.rfl).all
  | actionRequest q =>
    exact restores_service .actionRequest ⟨by decide, by decide⟩
      ((ActionRequest.restores h).map fun _ => Iff.rfl).all
  | actionResponse q =>
    exact restores_service .actionResponse ⟨by decide, by decide⟩
      ((ActionResponse.restores h).map fun _ => Iff.rfl).all
  | accessRequest q =>
    exact restores_service .accessRequest ⟨by decide, by decide⟩
      ((AccessRequest.restores h).map fun _ => Iff.rfl).all
  | accessResponse q =>
    exact restores_service .accessResponse ⟨by decide, by decide⟩
      ((AccessResponse.restores h).map fun _ => Iff.rfl).all
  | dataNotification q =>
    exact restores_service .dataNotification ⟨by decide, by decide⟩
      ((DataNotification.restores h).map fun _ => Iff.rfl).all
  | eventNotification q =>
    exact restores_service .eventNotificationRequest ⟨by decide, by decide⟩
      ((EventNotification.restores h).map fun _ => Iff.rfl).all
  | readRequest q =>
    exact restores_service .readRequest ⟨by decide, by decide⟩
      ((ReadRequest.restores h).map fun _ => Iff.rfl).all
  | readResponse q =>
    exact restores_service .readResponse ⟨by decide, by decide⟩
      ((ReadResponse.restores h).map fun _ => Iff.rfl).all
  | writeRequest q =>
    exact restores_service .writeRequest ⟨by decide, by decide⟩
      ((WriteRequest.restores h).map fun _ => Iff.rfl).all
  | writeResponse q =>
    exact restores_service .writeResponse ⟨by decide, by decide⟩
      ((WriteResponse.restores h).map fun _ => Iff.rfl).all
  | unconfirmedWriteRequest q =>
    exact restores_service .unconfirmedWriteRequest ⟨by decide, by decide⟩
      ((WriteRequest.restores h).map fun _ => Iff.rfl).all
  | informationReportRequest q =>
    exact restores_service .informationReportRequest ⟨by decide, by decide⟩
      ((InformationReportRequest.restores h).map fun _ => Iff.rfl).all
  | exceptionResponse x =>
    exact restores_service .exceptionResponse ⟨by decide, by decide⟩
      ((ExceptionResponse.restores h).map fun b => by simp [eq])
  | confirmedServiceError x =>
    exact restores_service .confirmedServiceError ⟨by decide, by decide⟩
      ((x.regains.restores fun _ => Iff.rfl).map fun b => by simp [eq]).all
  | generalBlockTransfer g =>
    exact restores_service .generalBlockTransfer ⟨by decide, by decide⟩
      ((g.regains.restores fun _ => Iff.rfl).map fun b => by simp [eq]).all
  | ciphered protection service body => exact restores_protected body
  | generalCiphered protection body => exact restores_generalCiphered protection body
  | generalCiphering g =>
    exact restores_service .generalCiphering ⟨by decide, by decide⟩
      ((g.regains.restores fun _ => Iff.rfl).map fun b => by simp [eq]).all
  | generalSigning g =>
    exact restores_service .generalSigning ⟨by decide, by decide⟩
      ((g.regains.restores fun _ => Iff.rfl).map fun b => by simp [eq]).all
  | gateway response networkId address payload =>
    cases response with
    | false => exact restores_service .gatewayRequest ⟨by decide, by decide⟩ (restores_gateway _ networkId address payload)
    | true => exact restores_service .gatewayResponse ⟨by decide, by decide⟩ (restores_gateway _ networkId address payload)

/-! ## What was decoded -/

/-- A decoded APDU is well formed, and is written if its contents can be counted. -/
def Canonical (a : Apdu) : Prop := a.WellFormed ∧ (a.Fits → a.encode.fault = none)

theorem canonical_map {α : Type} {m : Read α} {g : α → Apdu} {W : α → Prop} {enc : α → Emit}
    (h : m.Sound W enc) (hw : ∀ a, W a → (g a).WellFormed)
    (hg : ∀ a, (g a).encode = Emit.u8 (g a).tag.asU8 ++ enc a) :
    (m >>= fun a => pure (g a)).Yields Canonical :=
  h.map fun a ha => ⟨hw a ha.1, fun _ => by rw [hg]; exact Emit.append_fault_eq_none.mpr ⟨rfl, ha.2⟩⟩

theorem canonical_any {α : Type} (m : Read α) {g : α → Apdu} (hw : ∀ a, (g a).WellFormed)
    (hg : ∀ a, (g a).encode.fault = none) : (m >>= fun a => pure (g a)).Yields Canonical :=
  (Prog.Yields.any m).map fun a _ => ⟨hw a, fun _ => hg a⟩

theorem canonical_gateway (response : Bool) :
    Prog.Yields (do return gateway response (← Read.u8) (← Read.lengthPrefixed) (← Read.takeRest) : Read Apdu)
      Canonical := by
  refine (Prog.Yields.any _).bind fun n _ => Read.Sound.lengthPrefixed.bind fun bs hbs =>
    (Prog.Yields.any _).map fun p _ => ⟨trivial, fun _ => ?_⟩
  have henc : (gateway response n bs p).encode = Emit.u8 (gateway response n bs p).tag.asU8 ++
      (Emit.u8 n ++ Emit.lengthPrefixed bs ++ Emit.bytes p) := rfl
  simp [henc, Emit.append_fault_eq_none, hbs.2]

theorem decodePlain_canonical (tag : ApduTag) : (decodePlain tag).Yields Canonical := by
  cases tag with
  | initiateRequest => exact canonical_map InitiateRequest.decode_sound (fun _ _ => trivial) fun _ => rfl
  | initiateResponse => exact canonical_any _ (fun _ => trivial) fun q => (q.readsBack).fault
  | getRequest => exact canonical_map GetRequest.decode_sound (fun _ h => h) fun _ => rfl
  | getResponse => exact canonical_map GetResponse.decode_sound (fun _ h => h) fun _ => rfl
  | setRequest => exact canonical_map SetRequest.decode_sound (fun _ h => h) fun _ => rfl
  | setResponse => exact canonical_map SetResponse.decode_sound (fun _ h => h) fun _ => rfl
  | actionRequest => exact canonical_map ActionRequest.decode_sound (fun _ h => h) fun _ => rfl
  | actionResponse => exact canonical_map ActionResponse.decode_sound (fun _ h => h) fun _ => rfl
  | accessRequest => exact canonical_map AccessRequest.decode_sound (fun _ h => h) fun _ => rfl
  | accessResponse => exact canonical_map AccessResponse.decode_sound (fun _ h => h) fun _ => rfl
  | dataNotification => exact canonical_map DataNotification.decode_sound (fun _ h => h) fun _ => rfl
  | eventNotificationRequest =>
    exact canonical_map EventNotification.decode_sound (fun _ h => h) fun _ => rfl
  | readRequest => exact canonical_map ReadRequest.decode_sound (fun _ h => h) fun _ => rfl
  | readResponse => exact canonical_map ReadResponse.decode_sound (fun _ h => h) fun _ => rfl
  | writeRequest => exact canonical_map WriteRequest.decode_sound (fun _ h => h) fun _ => rfl
  | writeResponse => exact canonical_map WriteResponse.decode_sound (fun _ h => h) fun _ => rfl
  | unconfirmedWriteRequest => exact canonical_map WriteRequest.decode_sound (fun _ h => h) fun _ => rfl
  | informationReportRequest =>
    exact canonical_map InformationReportRequest.decode_sound (fun _ h => h) fun _ => rfl
  | exceptionResponse => exact canonical_map ExceptionResponse.decode_sound (fun _ h => h) fun _ => rfl
  | confirmedServiceError => exact canonical_any _ (fun _ => trivial) fun _ => rfl
  | generalBlockTransfer =>
    exact canonical_map GeneralBlockTransfer.decode_sound (fun _ _ => trivial) fun _ => rfl
  | generalGloCiphering =>
    exact canonical_map GeneralGloCiphering.decode_sound (fun _ _ => trivial) fun _ => rfl
  | generalDedCiphering =>
    exact canonical_map GeneralGloCiphering.decode_sound (fun _ _ => trivial) fun _ => rfl
  | generalCiphering => exact canonical_map GeneralCiphering.decode_sound (fun _ _ => trivial) fun _ => rfl
  | generalSigning => exact canonical_map GeneralSigning.decode_sound (fun _ _ => trivial) fun _ => rfl
  | gatewayRequest => exact canonical_gateway false
  | gatewayResponse => exact canonical_gateway true
  | _ => exact Read.yields_errBack _ _ _

theorem decode_canonical : decode.Yields Canonical := by
  refine (Prog.Yields.any _).bind fun b _ => ?_
  split
  · exact Read.yields_fail _ _
  · exact Aarq.decode_canonical.map fun v h => ⟨h, fun hfits => (v.wellSized_iff.mpr hfits).1⟩
  · exact Aare.decode_canonical.map fun v h => ⟨h, fun hfits => (v.wellSized_iff.mpr hfits).1⟩
  · exact Release.decode_canonical.map fun v h =>
      ⟨h, fun hfits => ((Release.wellSized_iff v 0x62).mpr hfits).1⟩
  · exact Release.decode_canonical.map fun v h =>
      ⟨h, fun hfits => ((Release.wellSized_iff v 0x63).mpr hfits).1⟩
  · refine (Prog.Yields.any _).bind fun _ _ => ?_
    split
    · rename_i hun
      refine CipheredService.decode_sound.map fun body hbody => ⟨trivial, fun _ => ?_⟩
      rw [encode, (ApduTag.protectedAs_unprotect hun).1]
      exact Emit.append_fault_eq_none.mpr ⟨rfl, hbody.2⟩
    · exact decodePlain_canonical _

/-- An APDU that is written fits. -/
theorem fits_of_wellSized {a : Apdu} (hw : WellSized a.encode) : a.Fits := by
  cases a with
  | aarq v => exact v.wellSized_iff.mp hw
  | aare v => exact v.wellSized_iff.mp hw
  | rlrq v => exact (Release.wellSized_iff v 0x62).mp hw
  | rlre v => exact (Release.wellSized_iff v 0x63).mp hw
  | _ => trivial

/-! ## There and back -/

/-- `buf` takes the APDU, and an equal one is read of what was written there. -/
def ComesBackIn (a : Apdu) (buf : Bytes) : Prop :=
  ∃ out b, SliceWriter.encodeInto a.encode buf = .ok out ∧ fromBytes out = .ok b ∧ a.eq b = true

/-- What comes back of a well-formed APDU that was written. -/
theorem comes_back_iff {a : Apdu} (h : a.WellFormed) {buf out : Bytes} (hbuf : buf.length < 2 ^ 63)
    (hout : SliceWriter.encodeInto a.encode buf = .ok out) :
    (∃ b, fromBytes out = .ok b ∧ a.eq b = true) ↔ a.Stays 0 := by
  obtain ⟨hf, rfl, hsize⟩ := SliceWriter.encodeInto_ok hout
  exact (restores h).fromBytes ⟨hf, by omega⟩

/-- What was decoded is written into every buffer that is large enough and comes back equal, if and only
if it fits and stays; and what is well formed comes back equal, where it is written, if and only if it
stays. A buffer is at most `isize::MAX` bytes long. -/
theorem round_trip_iff (a : Apdu) {buf : Bytes} (hbuf : buf.length < 2 ^ 63) :
    (∀ bytes, fromBytes bytes = .ok a → a.encode.size ≤ buf.length →
      (a.ComesBackIn buf ↔ a.Fits ∧ a.Stays 0)) ∧
    (a.WellFormed → ∀ out, SliceWriter.encodeInto a.encode buf = .ok out →
      ((∃ b, fromBytes out = .ok b ∧ a.eq b = true) ↔ a.Stays 0)) := by
  refine ⟨fun bytes hbytes hroom => ?_, fun h out hout => comes_back_iff h hbuf hout⟩
  obtain ⟨r, hr, -⟩ := Read.fromBytes_ok hbytes
  obtain ⟨hwell, hwritten⟩ := decode_canonical.of_run hr
  constructor
  · rintro ⟨out, b, hout, hb, heq⟩
    obtain ⟨hf, -, hsize⟩ := SliceWriter.encodeInto_ok hout
    exact ⟨fits_of_wellSized ⟨hf, by omega⟩, (comes_back_iff hwell hbuf hout).mp ⟨b, hb, heq⟩⟩
  · rintro ⟨hfits, hstays⟩
    have hout := SliceWriter.encodeInto_fits (hwritten hfits) hroom
    obtain ⟨b, hb, heq⟩ := (comes_back_iff hwell hbuf hout).mpr hstays
    exact ⟨_, b, hout, hb, heq⟩

/-- A counter that is written and not read; and a notification that was decoded from a length in a longer
form, whose compact array is written a byte further in front. -/
theorem round_trip_fails :
    ((exceptionResponse ⟨.serviceNotAllowed, .operationNotPossible, some 5⟩).WellFormed ∧
      SliceWriter.encodeInto (exceptionResponse ⟨.serviceNotAllowed, .operationNotPossible, some 5⟩).encode
        (List.replicate 16 0) = .ok [0xD8, 1, 1, 0, 0, 0, 5] ∧
      fromBytes [0xD8, 1, 1, 0, 0, 0, 5] = .error ⟨.invalidLength, 3⟩) ∧
    ∃ a b, fromBytes [0x0F, 0, 0, 0, 1, 0x81, 0x00, 0x13, 0x11, 0x02, 7, 9] = .ok a ∧
      SliceWriter.encodeInto a.encode (List.replicate 16 0) =
        .ok [0x0F, 0, 0, 0, 1, 0x00, 0x13, 0x11, 0x02, 7, 9] ∧
      fromBytes [0x0F, 0, 0, 0, 1, 0x00, 0x13, 0x11, 0x02, 7, 9] = .ok b ∧ a.eq b = false := by
  refine ⟨⟨⟨rfl, rfl⟩, by decide +kernel, by decide +kernel⟩,
    dataNotification ⟨⟨1⟩, ⟨none⟩, .compactArray ⟨[0x11], [7, 9], 8, 10, 15⟩⟩,
    dataNotification ⟨⟨1⟩, ⟨none⟩, .compactArray ⟨[0x11], [7, 9], 7, 9, 15⟩⟩, ?_⟩
  decide +kernel

/-- The notification from the length in the shortest form comes back, and the exception does not. -/
theorem round_trip_iff_sample :
    (dataNotification ⟨⟨1⟩, ⟨none⟩, .compactArray ⟨[0x11], [7, 9], 7, 9, 15⟩⟩).ComesBackIn
        (List.replicate 16 0) ∧
      ¬ ∃ b, fromBytes [0xD8, 1, 1, 0, 0, 0, 5] = .ok b ∧
        (exceptionResponse ⟨.serviceNotAllowed, .operationNotPossible, some 5⟩).eq b = true := by
  have hbuf : (List.replicate 16 (0 : UInt8)).length < 2 ^ 63 := by decide
  refine ⟨?_, fun h => ?_⟩
  · exact ((round_trip_iff _ hbuf).1 [0x0F, 0, 0, 0, 1, 0x00, 0x13, 0x11, 0x02, 7, 9] (by decide +kernel)
      (by decide +kernel)).mpr ⟨trivial, rfl, rfl, rfl⟩
  · have hstays := ((round_trip_iff (exceptionResponse ⟨.serviceNotAllowed, .operationNotPossible, some 5⟩)
      hbuf).2 ⟨rfl, rfl⟩ _ (by decide +kernel)).mp h
    cases hstays rfl

end Apdu

end Dlms
