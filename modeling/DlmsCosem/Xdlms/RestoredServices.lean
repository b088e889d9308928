import DlmsCosem.Xdlms.Restored

/-!
# The other services, read again

`Restored` for ACCESS, the short-name services, the notifications, the errors, and what stands after the
tag of a protected APDU.
-/

namespace Dlms

open Ber

theorem OptionalDateTime.regains (t : OptionalDateTime) : Regains decode t.encode t := fun _ =>
  ⟨t.encode_sized.fault, t.takes⟩

/-! ## ACCESS -/

namespace AccessRequest

def WellFormed (q : AccessRequest) : Prop :=
  q.specification.Holds AccessRequestSpecification.decode ∧ q.data.Holds Data.decode

theorem restores {q : AccessRequest} (h : q.WellFormed) :
    Restores decode q.encode (fun _ => True) (q.eq · = true) := by
  obtain ⟨⟨i⟩, t, spec, data⟩ := q
  unfold encode
  simp only [Emit.append_assoc]
  refine .congr (.bind (.u32 i) (.bind t.regains
    ((WireList.Holds.restores AccessRequestSpecification.decode_echoes h.1).andThen
      (WireList.Holds.restores (Data.decodeAt_echoes maxDepth) h.2) fun spec' data' => ?_)))
    fun o => and_iff_left trivial
  simp [eq]

end AccessRequest

namespace AccessResponse

def WellFormed (q : AccessResponse) : Prop :=
  (∀ l, q.requestSpecification = some l → l.Holds AccessRequestSpecification.decode) ∧
    q.data.Holds Data.decode ∧ q.responseSpecification.Holds AccessResponseSpecification.decode

theorem restores {q : AccessResponse} (h : q.WellFormed) :
    Restores decode q.encode (fun _ => True) (q.eq · = true) := by
  obtain ⟨⟨i⟩, t, spec, data, results⟩ := q
  obtain ⟨hspec, hdata, hresults⟩ := h
  have hspec := Restores.optional fun l hl =>
    WireList.Holds.restores AccessRequestSpecification.decode_echoes (hspec l hl)
  unfold encode
  simp only [Emit.append_assoc]
  refine .congr (.bind (.u32 i) (.bind t.regains
    (.after (hspec.takes fun _ _ _ => trivial) fun spec' hspec' =>
      (WireList.Holds.restores (Data.decodeAt_echoes maxDepth) hdata).andThen
        (WireList.Holds.restores AccessResponseSpecification.decode_echoes hresults) fun data' results' => ?_)))
    fun o => and_iff_left trivial
  simp [eq, hspec']

end AccessResponse

/-! ## Short names -/

namespace ReadRequest

def WellFormed (q : ReadRequest) : Prop := q.specification.Holds VariableAccess.decode

theorem restores {q : ReadRequest} (h : q.WellFormed) :
    Restores decode q.encode (fun _ => True) (q.eq · = true) :=
  (WireList.Holds.restores VariableAccess.decode_echoes h).map fun _ => Iff.rfl

end ReadRequest

namespace ReadResponse

def WellFormed (q : ReadResponse) : Prop := q.results.Holds ReadResult.decode

theorem restores {q : ReadResponse} (h : q.WellFormed) :
    Restores decode q.encode (fun _ => True) (q.eq · = true) :=
  (WireList.Holds.restores ReadResult.decode_echoes h).map fun _ => Iff.rfl

end ReadResponse

namespace WriteRequest

def WellFormed (q : WriteRequest) : Prop :=
  q.specification.Holds VariableAccess.decode ∧ q.values.Holds Data.decode

theorem restores {q : WriteRequest} (h : q.WellFormed) :
    Restores decode q.encode (fun _ => True) (q.eq · = true) := by
  refine .congr ((WireList.Holds.restores VariableAccess.decode_echoes h.1).andThen
    (WireList.Holds.restores (Data.decodeAt_echoes maxDepth) h.2) fun spec' values' => ?_)
    fun o => and_iff_left trivial
  simp [eq]

end WriteRequest

namespace WriteResponse

def WellFormed (q : WriteResponse) : Prop := q.results.Holds WriteResult.decode

theorem restores {q : WriteResponse} (h : q.WellFormed) :
    Restores decode q.encode (fun _ => True) (q.eq · = true) :=
  (WireList.Holds.restores WriteResult.decode_echoes h).map fun _ => Iff.rfl

end WriteResponse

namespace InformationReportRequest

def WellFormed (q : InformationReportRequest) : Prop :=
  q.specification.Holds VariableAccess.decode ∧ q.values.Holds Data.decode

theorem restores {q : InformationReportRequest} (h : q.WellFormed) :
    Restores decode q.encode (fun _ => True) (q.eq · = true) := by
  obtain ⟨time, spec, values⟩ := q
  unfold encode
  simp only [Emit.append_assoc]
  refine .congr (.bind (.optional fun t _ => .lengthPrefixed t)
    ((WireList.Holds.restores VariableAccess.decode_echoes h.1).andThen
      (WireList.Holds.restores (Data.decodeAt_echoes maxDepth) h.2) fun spec' values' => ?_))
    fun o => and_iff_left trivial
  simp [eq]

end InformationReportRequest

/-! ## Notifications -/

namespace DataNotification

/-- Behind the invoke id and the time. -/
def Stays (q : DataNotification) (o : Nat) : Prop :=
  q.body.Stays (o + 4 + if q.dateTime.val.isSome then 13 else 1)

theorem restores {q : DataNotification} (h : q.body.Public) :
    Restores decode q.encode q.Stays (q.eq · = true) := by
  obtain ⟨⟨i⟩, t, body⟩ := q
  unfold encode
  simp only [Emit.append_assoc]
  refine .congr (.bind (.u32 i) (.bind t.regains (h.restores.map fun d => ?_))) fun o => ?_
  · simp [eq]
  · unfold Stays
    rw [t.encode_sized.size]
    exact Iff.rfl

end DataNotification

namespace EventNotification

theorem regains_time (t : DateTime) : Regains decodeTime (Emit.lengthPrefixed t.toBytes) t := by
  have hlen : t.toBytes.length = 12 := rfl
  have hbytes : ReadsBack Read.lengthPrefixed (Emit.lengthPrefixed t.toBytes) t.toBytes :=
    .lengthPrefixed (by rw [hlen]; norm_num)
  refine fun _ => ⟨hbytes.fault, ?_⟩
  have htime : Takes decodeTime ((Emit.lengthPrefixed t.toBytes).data ++ []) (t = ·) :=
    hbytes.takes.bind fun bs hbs => by
      subst hbs
      rw [if_pos hlen, DateTime.fromBytes_toBytes]
      exact .pure rfl
  rwa [List.append_nil] at htime

/-- Behind the time and the descriptor. -/
def Stays (q : EventNotification) (o : Nat) : Prop :=
  q.value.Stays (o + (if q.time.isSome then 14 else 1) + 9)

theorem restores {q : EventNotification} (h : q.value.Public) :
    Restores decode q.encode q.Stays (q.eq · = true) := by
  obtain ⟨time, d, value⟩ := q
  unfold encode
  simp only [Emit.append_assoc]
  refine .congr (.bind (.optional fun t _ => regains_time t) (.bind d.regains (h.restores.map fun v => ?_)))
    fun o => ?_
  · simp [eq]
  · cases time <;> exact Iff.rfl

end EventNotification

/-! ## Initiate and the errors -/

theorem InitiateRequest.regains (q : InitiateRequest) : Regains decode q.encode q := by
  obtain ⟨key, allowed, quality, version, conformance, maxPdu⟩ := q
  unfold encode
  simp only [Emit.append_assoc]
  refine (Regains.optional fun key _ => .lengthPrefixed key).bind ?_
  refine (Regains.optional fun v _ => .bool v).bind ?_
  refine (Regains.optional fun v _ => (ReadsBack.mk rfl (.i8 v)).regains).bind ?_
  exact (Regains.u8 version).bind (conformance.readsBack.regains.bind (Regains.u16 maxPdu).map)

theorem ConfirmedServiceError.regains (x : ConfirmedServiceError) : Regains decode x.encode x := fun _ =>
  ⟨rfl, (Takes.u8 x.service).bind fun a ha => (Takes.u8 x.errorClass).bind fun b hb =>
    (Takes.u8 x.errorCode).map fun c hc => by rw [← ha, ← hb, ← hc]⟩

namespace ExceptionResponse

def WellFormed (x : ExceptionResponse) : Prop :=
  .fromU8 x.stateError.asU8 = x.stateError ∧ .fromU8 x.serviceError.asU8 = x.serviceError

/-- A counter is read with the counter error only. -/
def Stays (x : ExceptionResponse) : Prop :=
  x.expectedInvocationCounter.isSome = true → x.serviceError = .invocationCounterError

instance (x : ExceptionResponse) : Decidable x.Stays := by unfold Stays; infer_instance

theorem restores {x : ExceptionResponse} (h : x.WellFormed) :
    RestoresAll decode x.encode (fun _ => x.Stays) (x = ·) := by
  obtain ⟨state, service, counter⟩ := x
  obtain ⟨hstate, hservice⟩ := h
  unfold encode
  rw [Emit.append_assoc]
  refine RestoresAll.after (S := fun _ => Stays ⟨state, service, counter⟩) (Regains.u8 state.asU8).takes
    fun a ha => RestoresAll.after (S := fun _ => Stays ⟨state, service, counter⟩)
      (Regains.u8 service.asU8).takes fun b hb => ?_
  subst ha hb
  dsimp only at hstate hservice ⊢
  rw [hstate, hservice]
  intro hw r hr
  have hlen := r.length_rest
  have hrun (k : Nat → Read ExceptionResponse) : (Read.remaining >>= k) r = k r.remaining r :=
    Prog.gets_bind_run ..
  rw [hrun]
  cases counter with
  | none =>
    have hrem : r.remaining = 0 := by rw [← hlen, hr]; rfl
    rw [hrem, if_neg (by simp)]
    exact ⟨fun _ => nofun, fun _ => ⟨_, r, rfl, hr, rfl⟩⟩
  | some ic =>
    have hrem : r.remaining = 4 := by rw [← hlen, hr]; rfl
    by_cases hs : service = .invocationCounterError
    · obtain ⟨ic', r', hic, rfl, hadv⟩ := Takes.u32 ic r [] (by rw [hr, List.append_nil])
      rw [hrem, if_pos (by simp [hs])]
      refine ⟨fun _ _ => hs, fun _ => ⟨_, r', Prog.bind_run_ok hic, ?_, rfl⟩⟩
      rw [hadv.rest, hr]
      exact List.drop_length
    · -- The four bytes are left over.
      rw [hrem, if_neg (by simp [hs])]
      constructor
      · rintro ⟨a, r', hrun, hend, -⟩
        obtain ⟨-, rfl⟩ := Prod.mk.inj hrun
        rw [hend, hrem] at hlen
        cases hlen
      · intro hstays
        exact absurd (hstays rfl) hs

end ExceptionResponse

/-! ## Protected APDUs -/

theorem CipheredService.regains (c : CipheredService) : Regains decode c.encode c := by
  intro hw
  have hlt : 5 + c.payload.length < 2 ^ 32 := by
    have hfields := (Emit.Sized.u8 c.securityControl.val).append
      ((Emit.Sized.u32 c.invocationCounter).append (.bytes c.payload))
    unfold encode at hw
    simp only [Emit.append_assoc] at hw
    refine Emit.length_lt hw.1 ?_
    have hsize := hw.append.2.2
    rw [hfields.size] at hsize
    omega
  exact ⟨hw.1, CipheredService.takes hlt⟩

theorem GeneralGloCiphering.regains (g : GeneralGloCiphering) : Regains decode g.encode g :=
  (Regains.lengthPrefixed g.systemTitle).bind g.ciphered.regains.map

theorem KeyInfo.regains (k : KeyInfo) : Regains decode k.encode k := by
  cases k with
  | identified k =>
    exact fun _ => ⟨rfl, (Takes.u8 0).bind fun b hb => by subst hb; exact (Takes.u8 k).map fun _ h => by rw [h]⟩
  | wrapped k key =>
    intro hw
    have hkey := Regains.lengthPrefixed key hw.append.2
    exact ⟨hw.1, (Takes.u8 1).bind fun b hb => by
      subst hb
      exact (Takes.u8 k).bind fun k' hk => hkey.takes.map fun key' h => by rw [hk, h]⟩
  | agreed p key =>
    unfold encode
    simp only [Emit.append_assoc]
    exact (Regains.u8 2).bind ((Regains.lengthPrefixed p).bind (Regains.lengthPrefixed key).map)

theorem GeneralCiphering.regains (g : GeneralCiphering) : Regains decode g.encode g := by
  unfold encode
  simp only [Emit.append_assoc]
  exact (Regains.lengthPrefixed _).bind ((Regains.lengthPrefixed _).bind ((Regains.lengthPrefixed _).bind
    ((Regains.lengthPrefixed _).bind ((Regains.lengthPrefixed _).bind
      ((Regains.optional fun k _ => k.regains).bind g.ciphered.regains.map)))))

theorem GeneralSigning.regains (g : GeneralSigning) : Regains decode g.encode g := by
  unfold encode
  simp only [Emit.append_assoc]
  exact (Regains.lengthPrefixed _).bind ((Regains.lengthPrefixed _).bind ((Regains.lengthPrefixed _).bind
    ((Regains.lengthPrefixed _).bind ((Regains.lengthPrefixed _).bind
      ((Regains.lengthPrefixed _).bind (Regains.lengthPrefixed _).map)))))

theorem GeneralBlockTransfer.regains (g : GeneralBlockTransfer) : Regains decode g.encode g := by
  unfold encode
  simp only [Emit.append_assoc]
  exact (Regains.u8 _).bind ((Regains.u16 _).bind ((Regains.u16 _).bind (Regains.lengthPrefixed _).map))

end Dlms
