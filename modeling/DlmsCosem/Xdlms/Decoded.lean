import DlmsCosem.Xdlms.RestoredServices

/-!
# Messages that were decoded

What a decoder gives is made of what `Restored` asks for (`WellFormed`), and is written without a fault:
the lengths that were read are lengths that can be written.
-/

namespace Dlms

namespace Emit

@[simp] theorem u16_fault (v : UInt16) : (u16 v).fault = none := rfl

@[simp] theorem u32_fault (v : UInt32) : (u32 v).fault = none := rfl

end Emit

@[simp] theorem InvokeId.encode_fault (i : InvokeId) : i.encode.fault = none := rfl

@[simp] theorem AttributeDescriptor.encode_fault (d : AttributeDescriptor) : d.encode.fault = none := rfl

@[simp] theorem MethodDescriptor.encode_fault (d : MethodDescriptor) : d.encode.fault = none := rfl

@[simp] theorem DataAccessResult.encode_fault (r : DataAccessResult) : r.encode.fault = none := rfl

@[simp] theorem ActionResult.encode_fault (r : ActionResult) : r.encode.fault = none := rfl

@[simp] theorem Conformance.encodeTagged_fault (c : Conformance) : c.encodeTagged.fault = none := rfl

/-- What `m` gives satisfies `W` and is written without a fault. -/
def Read.Sound {α : Type} (m : Read α) (W : α → Prop) (enc : α → Emit) : Prop :=
  m.Yields fun a => W a ∧ (enc a).fault = none

namespace Read.Sound

variable {α : Type} {m : Read α} {W : α → Prop} {enc : α → Emit}

theorem lengthPrefixed : Sound Read.lengthPrefixed (fun _ => True) Emit.lengthPrefixed :=
  .of_ok fun h => ⟨trivial, (Emit.lengthPrefixed_sized (Read.lengthPrefixed_lt h)).fault⟩

/-- A value that may be missing. -/
theorem optional (h : Sound m W enc) :
    Sound (decodeOptional m) (fun o => ∀ a, o = some a → W a) (encodeOptional enc) := by
  refine (Prog.Yields.any _).bind fun b _ => ?_
  split
  · exact .pure ⟨nofun, rfl⟩
  · refine h.map fun a ha => ⟨?_, Emit.append_fault_eq_none.mpr ⟨rfl, ha.2⟩⟩
    rintro _ ⟨⟩
    exact ha.1

/-- The elements of a list that was decoded are elements, and no more than can be counted. -/
theorem list {decode : Read α} {S : α → α → Prop} (hd : Echoes S decode decode) :
    Sound (WireList.decodeOf decode) (·.Holds decode) WireList.encode := by
  refine .of_ok fun h => ?_
  have hlisted := WireList.Listed.of_decodeOf (u := fun _ => ()) (hd.mono fun _ _ _ => rfl) h
  exact ⟨.of_listed hlisted, Emit.counted_fault hlisted.count_lt _⟩

end Read.Sound

theorem Data.decode_sound : decode.Sound Public encode :=
  (Prog.Yields.self _).mono fun _ h =>
    have hd : Decoded maxDepth _ := h
    ⟨.decoded (Nat.le_refl _) hd, hd.encoded.fault⟩

theorem SelectiveAccess.decode_sound : decode.Sound (·.parameters.Public) encode :=
  (Prog.Yields.any _).bind fun _ _ => Data.decode_sound.map fun _ h =>
    ⟨h.1, Emit.append_fault_eq_none.mpr ⟨rfl, h.2⟩⟩

theorem DataAccessResult.canonical_fromU8 (v : UInt8) : (fromU8 v).Canonical := by
  unfold Canonical
  congr 1
  unfold fromU8
  split <;> rfl

theorem ActionResult.canonical_fromU8 (v : UInt8) : (fromU8 v).Canonical := by
  unfold Canonical
  congr 1
  unfold fromU8
  split <;> rfl

theorem DataAccessResult.decode_sound : decode.Sound Canonical encode :=
  (Prog.Yields.any _).map fun v _ => ⟨canonical_fromU8 v, rfl⟩

theorem ActionResult.decode_sound : decode.Sound Canonical encode :=
  (Prog.Yields.any _).map fun v _ => ⟨canonical_fromU8 v, rfl⟩

theorem GetDataResult.decode_sound : decode.Sound WellFormed encode := by
  refine (Prog.Yields.any _).bind fun b _ => ?_
  split
  · exact Data.decode_sound.map fun d h => ⟨h.1, Emit.append_fault_eq_none.mpr ⟨rfl, h.2⟩⟩
  · exact (Prog.Yields.any _).map fun v _ => ⟨DataAccessResult.canonical_fromU8 v, rfl⟩
  · exact Read.yields_errBack _ _ _

theorem DataBlockG.decode_sound : decode.Sound WellFormed encode := by
  refine (Prog.Yields.any _).bind fun last _ => (Prog.Yields.any _).bind fun n _ =>
    (Prog.Yields.any _).bind fun b _ => ?_
  split
  · exact Read.Sound.lengthPrefixed.map fun raw h =>
      ⟨nofun, by simp [encode, Emit.append_fault_eq_none, h.2]⟩
  · refine (Prog.Yields.any _).map fun v _ => ⟨?_, rfl⟩
    rintro _ ⟨⟩
    exact DataAccessResult.canonical_fromU8 v
  · exact Read.yields_errBack _ _ _

theorem DataBlockSA.decode_sound : decode.Sound (fun _ => True) encode :=
  (Prog.Yields.any _).bind fun _ _ => (Prog.Yields.any _).bind fun _ _ =>
    Read.Sound.lengthPrefixed.map fun raw h =>
      ⟨trivial, by simp [encode, Emit.append_fault_eq_none, h.2]⟩

/-! ## GET, SET and ACTION -/

theorem GetRequest.decode_sound : decode.Sound WellFormed encode := by
  refine (Prog.Yields.any _).bind fun choice _ => (Prog.Yields.any _).bind fun i _ => ?_
  split
  · exact (Prog.Yields.any _).bind fun d _ => SelectiveAccess.decode_sound.optional.map fun a h =>
      ⟨h.1, by simp [encode, Emit.append_fault_eq_none, h.2]⟩
  · exact (Prog.Yields.any _).map fun _ _ => ⟨trivial, rfl⟩
  · exact (Read.Sound.list AttributeDescriptorWithSelection.replays.echoes).map fun l h =>
      ⟨h.1, by simp [encode, Emit.append_fault_eq_none, h.2]⟩
  · exact Read.yields_errBack _ _ _

theorem GetResponse.decode_sound : decode.Sound WellFormed encode := by
  refine (Prog.Yields.any _).bind fun choice _ => (Prog.Yields.any _).bind fun i _ => ?_
  split
  · exact GetDataResult.decode_sound.map fun r h => ⟨h.1, by simp [encode, Emit.append_fault_eq_none, h.2]⟩
  · exact DataBlockG.decode_sound.map fun b h => ⟨h.1, by simp [encode, Emit.append_fault_eq_none, h.2]⟩
  · exact (Read.Sound.list GetDataResult.decode_echoes).map fun l h =>
      ⟨h.1, by simp [encode, Emit.append_fault_eq_none, h.2]⟩
  · exact Read.yields_errBack _ _ _

theorem SetRequest.decode_sound : decode.Sound WellFormed encode := by
  refine (Prog.Yields.any _).bind fun choice _ => (Prog.Yields.any _).bind fun i _ => ?_
  split
  · exact (Prog.Yields.any _).bind fun d _ => SelectiveAccess.decode_sound.optional.bind fun a ha =>
      Data.decode_sound.map fun v hv =>
        ⟨⟨ha.1, hv.1⟩, by simp [encode, Emit.append_fault_eq_none, ha.2, hv.2]⟩
  · exact (Prog.Yields.any _).bind fun d _ => SelectiveAccess.decode_sound.optional.bind fun a ha =>
      DataBlockSA.decode_sound.map fun b hb =>
        ⟨ha.1, by simp [encode, Emit.append_fault_eq_none, ha.2, hb.2]⟩
  · exact DataBlockSA.decode_sound.map fun b hb =>
      ⟨trivial, by simp [encode, Emit.append_fault_eq_none, hb.2]⟩
  · exact (Read.Sound.list AttributeDescriptorWithSelection.replays.echoes).bind fun ds hds =>
      (Read.Sound.list (Data.decodeAt_echoes maxDepth)).map fun vs hvs =>
        ⟨⟨hds.1, hvs.1⟩, by simp [encode, Emit.append_fault_eq_none, hds.2, hvs.2]⟩
  · exact (Read.Sound.list AttributeDescriptorWithSelection.replays.echoes).bind fun ds hds =>
      DataBlockSA.decode_sound.map fun b hb =>
        ⟨hds.1, by simp [encode, Emit.append_fault_eq_none, hds.2, hb.2]⟩
  · exact Read.yields_errBack _ _ _

theorem SetResponse.decode_sound : decode.Sound WellFormed encode := by
  refine (Prog.Yields.any _).bind fun choice _ => (Prog.Yields.any _).bind fun i _ => ?_
  split
  · exact DataAccessResult.decode_sound.map fun r h => ⟨h.1, rfl⟩
  · exact (Prog.Yields.any _).map fun _ _ => ⟨trivial, rfl⟩
  · exact DataAccessResult.decode_sound.bind fun r h => (Prog.Yields.any _).map fun _ _ => ⟨h.1, rfl⟩
  · exact (Read.Sound.list DataAccessResult.decode_echoes).bind fun l h =>
      (Prog.Yields.any _).map fun _ _ => ⟨h.1, by simp [encode, Emit.append_fault_eq_none, h.2]⟩
  · exact (Read.Sound.list DataAccessResult.decode_echoes).map fun l h =>
      ⟨h.1, by simp [encode, Emit.append_fault_eq_none, h.2]⟩
  · exact Read.yields_errBack _ _ _

theorem ActionResponseWithOptionalData.decode_sound : decode.Sound WellFormed encode :=
  ActionResult.decode_sound.bind fun r hr => GetDataResult.decode_sound.optional.map fun g hg =>
    ⟨⟨hr.1, hg.1⟩, by simp [encode, Emit.append_fault_eq_none, hg.2]⟩

theorem ActionRequest.decode_sound : decode.Sound WellFormed encode := by
  refine (Prog.Yields.any _).bind fun choice _ => (Prog.Yields.any _).bind fun i _ => ?_
  split
  · exact (Prog.Yields.any _).bind fun d _ => Data.decode_sound.optional.map fun p h =>
      ⟨h.1, by simp [encode, Emit.append_fault_eq_none, h.2]⟩
  · exact (Prog.Yields.any _).map fun _ _ => ⟨trivial, rfl⟩
  · exact (Read.Sound.list MethodDescriptor.replays.echoes).bind fun ds hds =>
      (Read.Sound.list (Data.decodeAt_echoes maxDepth)).map fun ps hps =>
        ⟨⟨hds.1, hps.1⟩, by simp [encode, Emit.append_fault_eq_none, hds.2, hps.2]⟩
  · exact (Prog.Yields.any _).bind fun d _ => DataBlockSA.decode_sound.map fun b hb =>
      ⟨trivial, by simp [encode, Emit.append_fault_eq_none, hb.2]⟩
  · exact (Read.Sound.list MethodDescriptor.replays.echoes).bind fun ds hds =>
      DataBlockSA.decode_sound.map fun b hb =>
        ⟨hds.1, by simp [encode, Emit.append_fault_eq_none, hds.2, hb.2]⟩
  · exact DataBlockSA.decode_sound.map fun b hb =>
      ⟨trivial, by simp [encode, Emit.append_fault_eq_none, hb.2]⟩
  · exact Read.yields_errBack _ _ _

theorem ActionResponse.decode_sound : decode.Sound WellFormed encode := by
  refine (Prog.Yields.any _).bind fun choice _ => (Prog.Yields.any _).bind fun i _ => ?_
  split
  · exact ActionResponseWithOptionalData.decode_sound.map fun r h =>
      ⟨h.1, by simp [encode, Emit.append_fault_eq_none, h.2]⟩
  · exact DataBlockSA.decode_sound.map fun b hb =>
      ⟨trivial, by simp [encode, Emit.append_fault_eq_none, hb.2]⟩
  · exact (Read.Sound.list ActionResponseWithOptionalData.decode_echoes).map fun l h =>
      ⟨h.1, by simp [encode, Emit.append_fault_eq_none, h.2]⟩
  · exact (Prog.Yields.any _).map fun _ _ => ⟨trivial, rfl⟩
  · exact Read.yields_errBack _ _ _

/-! ## The other services -/

theorem OptionalDateTime.encode_fault (t : OptionalDateTime) : t.encode.fault = none :=
  t.encode_sized.fault

theorem AccessRequest.decode_sound : decode.Sound WellFormed encode :=
  (Prog.Yields.any _).bind fun _ _ => (Prog.Yields.any _).bind fun t _ =>
    (Read.Sound.list AccessRequestSpecification.decode_echoes).bind fun l hl =>
      (Read.Sound.list (Data.decodeAt_echoes maxDepth)).map fun d hd =>
        ⟨⟨hl.1, hd.1⟩, by simp [encode, Emit.append_fault_eq_none, t.encode_fault, hl.2, hd.2]⟩

theorem AccessResponse.decode_sound : decode.Sound WellFormed encode :=
  (Prog.Yields.any _).bind fun _ _ => (Prog.Yields.any _).bind fun t _ =>
    (Read.Sound.list AccessRequestSpecification.decode_echoes).optional.bind fun s hs =>
      (Read.Sound.list (Data.decodeAt_echoes maxDepth)).bind fun d hd =>
        (Read.Sound.list AccessResponseSpecification.decode_echoes).map fun r hr =>
          ⟨⟨hs.1, hd.1, hr.1⟩, by
            simp [encode, Emit.append_fault_eq_none, t.encode_fault, hs.2, hd.2, hr.2]⟩

theorem ReadRequest.decode_sound : decode.Sound WellFormed encode :=
  (Read.Sound.list VariableAccess.decode_echoes).map fun _ h => h

theorem ReadResponse.decode_sound : decode.Sound WellFormed encode :=
  (Read.Sound.list ReadResult.decode_echoes).map fun _ h => h

theorem WriteRequest.decode_sound : decode.Sound WellFormed encode :=
  (Read.Sound.list VariableAccess.decode_echoes).bind fun _ hl =>
    (Read.Sound.list (Data.decodeAt_echoes maxDepth)).map fun _ hd =>
      ⟨⟨hl.1, hd.1⟩, Emit.append_fault_eq_none.mpr ⟨hl.2, hd.2⟩⟩

theorem WriteResponse.decode_sound : decode.Sound WellFormed encode :=
  (Read.Sound.list WriteResult.decode_echoes).map fun _ h => h

theorem InformationReportRequest.decode_sound : decode.Sound WellFormed encode :=
  Read.Sound.lengthPrefixed.optional.bind fun t ht =>
    (Read.Sound.list VariableAccess.decode_echoes).bind fun l hl =>
      (Read.Sound.list (Data.decodeAt_echoes maxDepth)).map fun d hd =>
        ⟨⟨hl.1, hd.1⟩, by simp [encode, ht.2, hl.2, hd.2]⟩

theorem DataNotification.decode_sound : decode.Sound (·.body.Public) encode :=
  (Prog.Yields.any _).bind fun _ _ => (Prog.Yields.any _).bind fun t _ =>
    Data.decode_sound.map fun d hd =>
      ⟨hd.1, by simp [encode, Emit.append_fault_eq_none, t.encode_fault, hd.2]⟩

theorem EventNotification.decode_sound : decode.Sound (·.value.Public) encode := by
  have htime : decodeTime.Sound (fun _ => True) fun t => Emit.lengthPrefixed t.toBytes :=
    (Prog.Yields.any _).mono fun t _ => ⟨trivial, rfl⟩
  exact htime.optional.bind fun t ht => (Prog.Yields.any _).bind fun d _ => Data.decode_sound.map fun v hv =>
    ⟨hv.1, by simp [encode, ht.2, hv.2]⟩

/-! ## Initiate and the errors -/

theorem InitiateRequest.decode_sound : decode.Sound (fun _ => True) encode := by
  have hbool : Read.Sound (do return (← Read.u8) != 0) (fun _ => True) fun v => Emit.u8 v.toUInt8 :=
    (Prog.Yields.any _).mono fun v _ => ⟨trivial, rfl⟩
  have hquality : Read.i8.Sound (fun _ => True) fun v => Emit.u8 v.toUInt8 :=
    (Prog.Yields.any _).mono fun v _ => ⟨trivial, rfl⟩
  exact Read.Sound.lengthPrefixed.optional.bind fun k hk => hbool.optional.bind fun a ha =>
    hquality.optional.bind fun q hq => (Prog.Yields.any _).bind fun v _ => (Prog.Yields.any _).bind fun c _ =>
      (Prog.Yields.any _).map fun n _ =>
        ⟨trivial, by simp [encode, Emit.append_fault_eq_none, hk.2, ha.2, hq.2]⟩

theorem ExceptionResponse.decode_sound : decode.Sound WellFormed encode := by
  have hstate (v : UInt8) : StateError.fromU8 (StateError.fromU8 v).asU8 = .fromU8 v := by
    congr 1
    unfold StateError.fromU8
    split <;> rfl
  have hservice (v : UInt8) : ServiceError.fromU8 (ServiceError.fromU8 v).asU8 = .fromU8 v := by
    congr 1
    unfold ServiceError.fromU8
    split <;> rfl
  refine (Prog.Yields.any _).bind fun a _ => (Prog.Yields.any _).bind fun b _ =>
    (Prog.Yields.any _).bind fun n _ => ?_
  split
  · exact (Prog.Yields.any _).map fun ic _ => ⟨⟨hstate a, hservice b⟩, rfl⟩
  · exact .pure ⟨⟨hstate a, hservice b⟩, rfl⟩

/-! ## Protected APDUs -/

theorem CipheredService.decode_sound : decode.Sound (fun _ => True) encode := by
  refine Prog.Yields.of_ok fun {r r' c} h => ⟨trivial, ?_⟩
  obtain ⟨body, r₁, hbody, h⟩ := Prog.bind_ok h
  obtain ⟨o, r₂, -, h⟩ := Prog.bind_ok h
  have hlt := Read.lengthPrefixed_lt hbody
  rw [Prog.ofExcept_run] at h
  have hc : (decodeBody (Reader.withBase body (o - body.length))).1 = .ok c := (Prod.mk.inj h).1
  obtain ⟨b, r₃, hb, hc⟩ := Prog.bind_fst_ok hc
  obtain ⟨n, r₄, hn, hc⟩ := Prog.bind_fst_ok hc
  obtain ⟨bs, r₅, hbs, hn⟩ := Prog.bind_ok hn
  obtain rfl : r₅ = r₄ := (Prod.mk.inj hn).2
  obtain rfl : (⟨⟨b⟩, n, r₅.rest⟩ : CipheredService) = c := Except.ok.inj hc
  -- The payload is what is left of the body.
  have hhead := congrArg List.length (Read.u8_ok hb).1
  have hrest := congrArg List.length (Read.take_consumed hbs).rest
  rw [List.length_append, Read.length_take hbs] at hrest
  have hlen : 5 + r₅.rest.length < 2 ^ 32 := by
    rw [Reader.withBase_rest, List.length_cons] at hhead
    omega
  have hfields := (Emit.length_sized hlen).append (.u8 b)
  exact ((hfields.append (.u32 n)).append (.bytes r₅.rest)).fault

theorem GeneralGloCiphering.decode_sound : decode.Sound (fun _ => True) encode :=
  Read.Sound.lengthPrefixed.bind fun _ ht => CipheredService.decode_sound.map fun _ hc =>
    ⟨trivial, Emit.append_fault_eq_none.mpr ⟨ht.2, hc.2⟩⟩

theorem KeyInfo.decode_sound : decode.Sound (fun _ => True) encode := by
  refine (Prog.Yields.any _).bind fun b _ => ?_
  split
  · exact (Prog.Yields.any _).map fun _ _ => ⟨trivial, rfl⟩
  · exact (Prog.Yields.any _).bind fun _ _ => Read.Sound.lengthPrefixed.map fun key h =>
      ⟨trivial, Emit.append_fault_eq_none.mpr ⟨rfl, h.2⟩⟩
  · exact Read.Sound.lengthPrefixed.bind fun p hp => Read.Sound.lengthPrefixed.map fun key h =>
      ⟨trivial, by simp [encode, Emit.append_fault_eq_none, hp.2, h.2]⟩
  · exact Read.yields_errBack _ _ _

theorem GeneralCiphering.decode_sound : decode.Sound (fun _ => True) encode :=
  Read.Sound.lengthPrefixed.bind fun a ha => Read.Sound.lengthPrefixed.bind fun b hb =>
    Read.Sound.lengthPrefixed.bind fun c hc => Read.Sound.lengthPrefixed.bind fun d hd =>
      Read.Sound.lengthPrefixed.bind fun e he => KeyInfo.decode_sound.optional.bind fun k hk =>
        CipheredService.decode_sound.map fun s hs =>
          ⟨trivial, by simp [encode, Emit.append_fault_eq_none, ha.2, hb.2, hc.2, hd.2, he.2, hk.2, hs.2]⟩

theorem GeneralSigning.decode_sound : decode.Sound (fun _ => True) encode :=
  Read.Sound.lengthPrefixed.bind fun a ha => Read.Sound.lengthPrefixed.bind fun b hb =>
    Read.Sound.lengthPrefixed.bind fun c hc => Read.Sound.lengthPrefixed.bind fun d hd =>
      Read.Sound.lengthPrefixed.bind fun e he => Read.Sound.lengthPrefixed.bind fun f hf =>
        Read.Sound.lengthPrefixed.map fun g hg =>
          ⟨trivial, by simp [encode, Emit.append_fault_eq_none, ha.2, hb.2, hc.2, hd.2, he.2, hf.2, hg.2]⟩

theorem GeneralBlockTransfer.decode_sound : decode.Sound (fun _ => True) encode :=
  (Prog.Yields.any _).bind fun _ _ => (Prog.Yields.any _).bind fun _ _ => (Prog.Yields.any _).bind fun _ _ =>
    Read.Sound.lengthPrefixed.map fun d hd => ⟨trivial, by simp [encode, Emit.append_fault_eq_none, hd.2]⟩

end Dlms
