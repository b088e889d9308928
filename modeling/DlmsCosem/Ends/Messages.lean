import DlmsCosem.Server.Singles
import DlmsCosem.Xdlms.RoundTrip

/-!
# Messages on their way

What a server reads of a request for one operation is a request for that operation
(`Single.request_restores`), wherever its values stood before and stand now, and what a client reads of the
answer is that answer. A value goes over where it stands on its own: a sequence that was taken out of
another value has fewer levels left than one that is read.
-/

namespace Dlms

open Ber

/-! ## Values and selectors -/

/-- The value stands on its own: it is read as it is written. -/
abbrev Data.Whole (d : Data) : Prop := d.Encoded maxDepth

/-- What is decoded from a whole byte string stands on its own. -/
theorem Data.whole_of_decode {r r' : Reader} {d : Data} (h : decode r = (.ok d, r')) : d.Whole :=
  (decodeAt_echoes maxDepth).holds h

/-- Read back, but for the place, wherever it stands. -/
abbrev RestoresLike {α β : Type} (m : Read α) (e : Emit) (u : α → β) (a : α) : Prop :=
  Restores m e (fun _ => True) fun b => u a = u b

/-- A part that is read back, and what stands behind it. -/
theorem Restores.behind {α β : Type} {m : Read α} {f : α → Read β} {e e' : Emit} {a : α} {Q : β → Prop}
    (hm : Regains m e a) (hf : Restores (f a) e' (fun _ => True) Q) :
    Restores (m >>= f) (e ++ e') (fun _ => True) Q :=
  .bind hm hf

/-- A part that is put under its constructor. -/
theorem Restores.under {α β : Type} {m : Read α} {e : Emit} {P : α → Prop} {Q : β → Prop} {g : α → β}
    (h : Restores m e (fun _ => True) P) (hg : ∀ a, P a → Q (g a)) :
    Restores (m >>= fun a => pure (g a)) e (fun _ => True) Q :=
  .of_takes fun hw => (h.takes (fun _ => trivial) hw).map hg

namespace RestoresLike

variable {α β γ : Type} {m : Read α} {e : Emit} {u : α → β} {a : α}

theorem of_regains (h : Regains m e a) : RestoresLike m e id a := h.restores fun _ => Iff.rfl

/-- A value that may be missing. -/
theorem optional {enc : α → Emit} {o : Option α} (h : ∀ a, o = some a → RestoresLike m (enc a) u a) :
    RestoresLike (decodeOptional m) (encodeOptional enc o) (Option.map u) o := by
  cases o with
  | none =>
    have hnone : Regains (decodeOptional m) (encodeOptional enc none) none := .optional nofun
    refine hnone.restores fun b => ?_
    cases b <;> simp
  | some a =>
    refine .behind (.u8 1) ((h a rfl).map fun b => ?_)
    simp

end RestoresLike

theorem Data.Whole.restores {d : Data} (h : d.Whole) : RestoresLike decode d.encode unplaced d :=
  .of_takes fun _ => h.takes

theorem SelectiveAccess.restoresLike {s : SelectiveAccess} (h : s.parameters.Whole) :
    RestoresLike decode s.encode unplaced s := by
  refine .behind (.u8 s.selector) (h.restores.map fun d => ?_)
  simp [unplaced]

/-! ## Lists of one entry -/

namespace WireList

variable {α : Type} {decode : Read α} {e : Emit}

/-- What is read of a list of one entry is a list of that entry. -/
theorem restores_one {S : α → α → Prop} {P : α → Prop} (hd : Echoes S decode decode)
    (h : Restores decode e (fun _ => True) P) (he : WellSized e) :
    Restores (decodeOf decode) (fromRaw 1 e.data).encode (fun _ => True) fun l =>
      ∃ b, l.iter decode = [.ok b] ∧ P b := by
  have htakes := h.takes (fun _ => trivial) he
  have hwhole : Whole decode e.data := .of_takes (htakes.mono fun _ _ => trivial)
  have hholds : (fromRaw 1 e.data).Holds decode := by
    have hone : (fromRaw [e.data].length [e.data].flatten).Holds decode :=
      holds_flatten hd (by simpa using hwhole) (by simp)
    simpa using hone
  refine .of_takes fun hw => (hholds.takes hd hw).mono fun l hl => ?_
  obtain ⟨hcount, hraw⟩ : l.count = 1 ∧ l.raw = e.data := by
    have := hl
    simp only [eq, fromRaw, Bool.and_eq_true, beq_iff_eq] at this
    exact ⟨this.1.symm, this.2.symm⟩
  obtain ⟨b, r, hb, hP, -⟩ := htakes (Reader.withBase l.raw l.base) [] (by simp [hraw])
  refine ⟨b, ?_, hP⟩
  rw [iter, hcount, iterFrom, hb]
  rfl

end WireList

/-! ## Requests -/

/-- An entry that names something, and whose parameter stands on its own. -/
def VariableAccess.Whole : VariableAccess → Prop
  | parameterized _ _ parameter => parameter.Whole
  | blockNumber _ => False
  | _ => True

theorem VariableAccess.restoresLike {entry : VariableAccess} (h : entry.Whole) :
    RestoresLike decode entry.encode unplaced entry := by
  cases entry with
  | variableName n =>
    exact .behind (.u8 2) ((Regains.u16 n).map.restores fun b => by cases b <;> simp [unplaced])
  | parameterized n selector parameter =>
    unfold encode
    simp only [Emit.append_assoc]
    refine .behind (.u8 4) (.behind (.u16 n) (.behind (.u8 selector)
      ((Data.Whole.restores h).map fun d => ?_)))
    simp [unplaced]
  | blockNumber n => exact h.elim
  | readDataBlock last n raw =>
    unfold encode
    simp only [Emit.append_assoc]
    refine .behind (.u8 6) (.behind (ReadsBack.u8 _).regains ?_)
    rw [Bool.toUInt8_bne_zero]
    exact .behind (.u16 n) ((Regains.lengthPrefixed raw).map.restores fun b => by
      cases b <;> simp [unplaced])
  | writeDataBlock last n =>
    unfold encode
    simp only [Emit.append_assoc]
    refine .behind (.u8 7) (.behind (ReadsBack.u8 _).regains ?_)
    rw [Bool.toUInt8_bne_zero]
    exact (Regains.u16 n).map.restores fun b => by cases b <;> simp [unplaced]

namespace Single

/-- The request for the operation, under this id. -/
def request (i : InvokeId) : Single → Apdu
  | get d access => .getRequest (.normal i d access)
  | set d access value => .setRequest (.normal i d access value)
  | action d parameters => .actionRequest (.normal i d parameters)
  | read entry => .readRequest ⟨.fromRaw 1 entry.encode.data⟩
  | write entry value => .writeRequest ⟨.fromRaw 1 entry.encode.data, .fromRaw 1 value.encode.data⟩

/-- Its values stand on their own. -/
def Whole : Single → Prop
  | get _ access => ∀ a, access = some a → a.parameters.Whole
  | set _ access value => (∀ a, access = some a → a.parameters.Whole) ∧ value.Whole
  | action _ parameters => ∀ p, parameters = some p → p.Whole
  | read entry => entry.Whole
  | write entry value => entry.Whole ∧ value.Whole

/-- What the request holds in encoded form was written. -/
def Written : Single → Prop
  | read entry => WellSized entry.encode
  | write entry value => WellSized entry.encode ∧ WellSized value.encode
  | _ => True

/-- What is read of a request asks for the operation, under the same id. -/
theorem request_restores {x : Single} (i : InvokeId) (hx : x.Whole) (hw : x.Written) :
    RestoresAll Apdu.decode (x.request i).encode (fun _ => True)
      fun req => ∃ x' : Single, x'.Asks i req ∧ x'.unplaced = x.unplaced := by
  cases x with
  | get d access =>
    have hbody : Restores GetRequest.decode (GetRequest.normal i d access).encode (fun _ => True)
        fun q => ∃ access', q = .normal i d access' ∧
          access.map SelectiveAccess.unplaced = access'.map SelectiveAccess.unplaced := by
      unfold GetRequest.encode
      simp only [Emit.append_assoc]
      exact .behind (.u8 1) (.behind i.regains (.behind d.regains
        (Restores.under (RestoresLike.optional fun a ha => SelectiveAccess.restoresLike (hx a ha))
          fun access' h => ⟨access', rfl, h⟩)))
    refine Apdu.restores_service .getRequest ⟨by decide, by decide⟩ (Restores.all
      (Restores.under hbody ?_))
    rintro _ ⟨access', rfl, h⟩
    exact ⟨.get d access', .get d access', by simp [unplaced, h]⟩
  | set d access value =>
    have hbody : Restores SetRequest.decode (SetRequest.normal i d access value).encode (fun _ => True)
        fun q => ∃ access' value', q = .normal i d access' value' ∧
          access.map SelectiveAccess.unplaced = access'.map SelectiveAccess.unplaced ∧
          value.Same value' := by
      unfold SetRequest.encode
      simp only [Emit.append_assoc]
      refine .behind (.u8 1) (.behind i.regains (.behind d.regains ?_))
      refine .after (S := fun _ => True) ((RestoresLike.optional fun a ha =>
        SelectiveAccess.restoresLike (hx.1 a ha)).takes fun _ => trivial) fun access' h => ?_
      exact Restores.under (Data.Whole.restores hx.2) fun value' h' => ⟨access', value', rfl, h, h'⟩
    refine Apdu.restores_service .setRequest ⟨by decide, by decide⟩ (Restores.all
      (Restores.under hbody ?_))
    rintro _ ⟨access', value', rfl, h, h'⟩
    exact ⟨.set d access' value', .set d access' value', by rw [unplaced, unplaced, h, show value'.unplaced = value.unplaced from h'.symm]⟩
  | action d parameters =>
    have hbody : Restores ActionRequest.decode (ActionRequest.normal i d parameters).encode
        (fun _ => True) fun q => ∃ parameters', q = .normal i d parameters' ∧
          parameters.map Data.unplaced = parameters'.map Data.unplaced := by
      unfold ActionRequest.encode
      simp only [Emit.append_assoc]
      exact .behind (.u8 1) (.behind i.regains (.behind d.regains
        (Restores.under (RestoresLike.optional fun p hp => Data.Whole.restores (hx p hp))
          fun parameters' h => ⟨parameters', rfl, h⟩)))
    refine Apdu.restores_service .actionRequest ⟨by decide, by decide⟩ (Restores.all
      (Restores.under hbody ?_))
    rintro _ ⟨parameters', rfl, h⟩
    exact ⟨.action d parameters', .action d parameters', by simp [unplaced, h]⟩
  | read entry =>
    have hbody : Restores ReadRequest.decode (ReadRequest.encode ⟨.fromRaw 1 entry.encode.data⟩)
        (fun _ => True) fun q => ∃ entry', q.specification.iter VariableAccess.decode = [.ok entry'] ∧
          entry.unplaced = entry'.unplaced :=
      .under (WireList.restores_one VariableAccess.decode_echoes (VariableAccess.restoresLike hx) hw)
        fun _ h => h
    refine Apdu.restores_service .readRequest ⟨by decide, by decide⟩ (Restores.all
      (Restores.under hbody ?_))
    rintro q ⟨entry', hiter, h⟩
    refine ⟨.read entry', .read hiter ?_, congrArg Single.read h.symm⟩
    rintro n rfl
    cases entry with
    | blockNumber => exact hx
    | _ => cases h
  | write entry value =>
    have hbody : Restores WriteRequest.decode (WriteRequest.encode
        ⟨.fromRaw 1 entry.encode.data, .fromRaw 1 value.encode.data⟩) (fun _ => True) fun q =>
        ∃ entry' value', q.specification.iter VariableAccess.decode = [.ok entry'] ∧
          q.values.iter Data.decode = [.ok value'] ∧ entry.unplaced = entry'.unplaced ∧
          value.Same value' := by
      refine .after (S := fun _ => True) ((WireList.restores_one VariableAccess.decode_echoes
        (VariableAccess.restoresLike hx.1) hw.1).takes fun _ => trivial) fun l hl => ?_
      obtain ⟨entry', hentry, h⟩ := hl
      refine .under (WireList.restores_one (Data.decodeAt_echoes maxDepth) (Data.Whole.restores hx.2) hw.2) ?_
      rintro l' ⟨value', hvalue, h'⟩
      exact ⟨entry', value', hentry, hvalue, h, h'⟩
    refine Apdu.restores_service .writeRequest ⟨by decide, by decide⟩ (Restores.all
      (Restores.under hbody ?_))
    rintro q ⟨entry', value', hentry, hvalue, h, h'⟩
    exact ⟨.write entry' value', .write hentry hvalue, congrArg₂ Single.write h.symm h'.symm⟩

end Single

/-! ## Answers -/

theorem DataAccessResult.restores (r : DataAccessResult) :
    Restores decode r.encode (fun _ => True) fun r' => r' = .fromU8 r.asU8 :=
  .under ((Regains.u8 r.asU8).restores fun _ => Iff.rfl) fun b hb => by rw [hb]

theorem ActionResult.restores (r : ActionResult) :
    Restores decode r.encode (fun _ => True) fun r' => r' = .fromU8 r.asU8 :=
  .under ((Regains.u8 r.asU8).restores fun _ => Iff.rfl) fun b hb => by rw [hb]

theorem GetDataResult.restores_data {d : Data} (h : d.Whole) :
    Restores decode (data d).encode (fun _ => True) fun r => ∃ d', r = data d' ∧ d.Same d' :=
  .behind (.u8 0) (.under h.restores fun d' hd => ⟨d', rfl, hd⟩)

theorem GetResponse.restores_error (i : InvokeId) (e : DataAccessResult) :
    Restores decode (normal i (.error e)).encode (fun _ => True)
      fun q => q = normal i (.error (.fromU8 e.asU8)) := by
  have hcode : Restores GetDataResult.decode (GetDataResult.error e).encode (fun _ => True)
      fun r => r = .error (.fromU8 e.asU8) :=
    .behind (.u8 1) (.under ((Regains.u8 e.asU8).restores fun _ => Iff.rfl) fun b hb => by rw [hb])
  unfold encode
  simp only [Emit.append_assoc]
  exact .behind (.u8 1) (.behind i.regains (.under hcode fun r hr => by rw [hr]))

theorem GetResponse.restores_data (i : InvokeId) {d : Data} (h : d.Whole) :
    Restores decode (normal i (.data d)).encode (fun _ => True)
      fun q => ∃ d', q = normal i (.data d') ∧ d.Same d' := by
  unfold encode
  simp only [Emit.append_assoc]
  refine .behind (.u8 1) (.behind i.regains (.under (GetDataResult.restores_data h) ?_))
  rintro _ ⟨d', rfl, hd⟩
  exact ⟨d', rfl, hd⟩

theorem GetResponse.restores_block (i : InvokeId) (last : Bool) (n : UInt32) (raw : Bytes) :
    Restores decode (withDataBlock i ⟨last, n, .ok raw⟩).encode (fun _ => True)
      fun q => q = withDataBlock i ⟨last, n, .ok raw⟩ := by
  unfold encode
  simp only [Emit.append_assoc]
  have hblock : Regains DataBlockG.decode (DataBlockG.encode ⟨last, n, .ok raw⟩) _ :=
    DataBlockG.regains fun e he => by cases he
  exact .behind (.u8 2) (.behind i.regains (.under (hblock.restores fun _ => Iff.rfl) fun b hb => by rw [hb]))

theorem SetResponse.restores_normal (i : InvokeId) (r : DataAccessResult) :
    Restores decode (normal i r).encode (fun _ => True) fun q => q = normal i (.fromU8 r.asU8) := by
  unfold encode
  simp only [Emit.append_assoc]
  exact .behind (.u8 1) (.behind i.regains (.under r.restores fun r' hr => by rw [hr]))

theorem ActionResponse.restores_result (i : InvokeId) (r : ActionResult) :
    Restores decode (normal i ⟨r, none⟩).encode (fun _ => True)
      fun q => q = normal i ⟨.fromU8 r.asU8, none⟩ := by
  have hbody : Restores ActionResponseWithOptionalData.decode
      (ActionResponseWithOptionalData.encode ⟨r, none⟩) (fun _ => True)
      fun x => x = ⟨.fromU8 r.asU8, none⟩ := by
    refine .after (S := fun _ => True) (r.restores.takes fun _ => trivial) fun r' hr => ?_
    have hnone : Regains (decodeOptional GetDataResult.decode)
        (encodeOptional GetDataResult.encode none) none := .optional nofun
    exact .under (hnone.restores fun _ => Iff.rfl) fun o ho => by rw [hr, ← ho]
  unfold encode
  simp only [Emit.append_assoc]
  exact .behind (.u8 1) (.behind i.regains (.under hbody fun x hx => by rw [hx]))

theorem ActionResponse.restores_data (i : InvokeId) {d : Data} (h : d.Whole) :
    Restores decode (normal i ⟨.success, some (.data d)⟩).encode (fun _ => True)
      fun q => ∃ d', q = normal i ⟨.success, some (.data d')⟩ ∧ d.Same d' := by
  have hvalue : Restores (decodeOptional GetDataResult.decode)
      (encodeOptional GetDataResult.encode (some (.data d))) (fun _ => True)
      fun o => ∃ d', o = some (.data d') ∧ d.Same d' := by
    refine .behind (.u8 1) (.under (GetDataResult.restores_data h) ?_)
    rintro _ ⟨d', rfl, hd⟩
    exact ⟨d', rfl, hd⟩
  have hbody : Restores ActionResponseWithOptionalData.decode
      (ActionResponseWithOptionalData.encode ⟨.success, some (.data d)⟩) (fun _ => True)
      fun x => ∃ d', x = ⟨.success, some (.data d')⟩ ∧ d.Same d' := by
    refine .after (S := fun _ => True) (ActionResult.success.restores.takes fun _ => trivial) fun r hr => ?_
    refine .under hvalue ?_
    rintro _ ⟨d', rfl, hd⟩
    exact ⟨d', by rw [hr]; rfl, hd⟩
  unfold encode
  simp only [Emit.append_assoc]
  refine .behind (.u8 1) (.behind i.regains (.under hbody ?_))
  rintro _ ⟨d', rfl, hd⟩
  exact ⟨d', rfl, hd⟩

theorem ActionResponse.restores_block (i : InvokeId) (b : DataBlockSA) :
    Restores decode (withPblock i b).encode (fun _ => True) fun q => q = withPblock i b := by
  unfold encode
  simp only [Emit.append_assoc]
  exact .behind (.u8 2) (.behind i.regains (.under (b.regains.restores fun _ => Iff.rfl)
    fun b' hb => by rw [hb]))

/-! ## Short-name answers -/

/-- The result tells the outcome. -/
def ReadResult.Tells (outcome : Except DataAccessResult Bytes) (x : ReadResult) : Prop :=
  match outcome with
  | .ok v => ∃ d d', Read.fromBytes Data.decode v = .ok d ∧ d.Same d' ∧ x = data d'
  | .error e => x = error (.fromU8 e.asU8)

theorem Data.takes_of_fromBytes {v : Bytes} {d : Data} (h : Read.fromBytes decode v = .ok d) :
    Takes decode v (d.Same ·) := by
  obtain ⟨r, hr, hend⟩ := Read.fromBytes_ok h
  obtain ⟨bs, tail, hc, ht⟩ := decodeAt_echoes maxDepth _ _ _ hr
  have htail : tail = [] := hc.after.symm.trans hend
  have hrest : v = bs ++ tail := hc.rest
  rw [htail, List.append_nil] at hrest
  rw [hrest]
  exact ht.mono fun _ hd => hd.1

theorem ReadResult.restores_slot {outcome : Except DataAccessResult Bytes}
    (h : ∀ v, outcome = .ok v → ∃ d, Read.fromBytes Data.decode v = .ok d) :
    Restores decode (Emit.bytes (readSlot outcome)) (fun _ => True) (Tells outcome) := by
  refine .of_takes fun _ => ?_
  rw [Emit.bytes_data]
  cases outcome with
  | ok v =>
    obtain ⟨d, hd⟩ := h v rfl
    have hslot : Takes decode ([0] ++ v) (Tells (.ok v)) := (Takes.u8 0).bind fun b hb => by
      subst hb
      exact (Data.takes_of_fromBytes hd).map fun d' h' => ⟨d, d', hd, h', rfl⟩
    exact hslot
  | error e =>
    have hslot : Takes decode ([1] ++ [e.asU8]) (Tells (.error e)) := (Takes.u8 1).bind fun b hb => by
      subst hb
      exact (Takes.u8 e.asU8).map fun b hb => by rw [← hb]; rfl
    exact hslot

theorem ReadResult.restores_block (last : Bool) (n : UInt16) (raw : Bytes) :
    Restores decode (block last n raw).encode (fun _ => True) fun x => x = block last n raw := by
  unfold encode
  simp only [Emit.append_assoc]
  refine .behind (.u8 2) (.behind (ReadsBack.u8 _).regains ?_)
  rw [Bool.toUInt8_bne_zero]
  exact .behind (.u16 n) (.under ((Regains.lengthPrefixed raw).restores fun _ => Iff.rfl)
    fun b hb => by rw [hb])

/-- The result of a write, as it is read. -/
def DataAccessResult.written (result : DataAccessResult) : WriteResult :=
  if result.isSuccess then .success else .error (.fromU8 result.asU8)

theorem WriteResult.restores_slot (result : DataAccessResult) :
    Restores decode (Emit.bytes (writeSlot result)) (fun _ => True) fun x => x = result.written := by
  refine .of_takes fun _ => ?_
  rw [Emit.bytes_data]
  unfold writeSlot DataAccessResult.written
  split
  · have hslot : Takes decode ([0] ++ []) fun x => x = success := (Takes.u8 0).bind fun b hb => by
      subst hb
      exact .pure rfl
    exact hslot
  · have hslot : Takes decode ([1] ++ [result.asU8]) fun x => x = error (.fromU8 result.asU8) :=
      (Takes.u8 1).bind fun b hb => by
        subst hb
        exact (Takes.u8 result.asU8).map fun b hb => by rw [← hb]
    exact hslot

end Dlms
