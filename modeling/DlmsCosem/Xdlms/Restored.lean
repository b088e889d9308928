import DlmsCosem.Axdr.Placement
import DlmsCosem.Xdlms.Equality
import DlmsCosem.Xdlms.ReadBack

/-!
# Messages that are read again

For each message of a service: what it must be made of (`WellFormed`), where the values of its own must
stand (`Stays`), and that it is then equal to what is read back of it (`restores`). The elements of a
list stay encoded, so a list is read back wherever it stands; a place matters only to the values that a
message holds itself.
-/

namespace Dlms

open Ber

/-! ## Parts that are read back wherever they stand -/

/-- What is written of `a` is read back, if it is written. -/
def Regains {α : Type} (m : Read α) (e : Emit) (a : α) : Prop := WellSized e → ReadsBack m e a

theorem ReadsBack.regains {α : Type} {m : Read α} {e : Emit} {a : α} (h : ReadsBack m e a) :
    Regains m e a := fun _ => h

namespace Regains

variable {α β : Type} {m : Read α} {e e' : Emit} {a : α} {b : β}

theorem bind {f : α → Read β} (hm : Regains m e a) (hf : Regains (f a) e' b) :
    Regains (m >>= f) (e ++ e') b := fun hw =>
  (hm hw.append.1).bind (hf hw.append.2)

theorem map {g : α → β} (hm : Regains m e a) : Regains (m >>= fun a => pure (g a)) e (g a) :=
  fun hw => (hm hw).map

theorem takes (h : Regains m e a) (hw : WellSized e) : Takes m e.data (a = ·) := (h hw).takes

theorem restores {P : α → Prop} (h : Regains m e a) (hp : ∀ b, P b ↔ a = b) :
    Restores m e (fun _ => True) P :=
  .of_takes fun hw => (h.takes hw).mono fun b hb => (hp b).mpr hb

theorem u8 (v : UInt8) : Regains Read.u8 (Emit.u8 v) v := (ReadsBack.u8 v).regains

theorem u16 (v : UInt16) : Regains Read.u16 (Emit.u16 v) v := (ReadsBack.u16 v).regains

theorem u32 (v : UInt32) : Regains Read.u32 (Emit.u32 v) v := fun _ => ⟨rfl, .u32 v⟩

theorem bool (v : Bool) : Regains (do return (← Read.u8) != 0) (Emit.u8 v.toUInt8) v := fun _ =>
  ⟨rfl, (Takes.byte _).map fun b hb => by rw [← hb, Bool.toUInt8_bne_zero]⟩

/-- A length that is written is one of four bytes at most. -/
theorem lengthPrefixed (bs : Bytes) : Regains Read.lengthPrefixed (Emit.lengthPrefixed bs) bs := by
  intro hw
  have hsize := hw.append.2.2
  rw [Emit.size, Emit.bytes_data] at hsize
  exact .lengthPrefixed (Emit.length_lt hw.1 hsize)

/-- A value that may be missing. -/
theorem optional {enc : α → Emit} {o : Option α} (h : ∀ a, o = some a → Regains m (enc a) a) :
    Regains (decodeOptional m) (encodeOptional enc o) o := by
  intro hw
  refine .optional fun a ha => h a ha ?_
  subst ha
  exact hw.append.2

end Regains

namespace Restores

variable {α β : Type} {m : Read α} {e e' : Emit} {S : Nat → Prop} {Q : β → Prop} {a : α}

theorem bind {f : α → Read β} (hm : Regains m e a) (hf : Restores (f a) e' S Q) :
    Restores (m >>= f) (e ++ e') (fun o => S (o + e.size)) Q :=
  .after hm.takes fun _ h => h ▸ hf

/-- A value that may be missing. -/
theorem optional {enc : α → Emit} {o : Option α} {S : α → Nat → Prop} {eq : α → α → Bool}
    (h : ∀ a, o = some a → Restores m (enc a) (S a) (eq a · = true)) :
    Restores (decodeOptional m) (encodeOptional enc o) (fun n => ∀ a, o = some a → S a (n + 1))
      (eqOption eq o · = true) := by
  cases o with
  | none =>
    have hnone : Regains (decodeOptional m) (encodeOptional enc none) none := .optional nofun
    refine (hnone.restores fun b => ?_).congr fun _ => ⟨fun _ => nofun, fun _ => trivial⟩
    cases b <;> simp [eqOption]
  | some a =>
    refine (bind (.u8 1) ((h a rfl).map fun b => Iff.rfl)).congr fun n => ?_
    constructor
    · rintro hs _ ⟨⟩
      exact hs
    · intro hs
      exact hs a rfl

end Restores

/-! ## Lists -/

namespace WireList

/-- As many elements as it counts, and nothing else. -/
def Holds {α : Type} (decode : Read α) (l : WireList) : Prop :=
  l.count < 2 ^ 64 ∧ Whole (Prog.times l.count (do let _ ← decode)) l.raw

variable {α β : Type} {decode : Read α} {l : WireList}

/-- A list of elements one after another. -/
theorem holds_flatten {S : α → α → Prop} (hd : Echoes S decode decode) {chunks : List Bytes}
    (h : ∀ c ∈ chunks, Whole decode c) (hlen : chunks.length < 2 ^ 64) :
    (fromRaw chunks.length chunks.flatten).Holds decode :=
  ⟨hlen, .of_takes (decodeOf_chunks fun c hc => (h c hc).takes hd)⟩

theorem eq_of_unplaced {l l' : WireList} (h : l.unplaced = l'.unplaced) : l.eq l' = true := by
  simpa [eq, unplaced] using h

/-- A list that is written is read back. -/
theorem Holds.takes {S : α → α → Prop} (hd : Echoes S decode decode) (h : l.Holds decode)
    (hw : WellSized l.encode) : Takes (decodeOf decode) l.encode.data (l.eq · = true) := by
  have hlt := Emit.length_lt hw.1 h.1
  refine .counted hlt (.atOffset fun base => ?_)
  have hraw := (h.2.takes (hd.void.times l.count)).probe
    (k := fun raw => pure { count := l.count, raw, base }) (Q := fun l' : WireList => l.eq l' = true)
    (.pure (eq_of_unplaced rfl))
  rwa [List.append_nil] at hraw

theorem Holds.restores {S : α → α → Prop} (hd : Echoes S decode decode) (h : l.Holds decode) :
    Restores (decodeOf decode) l.encode (fun _ => True) (l.eq · = true) :=
  .of_takes (h.takes hd)

theorem Holds.of_listed {u : α → β} (h : l.Listed decode u) : l.Holds decode :=
  ⟨h.count_lt.trans (by norm_num), .of_takes h.walk⟩

end WireList

/-! ## Descriptors, selectors and results -/

theorem InvokeId.regains (i : InvokeId) : Regains decode i.encode i := i.readsBack.regains

theorem AttributeDescriptor.regains (d : AttributeDescriptor) : Regains decode d.encode d := by
  obtain ⟨c, o, a⟩ := d
  unfold encode
  rw [Emit.append_assoc]
  exact (Regains.u16 c).bind ((ReadsBack.mk rfl (Obis.takes o)).regains.bind
    (ReadsBack.mk rfl (.i8 a)).regains.map)

theorem MethodDescriptor.regains (d : MethodDescriptor) : Regains decode d.encode d :=
  d.readsBack.regains

theorem DataBlockSA.regains (b : DataBlockSA) : Regains decode b.encode b := by
  obtain ⟨last, number, raw⟩ := b
  unfold encode
  rw [Emit.append_assoc]
  refine Regains.bind (ReadsBack.u8 _).regains ?_
  dsimp only
  rw [Bool.toUInt8_bne_zero]
  exact (Regains.u32 number).bind (Regains.lengthPrefixed raw).map

/-- The code is one that the decoder spells so. -/
def DataAccessResult.Canonical (r : DataAccessResult) : Prop := .fromU8 r.asU8 = r

def ActionResult.Canonical (r : ActionResult) : Prop := .fromU8 r.asU8 = r

theorem DataAccessResult.regains {r : DataAccessResult} (h : r.Canonical) : Regains decode r.encode r := by
  have hcode := (Regains.u8 r.asU8).map (g := fromU8)
  rwa [h] at hcode

theorem ActionResult.regains {r : ActionResult} (h : r.Canonical) : Regains decode r.encode r := by
  have hcode := (Regains.u8 r.asU8).map (g := fromU8)
  rwa [h] at hcode

namespace SelectiveAccess

theorem restores {s : SelectiveAccess} (h : s.parameters.Public) :
    Restores decode s.encode (fun o => s.parameters.Stays (o + 1)) (s.eq · = true) := by
  refine Restores.bind (.u8 s.selector) (h.restores.map fun d => ?_)
  simp [eq]

end SelectiveAccess

namespace GetDataResult

def WellFormed : GetDataResult → Prop
  | data d => d.Public
  | error e => e.Canonical

def Stays (r : GetDataResult) (o : Nat) : Prop :=
  match r with
  | data d => d.Stays (o + 1)
  | error _ => True

theorem restores {r : GetDataResult} (h : r.WellFormed) :
    Restores decode r.encode r.Stays (r.eq · = true) := by
  cases r with
  | data d =>
    exact .congr (.bind (.u8 0) ((Data.Public.restores h).map fun e => Iff.rfl)) fun o => Iff.rfl
  | error e =>
    have hcode : Regains decode (error e).encode (error e) := by
      have hcode := (Regains.u8 e.asU8).map (g := fun v => error (.fromU8 v))
      rw [show DataAccessResult.fromU8 e.asU8 = e from h] at hcode
      exact (Regains.u8 1).bind hcode
    exact hcode.restores fun b => by cases b <;> simp [eq]

end GetDataResult

/-! ## GET -/

namespace GetRequest

def WellFormed : GetRequest → Prop
  | normal _ _ access => ∀ a, access = some a → a.parameters.Public
  | next _ _ => True
  | withList _ list => list.Holds AttributeDescriptorWithSelection.decode

/-- Behind the form, the invoke id, the descriptor, the presence byte and the selector. -/
def Stays (q : GetRequest) (o : Nat) : Prop :=
  match q with
  | normal _ _ access => ∀ a, access = some a → a.parameters.Stays (o + 13)
  | _ => True

theorem restores {q : GetRequest} (h : q.WellFormed) : Restores decode q.encode q.Stays (q.eq · = true) := by
  cases q with
  | normal i d access =>
    unfold encode
    simp only [Emit.append_assoc]
    refine .congr (.bind (.u8 1) (.bind i.regains (.bind d.regains
      ((Restores.optional fun a ha => SelectiveAccess.restores (h a ha)).map fun a => ?_))))
      fun o => Iff.rfl
    simp [eq]
  | next i n =>
    have hnext : Regains decode (next i n).encode (next i n) := by
      unfold encode
      simp only [Emit.append_assoc]
      exact (Regains.u8 2).bind (i.regains.bind (Regains.u32 n).map)
    exact hnext.restores fun b => by cases b <;> simp [eq]
  | withList i list =>
    unfold encode
    simp only [Emit.append_assoc]
    refine .congr (.bind (.u8 3) (.bind i.regains
      ((WireList.Holds.restores AttributeDescriptorWithSelection.replays.echoes h).map fun l => ?_)))
      fun o => Iff.rfl
    simp [eq]

end GetRequest

namespace DataBlockG

def WellFormed (b : DataBlockG) : Prop := ∀ e, b.result = .error e → e.Canonical

theorem regains {b : DataBlockG} (h : b.WellFormed) : Regains decode b.encode b := by
  obtain ⟨last, number, result⟩ := b
  unfold encode
  simp only [Emit.append_assoc]
  refine Regains.bind (ReadsBack.u8 _).regains ?_
  dsimp only
  rw [Bool.toUInt8_bne_zero]
  refine (Regains.u32 number).bind ?_
  cases result with
  | ok raw => exact (Regains.u8 0).bind (Regains.lengthPrefixed raw).map
  | error e =>
    have hcode := (Regains.u8 e.asU8).map (g := fun v => DataBlockG.mk last number (.error (.fromU8 v)))
    rw [show DataAccessResult.fromU8 e.asU8 = e from h e rfl] at hcode
    exact (Regains.u8 1).bind hcode

end DataBlockG

namespace GetResponse

def WellFormed : GetResponse → Prop
  | normal _ r => r.WellFormed
  | withDataBlock _ b => b.WellFormed
  | withList _ results => results.Holds GetDataResult.decode

def Stays (q : GetResponse) (o : Nat) : Prop :=
  match q with
  | normal _ r => r.Stays (o + 2)
  | _ => True

theorem restores {q : GetResponse} (h : q.WellFormed) : Restores decode q.encode q.Stays (q.eq · = true) := by
  cases q with
  | normal i r =>
    unfold encode
    simp only [Emit.append_assoc]
    refine .congr (.bind (.u8 1) (.bind i.regains ((GetDataResult.restores h).map fun r => ?_)))
      fun o => Iff.rfl
    simp [eq]
  | withDataBlock i b =>
    have hblock : Regains decode (withDataBlock i b).encode (withDataBlock i b) := by
      unfold encode
      simp only [Emit.append_assoc]
      exact (Regains.u8 2).bind (i.regains.bind (DataBlockG.regains h).map)
    exact hblock.restores fun b => by cases b <;> simp [eq]
  | withList i results =>
    unfold encode
    simp only [Emit.append_assoc]
    refine .congr (.bind (.u8 3) (.bind i.regains
      ((WireList.Holds.restores GetDataResult.decode_echoes h).map fun l => ?_))) fun o => Iff.rfl
    simp [eq]

end GetResponse

/-! ## SET -/

namespace SetRequest

def WellFormed : SetRequest → Prop
  | normal _ _ access value => (∀ a, access = some a → a.parameters.Public) ∧ value.Public
  | withFirstDataBlock _ _ access _ => ∀ a, access = some a → a.parameters.Public
  | withDataBlock _ _ => True
  | withList _ descriptors values =>
    descriptors.Holds AttributeDescriptorWithSelection.decode ∧ values.Holds Data.decode
  | withListAndFirstDataBlock _ descriptors _ =>
    descriptors.Holds AttributeDescriptorWithSelection.decode

/-- The selector is where GET has it, and the value is behind it. -/
def Stays (q : SetRequest) (o : Nat) : Prop :=
  match q with
  | normal _ _ access value => (∀ a, access = some a → a.parameters.Stays (o + 13)) ∧
      value.Stays (o + 11 + (encodeOptional SelectiveAccess.encode access).size)
  | withFirstDataBlock _ _ access _ => ∀ a, access = some a → a.parameters.Stays (o + 13)
  | _ => True

theorem restores {q : SetRequest} (h : q.WellFormed) : Restores decode q.encode q.Stays (q.eq · = true) := by
  cases q with
  | normal i d access value =>
    unfold encode
    simp only [Emit.append_assoc]
    refine .congr (.bind (.u8 1) (.bind i.regains (.bind d.regains
      ((Restores.optional fun a ha => SelectiveAccess.restores (h.1 a ha)).andThen
        (Data.Public.restores h.2) fun a v => ?_)))) fun o => Iff.rfl
    simp [eq]
  | withFirstDataBlock i d access b =>
    unfold encode
    simp only [Emit.append_assoc]
    refine .congr (.bind (.u8 2) (.bind i.regains (.bind d.regains
      ((Restores.optional fun a ha => SelectiveAccess.restores (h a ha)).andThen
        (b.regains.restores fun b' => Iff.rfl) fun a b' => ?_)))) fun o => and_iff_left trivial
    simp [eq]
  | withDataBlock i b =>
    have hblock : Regains decode (withDataBlock i b).encode (withDataBlock i b) := by
      unfold encode
      simp only [Emit.append_assoc]
      exact (Regains.u8 3).bind (i.regains.bind b.regains.map)
    exact hblock.restores fun b => by cases b <;> simp [eq]
  | withList i ds vs =>
    unfold encode
    simp only [Emit.append_assoc]
    refine .congr (.bind (.u8 4) (.bind i.regains
      ((WireList.Holds.restores AttributeDescriptorWithSelection.replays.echoes h.1).andThen
        (WireList.Holds.restores (Data.decodeAt_echoes maxDepth) h.2) fun ds' vs' => ?_)))
      fun o => and_iff_left trivial
    simp [eq]
  | withListAndFirstDataBlock i ds b =>
    unfold encode
    simp only [Emit.append_assoc]
    refine .congr (.bind (.u8 5) (.bind i.regains
      ((WireList.Holds.restores AttributeDescriptorWithSelection.replays.echoes h).andThen
        (b.regains.restores fun b' => Iff.rfl) fun ds' b' => ?_))) fun o => and_iff_left trivial
    simp [eq]

end SetRequest

namespace SetResponse

def WellFormed : SetResponse → Prop
  | normal _ r => r.Canonical
  | dataBlock _ _ => True
  | lastDataBlock _ r _ => r.Canonical
  | lastDataBlockWithList _ results _ => results.Holds DataAccessResult.decode
  | withList _ results => results.Holds DataAccessResult.decode

theorem restores {q : SetResponse} (h : q.WellFormed) :
    Restores decode q.encode (fun _ => True) (q.eq · = true) := by
  cases q with
  | normal i r =>
    have hnormal : Regains decode (normal i r).encode (normal i r) := by
      unfold encode
      simp only [Emit.append_assoc]
      exact (Regains.u8 1).bind (i.regains.bind (DataAccessResult.regains h).map)
    exact hnormal.restores fun b => by cases b <;> simp [eq]
  | dataBlock i n =>
    have hblock : Regains decode (dataBlock i n).encode (dataBlock i n) := by
      unfold encode
      simp only [Emit.append_assoc]
      exact (Regains.u8 2).bind (i.regains.bind (Regains.u32 n).map)
    exact hblock.restores fun b => by cases b <;> simp [eq]
  | lastDataBlock i r n =>
    have hlast : Regains decode (lastDataBlock i r n).encode (lastDataBlock i r n) := by
      unfold encode
      simp only [Emit.append_assoc]
      exact (Regains.u8 3).bind (i.regains.bind ((DataAccessResult.regains h).bind (Regains.u32 n).map))
    exact hlast.restores fun b => by cases b <;> simp [eq, and_assoc]
  | lastDataBlockWithList i results n =>
    unfold encode
    simp only [Emit.append_assoc]
    refine .congr (.bind (.u8 4) (.bind i.regains
      ((WireList.Holds.restores DataAccessResult.decode_echoes h).andThen
        ((Regains.u32 n).restores fun n' => Iff.rfl) fun l n' => ?_))) fun o => and_iff_left trivial
    simp [eq]
  | withList i results =>
    unfold encode
    simp only [Emit.append_assoc]
    refine .congr (.bind (.u8 5) (.bind i.regains
      ((WireList.Holds.restores DataAccessResult.decode_echoes h).map fun l => ?_))) fun o => Iff.rfl
    simp [eq]

end SetResponse

/-! ## ACTION -/

namespace ActionResponseWithOptionalData

def WellFormed (r : ActionResponseWithOptionalData) : Prop :=
  r.result.Canonical ∧ ∀ g, r.returnParameters = some g → g.WellFormed

def Stays (r : ActionResponseWithOptionalData) (o : Nat) : Prop :=
  ∀ g, r.returnParameters = some g → g.Stays (o + 2)

theorem restores {r : ActionResponseWithOptionalData} (h : r.WellFormed) :
    Restores decode r.encode r.Stays (r.eq · = true) := by
  obtain ⟨result, parameters⟩ := r
  refine .congr (.bind (ActionResult.regains h.1)
    ((Restores.optional fun g hg => GetDataResult.restores (h.2 g hg)).map fun g => ?_)) fun o => Iff.rfl
  simp [eq]

end ActionResponseWithOptionalData

namespace ActionRequest

def WellFormed : ActionRequest → Prop
  | normal _ _ parameters => ∀ d, parameters = some d → d.Public
  | withList _ descriptors parameters =>
    descriptors.Holds MethodDescriptor.decode ∧ parameters.Holds Data.decode
  | withListAndFirstPblock _ descriptors _ => descriptors.Holds MethodDescriptor.decode
  | nextPblock _ _ | withFirstPblock _ _ _ | withPblock _ _ => True

def Stays (q : ActionRequest) (o : Nat) : Prop :=
  match q with
  | normal _ _ parameters => ∀ d, parameters = some d → d.Stays (o + 12)
  | _ => True

theorem restores {q : ActionRequest} (h : q.WellFormed) :
    Restores decode q.encode q.Stays (q.eq · = true) := by
  cases q with
  | normal i d parameters =>
    unfold encode
    simp only [Emit.append_assoc]
    refine .congr (.bind (.u8 1) (.bind i.regains (.bind d.regains
      ((Restores.optional fun p hp => (h p hp).restores).map fun p => ?_)))) fun o => Iff.rfl
    simp [eq]
  | nextPblock i n =>
    have hnext : Regains decode (nextPblock i n).encode (nextPblock i n) := by
      unfold encode
      simp only [Emit.append_assoc]
      exact (Regains.u8 2).bind (i.regains.bind (Regains.u32 n).map)
    exact hnext.restores fun b => by cases b <;> simp [eq]
  | withList i ds ps =>
    unfold encode
    simp only [Emit.append_assoc]
    refine .congr (.bind (.u8 3) (.bind i.regains
      ((WireList.Holds.restores MethodDescriptor.replays.echoes h.1).andThen
        (WireList.Holds.restores (Data.decodeAt_echoes maxDepth) h.2) fun ds' ps' => ?_)))
      fun o => and_iff_left trivial
    simp [eq]
  | withFirstPblock i d b =>
    have hfirst : Regains decode (withFirstPblock i d b).encode (withFirstPblock i d b) := by
      unfold encode
      simp only [Emit.append_assoc]
      exact (Regains.u8 4).bind (i.regains.bind (d.regains.bind b.regains.map))
    exact hfirst.restores fun b => by cases b <;> simp [eq, and_assoc]
  | withListAndFirstPblock i ds b =>
    unfold encode
    simp only [Emit.append_assoc]
    refine .congr (.bind (.u8 5) (.bind i.regains
      ((WireList.Holds.restores MethodDescriptor.replays.echoes h).andThen
        (b.regains.restores fun b' => Iff.rfl) fun ds' b' => ?_))) fun o => and_iff_left trivial
    simp [eq]
  | withPblock i b =>
    have hblock : Regains decode (withPblock i b).encode (withPblock i b) := by
      unfold encode
      simp only [Emit.append_assoc]
      exact (Regains.u8 6).bind (i.regains.bind b.regains.map)
    exact hblock.restores fun b => by cases b <;> simp [eq]

end ActionRequest

namespace ActionResponse

def WellFormed : ActionResponse → Prop
  | normal _ r => r.WellFormed
  | withList _ responses => responses.Holds ActionResponseWithOptionalData.decode
  | withPblock _ _ | nextPblock _ _ => True

def Stays (q : ActionResponse) (o : Nat) : Prop :=
  match q with
  | normal _ r => r.Stays (o + 2)
  | _ => True

theorem restores {q : ActionResponse} (h : q.WellFormed) :
    Restores decode q.encode q.Stays (q.eq · = true) := by
  cases q with
  | normal i r =>
    unfold encode
    simp only [Emit.append_assoc]
    refine .congr (.bind (.u8 1) (.bind i.regains
      ((ActionResponseWithOptionalData.restores h).map fun r => ?_))) fun o => Iff.rfl
    simp [eq]
  | withPblock i b =>
    have hblock : Regains decode (withPblock i b).encode (withPblock i b) := by
      unfold encode
      simp only [Emit.append_assoc]
      exact (Regains.u8 2).bind (i.regains.bind b.regains.map)
    exact hblock.restores fun b => by cases b <;> simp [eq]
  | withList i responses =>
    unfold encode
    simp only [Emit.append_assoc]
    refine .congr (.bind (.u8 3) (.bind i.regains
      ((WireList.Holds.restores ActionResponseWithOptionalData.decode_echoes h).map fun l => ?_)))
      fun o => Iff.rfl
    simp [eq]
  | nextPblock i n =>
    have hnext : Regains decode (nextPblock i n).encode (nextPblock i n) := by
      unfold encode
      simp only [Emit.append_assoc]
      exact (Regains.u8 4).bind (i.regains.bind (Regains.u32 n).map)
    exact hnext.restores fun b => by cases b <;> simp [eq]

end ActionResponse

end Dlms
