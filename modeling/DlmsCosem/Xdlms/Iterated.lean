import DlmsCosem.Axdr.Prefix
import DlmsCosem.Xdlms.Places

/-!
# Lists iterate

A list is validated by decoding its elements from all that is left of the frame. It is iterated over
its own bytes. Both see the same elements, because every element is settled by the bytes that it takes
(`ListElement.decode_incremental`).
-/

namespace Dlms

/-- The types of list elements. -/
inductive ListElement
  | attributeDescriptorWithSelection
  | methodDescriptor
  | data
  | dataAccessResult
  | getDataResult
  | actionResponseWithOptionalData
  | accessRequestSpecification
  | accessResponseSpecification
  | variableAccess
  | readResult
  | writeResult
  deriving DecidableEq

namespace ListElement

/-- The values. -/
abbrev Value : ListElement → Type
  | attributeDescriptorWithSelection => AttributeDescriptorWithSelection
  | methodDescriptor => MethodDescriptor
  | data => Data
  | dataAccessResult => DataAccessResult
  | getDataResult => GetDataResult
  | actionResponseWithOptionalData => ActionResponseWithOptionalData
  | accessRequestSpecification => AccessRequestSpecification
  | accessResponseSpecification => AccessResponseSpecification
  | variableAccess => VariableAccess
  | readResult => ReadResult
  | writeResult => WriteResult

/-- The decoder. -/
def decode : (e : ListElement) → Read e.Value
  | attributeDescriptorWithSelection => AttributeDescriptorWithSelection.decode
  | methodDescriptor => MethodDescriptor.decode
  | data => Data.decode
  | dataAccessResult => DataAccessResult.decode
  | getDataResult => GetDataResult.decode
  | actionResponseWithOptionalData => ActionResponseWithOptionalData.decode
  | accessRequestSpecification => AccessRequestSpecification.decode
  | accessResponseSpecification => AccessResponseSpecification.decode
  | variableAccess => VariableAccess.decode
  | readResult => ReadResult.decode
  | writeResult => WriteResult.decode

end ListElement

/-- The reader of an iterator that has given `n` elements. -/
def WireList.readerFrom {α : Type} (decode : Read α) : Nat → Reader → Reader
  | 0, r => r
  | n + 1, r => readerFrom decode n (decode r).2

/-! ## Elements in a stream -/

theorem decodeOptional_incremental {α : Type} {decode : Read α} (h : Incremental decode) :
    Incremental (decodeOptional decode) := by
  refine Incremental.u8.bind fun b => ?_
  split
  · exact .pure _
  · exact h.map

theorem Obis.decode_incremental : Incremental decode := (Incremental.take 6).map

theorem AttributeDescriptor.decode_incremental : Incremental decode :=
  Incremental.u16.bind fun _ => Obis.decode_incremental.bind fun _ => Incremental.i8.map

theorem MethodDescriptor.decode_incremental : Incremental decode :=
  Incremental.u16.bind fun _ => Obis.decode_incremental.bind fun _ => Incremental.i8.map

theorem SelectiveAccess.decode_incremental : Incremental decode :=
  Incremental.u8.bind fun _ => (Data.decodeAt_incremental maxDepth).map

theorem AttributeDescriptorWithSelection.decode_incremental : Incremental decode :=
  AttributeDescriptor.decode_incremental.bind fun _ =>
    (decodeOptional_incremental SelectiveAccess.decode_incremental).map

theorem DataAccessResult.decode_incremental : Incremental decode := Incremental.u8.map

theorem ActionResult.decode_incremental : Incremental decode := Incremental.u8.map

theorem GetDataResult.decode_incremental : Incremental decode := by
  refine Incremental.u8.bind fun b => ?_
  split
  · exact (Data.decodeAt_incremental maxDepth).map
  · exact Incremental.u8.map
  · exact .errBack

theorem ActionResponseWithOptionalData.decode_incremental : Incremental decode :=
  ActionResult.decode_incremental.bind fun _ =>
    (decodeOptional_incremental GetDataResult.decode_incremental).map

theorem AccessRequestSpecification.decode_incremental : Incremental decode := by
  refine Incremental.u8.bind fun b => ?_
  split
  · exact AttributeDescriptor.decode_incremental.map
  · exact AttributeDescriptor.decode_incremental.map
  · exact MethodDescriptor.decode_incremental.map
  · exact AttributeDescriptorWithSelection.decode_incremental.map
  · exact AttributeDescriptorWithSelection.decode_incremental.map
  · exact .errBack

theorem AccessResponseSpecification.decode_incremental : Incremental decode := by
  refine Incremental.u8.bind fun b => ?_
  split
  · exact DataAccessResult.decode_incremental.map
  · exact DataAccessResult.decode_incremental.map
  · exact ActionResult.decode_incremental.map
  · exact .errBack

theorem VariableAccess.decode_incremental : Incremental decode := by
  refine Incremental.u8.bind fun b => ?_
  split
  · exact Incremental.u16.map
  · exact Incremental.u16.bind fun _ => Incremental.u8.bind fun _ =>
      (Data.decodeAt_incremental maxDepth).map
  · exact Incremental.u16.map
  · exact Incremental.u8.bind fun _ => Incremental.u16.bind fun _ => Incremental.lengthPrefixed.map
  · exact Incremental.u8.bind fun _ => Incremental.u16.map
  · exact .errBack

theorem ReadResult.decode_incremental : Incremental decode := by
  refine Incremental.u8.bind fun b => ?_
  split
  · exact (Data.decodeAt_incremental maxDepth).map
  · exact Incremental.u8.map
  · exact Incremental.u8.bind fun _ => Incremental.u16.bind fun _ => Incremental.lengthPrefixed.map
  · exact Incremental.u16.map
  · exact .errBack

theorem WriteResult.decode_incremental : Incremental decode := by
  refine Incremental.u8.bind fun b => ?_
  split
  · exact .pure _
  · exact Incremental.u8.map
  · exact Incremental.u16.map
  · exact .errBack

/-- The bytes of an element settle it. -/
theorem ListElement.decode_incremental (e : ListElement) : Incremental e.decode := by
  cases e with
  | attributeDescriptorWithSelection => exact AttributeDescriptorWithSelection.decode_incremental
  | methodDescriptor => exact MethodDescriptor.decode_incremental
  | data => exact Data.decodeAt_incremental maxDepth
  | dataAccessResult => exact DataAccessResult.decode_incremental
  | getDataResult => exact GetDataResult.decode_incremental
  | actionResponseWithOptionalData => exact ActionResponseWithOptionalData.decode_incremental
  | accessRequestSpecification => exact AccessRequestSpecification.decode_incremental
  | accessResponseSpecification => exact AccessResponseSpecification.decode_incremental
  | variableAccess => exact VariableAccess.decode_incremental
  | readResult => exact ReadResult.decode_incremental
  | writeResult => exact WriteResult.decode_incremental

/-! ## The walk and the iterator -/

theorem Read.probe_walk {f : Read Unit} {r r' : Reader} {used : Nat} (h : probe f r = (.ok used, r')) :
    r = r' ∧ ∃ inner, f (Reader.withBase r.rest r.offset) = (.ok (), inner) ∧ inner.pos = used := by
  unfold probe at h
  match hrun : f (Reader.withBase r.rest r.offset) with
  | (.ok (), inner) =>
    rw [hrun] at h
    obtain ⟨hused, rfl⟩ := Prod.mk.inj h
    exact ⟨rfl, inner, rfl, Except.ok.inj hused⟩
  | (.error e, inner) =>
    rw [hrun] at h
    cases h

namespace WireList

variable {α : Type} {decode : Read α}

/-- A walk that ends well gives the elements to whoever starts on its bytes, at the place where it
started itself. -/
theorem iterFrom_settles (hd : Incremental decode) {n : Nat} {p p' : Reader}
    (h : Prog.times n (do let _ ← decode) p = (.ok (), p')) :
    ∃ raw tail, p.Consumed raw tail p' ∧ ∃ seen : List α, seen.length = n ∧
      ∀ q tail', q.offset = p.offset → q.rest = raw ++ tail' →
        iterFrom decode n q = seen.map .ok ∧ q.Advanced raw.length (readerFrom decode n q) := by
  induction n generalizing p with
  | zero =>
    simp only [Prog.times, Prog.pure_run, Prod.mk.injEq] at h
    obtain ⟨-, rfl⟩ := h
    exact ⟨[], p.rest, .refl p, [], rfl, fun q _ _ _ => ⟨rfl, .refl q⟩⟩
  | succ n ih =>
    obtain ⟨_, p₁, hone, h⟩ := Prog.bind_ok h
    obtain ⟨a, p₀, ha, h₀⟩ := Prog.bind_ok hone
    obtain rfl : p₀ = p₁ := by simpa using h₀
    obtain ⟨bs, tail, hc, hs⟩ := hd p a p₀ ha
    obtain ⟨cs, tail', hc', seen, hn, hseen⟩ := ih h
    obtain rfl : tail = cs ++ tail' := hc.after.symm.trans hc'.rest
    refine ⟨bs ++ cs, tail', hc.trans hc', a :: seen, by rw [List.length_cons, hn], fun q t ho hq => ?_⟩
    rw [List.append_assoc] at hq
    obtain ⟨q₁, hq₁, hadv⟩ := hs.whole q _ ho hq
    have hrest : q₁.rest = cs ++ t := by rw [hadv.rest, hq, List.drop_left]
    have hoff : q₁.offset = p₀.offset := by rw [hadv.offset, hc.advanced.offset, ho]
    obtain ⟨hiter, hend⟩ := hseen q₁ t hoff hrest
    rw [iterFrom, readerFrom, hq₁, hiter, List.length_append]
    exact ⟨rfl, hadv.trans hend⟩

end WireList

/-- The iterator of a list that was decoded gives as many elements as the list says. They are the values
that the walk over the rest of the frame decoded, and they take all of the list's bytes. -/
theorem list_iterates (e : ListElement) {r r' : Reader} {l : WireList}
    (h : WireList.decodeOf e.decode r = (.ok l, r')) :
    ∃ (seen : List e.Value) (r₁ : Reader), Read.length r = (.ok l.count, r₁) ∧ l.base = r₁.offset ∧
      WireList.iterFrom e.decode l.count (Reader.withBase r₁.rest r₁.offset) = seen.map .ok ∧
      l.iter e.decode = seen.map .ok ∧ seen.length = l.count ∧
      r₁.rest = l.raw ++ r'.rest ∧
      (WireList.readerFrom e.decode l.count (Reader.withBase l.raw l.base)).rest = [] := by
  obtain ⟨count, r₁, hcount, h⟩ := Prog.bind_ok h
  obtain ⟨base, _, hbase, h⟩ := Prog.bind_ok h
  obtain ⟨rfl, rfl⟩ : r₁.offset = base ∧ r₁ = _ := by simpa [Read.offset] using hbase
  obtain ⟨used, r₂, hp, h⟩ := Prog.bind_ok h
  obtain ⟨rfl, p', hwalk, rfl⟩ := Read.probe_walk hp
  obtain ⟨raw, r₃, htake, h⟩ := Prog.bind_ok h
  obtain ⟨rfl, rfl⟩ : WireList.mk count raw r₁.offset = l ∧ r₃ = r' := by simpa using h
  obtain ⟨raw', tail, hc, seen, hn, hseen⟩ :=
    WireList.iterFrom_settles e.decode_incremental hwalk
  have hrest : r₁.rest = raw' ++ tail := hc.rest
  have hpos : p'.pos = raw'.length := by simpa using hc.advanced.pos
  -- What is taken is what the walk took.
  obtain ⟨hraw, -, hadv⟩ := Read.take_ok htake
  obtain rfl : raw = raw' := by rw [hraw, hrest, hpos, List.take_left]
  obtain ⟨hvalidated, -⟩ := hseen (Reader.withBase r₁.rest r₁.offset) tail rfl hrest
  obtain ⟨hiter, hend⟩ := hseen (Reader.withBase raw r₁.offset) [] rfl (by simp)
  refine ⟨seen, r₁, hcount, rfl, hvalidated, hiter, hn, ?_, ?_⟩
  · rw [hadv.rest, hrest, hpos, List.drop_left]
  · rw [hend.rest, Reader.withBase_rest, List.drop_length]

/-- A list of two results and a byte after it. -/
theorem list_iterates_two :
    ∃ (seen : List DataAccessResult) (r₁ : Reader),
      Read.length (Reader.new [2, 3, 0, 9]) = (.ok 2, r₁) ∧ 1 = r₁.offset ∧
      WireList.iterFrom DataAccessResult.decode 2 (Reader.withBase r₁.rest r₁.offset) = seen.map .ok ∧
      (WireList.mk 2 [3, 0] 1).iter DataAccessResult.decode = seen.map .ok ∧ seen.length = 2 ∧
      r₁.rest = [3, 0] ++ [9] ∧
      (WireList.readerFrom DataAccessResult.decode 2 (Reader.withBase [3, 0] 1)).rest = [] :=
  have h : WireList.decodeOf ListElement.dataAccessResult.decode (Reader.new [2, 3, 0, 9]) =
      (.ok ⟨2, [3, 0], 1⟩, ⟨[2, 3, 0, 9], 3, 0, by decide⟩) := by rfl
  list_iterates .dataAccessResult h

end Dlms
