import DlmsCosem.Axdr.RoundTrip
import DlmsCosem.Xdlms.Apdu

/-!
# Requests and where they stood

What `RoundTrip` says of values, for what holds them: selectors, the entries of a request, and the
lists of these. The entries of a list that was decoded all decode, and they are the same entries
(`unplaced`) wherever the list stands (`WireList.Listed`).
-/

namespace Dlms

/-- `m` echoes itself in all but the place, which `u` forgets, and what it gives is read back from
`e`. -/
structure Read.Replays {α β : Type} (m : Read α) (u : α → β) (e : α → Emit) : Prop where
  echoes : Echoes (fun a b => u a = u b) m m
  back : ∀ r a r', m r = (.ok a, r') → (e a).fault = none ∧ Takes m (e a).data (u a = u ·)

namespace Read.Replays

variable {α β γ δ : Type}

theorem value (left : Nat) : Replays (Data.decodeAt left) Data.unplaced Data.encode where
  echoes := (Data.decodeAt_echoes left).mono fun _ _ h => h.1
  back r d r' hr := by
    obtain ⟨bs, tail, hc, ht⟩ := Data.decodeAt_echoes left r d r' hr
    obtain ⟨_, _, _, h, _⟩ := ht r tail hc.rest
    exact ⟨h.2.fault, h.2.takes⟩

/-- Where no place is kept, the value itself is read back. -/
theorem exact {m : Read α} {e : α → Emit} (hm : Echoes Eq m m)
    (he : ∀ a, (e a).fault = none ∧ Takes m (e a).data (a = ·)) : Replays m id e where
  echoes := hm
  back _ a _ _ := he a

/-- One part and then the rest, put together by `g`. -/
theorem andThen {m : Read α} {u : α → γ} {e : α → Emit} {m' : Read β} {u' : β → δ} {e' : β → Emit}
    {ε ζ : Type} {g : α → β → ε} {v : ε → ζ} {f : ε → Emit} (hm : Replays m u e)
    (hm' : Replays m' u' e') (hf : ∀ a b, f (g a b) = e a ++ e' b)
    (hv : ∀ a b a' b', u a = u a' → u' b = u' b' → v (g a b) = v (g a' b')) :
    Replays (m >>= fun a => m' >>= fun b => pure (g a b)) v f where
  echoes := hm.echoes.bind fun a a' ha => hm'.echoes.map fun b b' hb => hv a b a' b' ha hb
  back r x r'' h := by
    obtain ⟨a, r₁, h₁, h⟩ := Prog.bind_ok h
    obtain ⟨b, r₂, h₂, h⟩ := Prog.bind_ok h
    simp only [Prog.pure_run, Prod.mk.injEq, Except.ok.injEq] at h
    obtain ⟨rfl, rfl⟩ := h
    obtain ⟨hfa, hta⟩ := hm.back _ _ _ h₁
    obtain ⟨hfb, htb⟩ := hm'.back _ _ _ h₂
    rw [hf, Emit.append_fault_of_none hfa, Emit.append_data hfa]
    exact ⟨hfb, hta.bind fun a' ha => htb.map fun b' hb => hv a b a' b' ha hb⟩

/-- One part, put in a constructor. -/
theorem map {m : Read α} {u : α → γ} {e : α → Emit} {g : α → β} {v : β → δ} {f : β → Emit}
    (hm : Replays m u e) (hf : ∀ a, f (g a) = e a) (hv : ∀ a b, u a = u b → v (g a) = v (g b)) :
    Replays (m >>= fun a => pure (g a)) v f where
  echoes := hm.echoes.map fun a b h => hv a b h
  back r x r' h := by
    obtain ⟨a, r₁, h₁, h⟩ := Prog.bind_ok h
    simp only [Prog.pure_run, Prod.mk.injEq, Except.ok.injEq] at h
    obtain ⟨rfl, rfl⟩ := h
    obtain ⟨hfa, hta⟩ := hm.back _ _ _ h₁
    rw [hf]
    exact ⟨hfa, hta.map fun b hb => hv a b hb⟩

theorem u8 : Replays Read.u8 id Emit.u8 := .exact .u8 fun v => ⟨rfl, .byte v⟩
theorem u16 : Replays Read.u16 id Emit.u16 := .exact .u16 fun v => ⟨rfl, .u16 v⟩
theorem u32 : Replays Read.u32 id Emit.u32 := .exact .u32 fun v => ⟨rfl, .u32 v⟩
theorem i8 : Replays Read.i8 id fun v => Emit.u8 v.toUInt8 := .exact .i8 fun v => ⟨rfl, .i8 v⟩

/-- A value that may be missing. -/
theorem optional {m : Read α} {u : α → γ} {e : α → Emit} (hm : Replays m u e) :
    Replays (decodeOptional m) (Option.map u) (encodeOptional e) where
  echoes := by
    refine Echoes.u8.andThen fun b => ?_
    split
    · exact .pure rfl
    · exact hm.echoes.map fun a b h => congrArg some h
  back r x r' h := by
    obtain ⟨b, r₁, -, h⟩ := Prog.bind_ok h
    split at h
    · simp only [Prog.pure_run, Prod.mk.injEq, Except.ok.injEq] at h
      obtain ⟨rfl, rfl⟩ := h
      refine ⟨rfl, ?_⟩
      have htake : Takes (decodeOptional m) ([0] ++ []) (none = Option.map u ·) :=
        (Takes.byte 0).bind fun b hb => by subst hb; exact .pure rfl
      exact htake
    · obtain ⟨a, r₂, h₂, h⟩ := Prog.bind_ok h
      simp only [Prog.pure_run, Prod.mk.injEq, Except.ok.injEq] at h
      obtain ⟨rfl, rfl⟩ := h
      obtain ⟨hfa, hta⟩ := hm.back _ _ _ h₂
      rw [encodeOptional, Emit.append_fault_of_none (Emit.u8_fault _), Emit.append_data (Emit.u8_fault _)]
      refine ⟨hfa, (Takes.byte 1).bind fun b hb => ?_⟩
      subst hb
      exact hta.map fun a' ha => congrArg some ha

end Read.Replays

/-! ## Entries -/

theorem Obis.ofBytes_toBytes (o : Obis) : Obis.ofBytes o.toBytes = o := rfl

theorem Obis.decode_echoes : Echoes Eq Obis.decode Obis.decode :=
  (Echoes.take 6).map fun _ _ h => by rw [h]

theorem Obis.takes (o : Obis) : Takes Obis.decode (Emit.bytes o.toBytes).data (o = ·) :=
  (Takes.bytes (n := 6) rfl).map fun _ h => by rw [← h, ofBytes_toBytes]

theorem AttributeDescriptor.replays : Read.Replays decode id encode := by
  refine .exact ?_ fun d => ⟨rfl, ?_⟩
  · exact Echoes.u16.andThen fun c => Obis.decode_echoes.andThen fun o => Echoes.i8.map fun a b h => by
      rw [h]
  · obtain ⟨c, o, a⟩ := d
    rw [encode, Emit.append_data rfl, Emit.append_data rfl, List.append_assoc]
    exact (Takes.u16 c).bind fun c' hc => (Obis.takes o).bind fun o' ho => (Takes.i8 a).map fun a' ha => by
      rw [hc, ho, ha]

theorem MethodDescriptor.replays : Read.Replays decode id encode := by
  refine .exact ?_ fun d => ⟨rfl, ?_⟩
  · exact Echoes.u16.andThen fun c => Obis.decode_echoes.andThen fun o => Echoes.i8.map fun a b h => by
      rw [h]
  · obtain ⟨c, o, a⟩ := d
    rw [encode, Emit.append_data rfl, Emit.append_data rfl, List.append_assoc]
    exact (Takes.u16 c).bind fun c' hc => (Obis.takes o).bind fun o' ho => (Takes.i8 a).map fun a' ha => by
      rw [hc, ho, ha]

namespace SelectiveAccess

def unplaced (s : SelectiveAccess) : SelectiveAccess := { s with parameters := s.parameters.unplaced }

theorem replays : Read.Replays decode unplaced encode :=
  Read.Replays.u8.andThen (.value maxDepth) (fun _ _ => rfl) fun a b a' b' ha hb => by
    obtain rfl : a = a' := ha
    exact congrArg (SelectiveAccess.mk a) hb

end SelectiveAccess

namespace AttributeDescriptorWithSelection

def unplaced (d : AttributeDescriptorWithSelection) : AttributeDescriptorWithSelection :=
  { d with access := d.access.map SelectiveAccess.unplaced }

theorem replays : Read.Replays decode unplaced encode :=
  AttributeDescriptor.replays.andThen SelectiveAccess.replays.optional (fun _ _ => rfl)
    fun a b a' b' ha hb => by
      obtain rfl : a = a' := ha
      exact congrArg (AttributeDescriptorWithSelection.mk a) hb

end AttributeDescriptorWithSelection

/-! ## Lists -/

namespace WireList

variable {α β : Type}

def unplaced (l : WireList) : WireList := { l with base := 0 }

theorem count_eq {l l' : WireList} (h : l.unplaced = l'.unplaced) : l.count = l'.count := by
  rw [show l.count = l.unplaced.count from rfl, h]
  rfl

/-- Where a list stands does not matter to its entries: they all decode, and to the same but for
their places. -/
structure Listed (decode : Read α) (u : α → β) (l : WireList) : Prop where
  count_lt : l.count < 2 ^ 32
  walk : Takes (Prog.times l.count (do let _ ← decode)) l.raw fun _ => True
  iter : ∃ items : List β, ∀ l' : WireList, l'.unplaced = l.unplaced →
    (l'.iter decode).map (·.map u) = items.map .ok

/-- A walk over entries that ends well decodes all of them, wherever it starts. -/
theorem iterFrom_echoes {decode : Read α} {u : α → β} (hd : Echoes (fun a b => u a = u b) decode decode)
    {n : Nat} {r r' : Reader} (h : Prog.times n (do let _ ← decode) r = (.ok (), r')) :
    ∃ raw tail, r.Consumed raw tail r' ∧ ∃ items : List β, items.length = n ∧ ∀ r₂ tail₂,
      r₂.rest = raw ++ tail₂ → (iterFrom decode n r₂).map (·.map u) = items.map .ok := by
  induction n generalizing r with
  | zero =>
    simp only [Prog.times, Prog.pure_run, Prod.mk.injEq] at h
    obtain ⟨-, rfl⟩ := h
    exact ⟨[], r.rest, .refl r, [], rfl, fun _ _ _ => rfl⟩
  | succ n ih =>
    obtain ⟨_, r₁, hone, h⟩ := Prog.bind_ok h
    obtain ⟨a, r₀, ha, h₀⟩ := Prog.bind_ok hone
    obtain rfl : r₀ = r₁ := by simpa using h₀
    obtain ⟨bs, tail, hc, ht⟩ := hd r a r₀ ha
    obtain ⟨cs, tail', hc', items, hn, hitems⟩ := ih h
    obtain rfl : tail = cs ++ tail' := hc.after.symm.trans hc'.rest
    refine ⟨bs ++ cs, tail', hc.trans hc', u a :: items, by simp [hn], fun r₂ tail₂ hr₂ => ?_⟩
    obtain ⟨b, r₃, hb, hab, hadv⟩ := ht r₂ (cs ++ tail₂) (by rw [hr₂, List.append_assoc])
    have hr₃ : r₃.rest = cs ++ tail₂ := by
      rw [hadv.rest, hr₂, List.append_assoc, List.drop_left]
    rw [iterFrom, hb, List.map_cons, List.map_cons, hitems r₃ tail₂ hr₃]
    exact congrArg (· :: _) (congrArg Except.ok hab.symm)

/-- The entries of a walk that takes `raw`. -/
theorem items_of_walk {decode : Read α} {u : α → β}
    (hd : Echoes (fun a b => u a = u b) decode decode) {n : Nat} {raw : Bytes}
    (h : Takes (Prog.times n (do let _ ← decode)) raw fun _ => True) :
    ∃ items : List β, ∀ r tail, r.rest = raw ++ tail →
      (iterFrom decode n r).map (·.map u) = items.map .ok := by
  obtain ⟨⟨⟩, r', hrun, -, hadv⟩ := h (Reader.new raw) [] (by simp [Reader.new])
  obtain ⟨bs, tail, hc, items, -, hitems⟩ := iterFrom_echoes hd hrun
  have hlen : raw.length = bs.length := by
    have h₁ := hadv.pos
    have h₂ := hc.advanced.pos
    omega
  have hrest : raw ++ [] = bs ++ tail := by
    rw [← hc.rest]
    simp [Reader.new]
  obtain ⟨rfl, -⟩ := List.append_inj hrest hlen
  exact ⟨items, hitems⟩

theorem decodeOf_echoes {decode : Read α} {u : α → β}
    (hd : Echoes (fun a b => u a = u b) decode decode) :
    Echoes (fun l l' => l.unplaced = l'.unplaced ∧ l.Listed decode u) (decodeOf decode)
      (decodeOf decode) := by
  refine Echoes.lengthLt.bind fun n n' ⟨h, hn⟩ => ?_
  subst h
  refine Echoes.offset.bind fun o o' _ => .probe (hd.void.times n) fun raw hraw => .pure ⟨rfl, hn, hraw, ?_⟩
  obtain ⟨items, hitems⟩ := items_of_walk hd hraw
  refine ⟨items, fun l' hl' => ?_⟩
  obtain ⟨count, raw', base⟩ := l'
  obtain ⟨rfl, rfl⟩ : count = n ∧ raw' = raw := by simpa [unplaced] using hl'
  exact hitems _ [] (by simp)

/-- A list is read back. -/
theorem Listed.takes {decode : Read α} {u : α → β} {l : WireList} (h : l.Listed decode u) :
    l.encode.fault = none ∧
      Takes (decodeOf decode) l.encode.data fun l' => l.unplaced = l'.unplaced := by
  refine ⟨Emit.counted_fault h.count_lt _, .counted h.count_lt (.atOffset fun base => ?_)⟩
  have hw := h.walk.probe (k := fun raw => pure { count := l.count, raw, base })
    (Q := fun l' : WireList => l.unplaced = l'.unplaced) (.pure rfl)
  rwa [List.append_nil] at hw

theorem Listed.of_decodeOf {decode : Read α} {u : α → β}
    (hd : Echoes (fun a b => u a = u b) decode decode) {r r' : Reader} {l : WireList}
    (h : decodeOf decode r = (.ok l, r')) : l.Listed decode u := by
  obtain ⟨bs, tail, hc, ht⟩ := decodeOf_echoes hd r l r' h
  obtain ⟨_, _, _, hl, _⟩ := ht r tail hc.rest
  exact hl.2

theorem length_iterFrom (decode : Read α) (n : Nat) (r : Reader) :
    (iterFrom decode n r).length = n := by
  induction n generalizing r with
  | zero => rfl
  | succ n ih => rw [iterFrom, List.length_cons, ih]

@[simp] theorem length_iter (decode : Read α) (l : WireList) : (l.iter decode).length = l.count :=
  length_iterFrom ..

/-- Results that are all values once `u` forgets a part of them are values. -/
theorem values_of_map {u : α → β} {rs : List (Result α)} {items : List β}
    (h : rs.map (·.map u) = items.map .ok) : ∃ xs : List α, rs = xs.map .ok ∧ xs.map u = items := by
  induction rs generalizing items with
  | nil => exact ⟨[], rfl, (List.map_eq_nil_iff.mp h.symm).symm⟩
  | cons r rs ih =>
    cases items with
    | nil => cases h
    | cons b items =>
      rw [List.map_cons, List.map_cons, List.cons.injEq] at h
      obtain ⟨xs, hxs, hu⟩ := ih h.2
      cases r with
      | error e => cases h.1
      | ok a => exact ⟨a :: xs, by rw [hxs]; rfl, by rw [List.map_cons, hu, Except.ok.inj h.1]⟩

/-- The entries of a list that was decoded, and their values without the places. -/
theorem Listed.entries {decode : Read α} {u : α → β} {l : WireList} (h : l.Listed decode u) :
    ∃ items : List β, ∀ l' : WireList, l'.unplaced = l.unplaced →
      ∃ xs : List α, l'.iter decode = xs.map .ok ∧ xs.map u = items := by
  obtain ⟨items, hitems⟩ := h.iter
  exact ⟨items, fun l' hl' => values_of_map (hitems l' hl')⟩

/-- Elements one after another are read one after another. -/
theorem iterFrom_chunks {decode : Read α} {chunks : List Bytes}
    (h : ∀ c ∈ chunks, Takes decode c fun _ => True) {r : Reader} {tail : Bytes}
    (hr : r.rest = chunks.flatten ++ tail) :
    ∃ xs : List α, iterFrom decode chunks.length r = xs.map .ok ∧
      List.Forall₂ (fun x c => ∃ r tail, r.rest = c ++ tail ∧ (decode r).1 = .ok x) xs chunks := by
  induction chunks generalizing r with
  | nil => exact ⟨[], rfl, .nil⟩
  | cons c cs ih =>
    rw [List.flatten_cons, List.append_assoc] at hr
    obtain ⟨x, r', hx, -, hadv⟩ := h c (List.mem_cons_self ..) r _ hr
    have hr' : r'.rest = cs.flatten ++ tail := by rw [hadv.rest, hr, List.drop_left]
    obtain ⟨xs, hxs, hall⟩ := ih (fun c hc => h c (List.mem_cons_of_mem _ hc)) hr'
    refine ⟨x :: xs, ?_, .cons ⟨r, _, hr, by rw [hx]⟩ hall⟩
    rw [List.length_cons, iterFrom, hx, hxs]
    rfl

/-- A list of elements one after another is decoded, and holds nothing else. -/
theorem decodeOf_chunks {decode : Read α} {chunks : List Bytes}
    (h : ∀ c ∈ chunks, Takes decode c fun _ => True) :
    Takes (Prog.times chunks.length (do let _ ← decode)) chunks.flatten fun _ => True := by
  induction chunks with
  | nil => exact .pure trivial
  | cons c cs ih =>
    rw [List.flatten_cons, List.length_cons, Prog.times]
    refine Takes.bind ((h c (List.mem_cons_self ..)).map (Q := fun _ => True) fun _ _ => trivial)
      fun _ _ => ih fun c hc => h c (List.mem_cons_of_mem _ hc)

/-- Entries that take bytes are no more than the bytes that they take. -/
theorem Listed.count_le {decode : Read α} {u : α → β} {l : WireList} (h : l.Listed decode u)
    (hd : Echoes (fun a b => u a = u b) decode decode)
    (hne : ∃ e, (decode (Reader.new [])).1 = .error e) : l.count ≤ l.raw.length := by
  have hstep : ∀ n r r', Prog.times n (do let _ ← decode) r = (.ok (), r') → r.pos + n ≤ r'.pos := by
    intro n
    induction n with
    | zero =>
      intro r r' hr
      simp only [Prog.times, Prog.pure_run, Prod.mk.injEq] at hr
      rw [hr.2, Nat.add_zero]
    | succ n ih =>
      intro r r' hr
      obtain ⟨_, r₁, hone, hr⟩ := Prog.bind_ok hr
      obtain ⟨a, r₀, ha, h₀⟩ := Prog.bind_ok hone
      obtain rfl : r₀ = r₁ := by simpa using h₀
      obtain ⟨bs, tail, hc, ht⟩ := hd r a r₀ ha
      have hbs : bs ≠ [] := by
        rintro rfl
        obtain ⟨b, r₂, hb, -⟩ := ht (Reader.new []) [] rfl
        obtain ⟨e, he⟩ := hne
        rw [hb] at he
        cases he
      have hpos := hc.advanced.pos
      have hlen := List.length_pos_iff.mpr hbs
      have := ih r₀ r' hr
      omega
  obtain ⟨⟨⟩, r', hrun, -, hadv⟩ := h.walk (Reader.new l.raw) [] (by simp [Reader.new])
  have h₁ := hstep _ _ _ hrun
  have h₂ := hadv.pos
  simp only [Reader.new, Reader.withBase_pos] at h₁ h₂
  omega

/-- The elements that decode. -/
def entries (decode : Read α) (l : WireList) : List α := (l.iter decode).filterMap Except.toOption

/-- The elements of a list that was decoded are all values. -/
theorem entries_of_gives {decode : Read α} (hd : Echoes (fun _ _ => True) decode decode) {l : WireList}
    (h : (decodeOf decode).Gives l) :
    l.iter decode = (l.entries decode).map .ok ∧ (l.entries decode).length = l.count ∧
      l.count < 2 ^ 32 := by
  obtain ⟨r, r', hrun⟩ := h
  have hlisted : l.Listed decode fun _ => () :=
    .of_decodeOf (hd.mono fun _ _ _ => rfl) hrun
  obtain ⟨items, hitems⟩ := hlisted.entries
  obtain ⟨xs, hxs, -⟩ := hitems l rfl
  have hentries : l.entries decode = xs := by
    rw [entries, hxs, List.filterMap_map]
    exact List.filterMap_some
  refine ⟨by rw [hxs, hentries], ?_, hlisted.count_lt⟩
  rw [hentries, ← length_iter decode l, hxs, List.length_map]

end WireList

theorem VariableAccess.decode_echoes :
    Echoes (fun _ _ => True) VariableAccess.decode VariableAccess.decode := by
  refine Echoes.u8.andThen fun b => ?_
  split
  · exact Echoes.u16.map fun _ _ _ => trivial
  · exact Echoes.u16.andThen fun _ => Echoes.u8.andThen fun _ =>
      (Data.decodeAt_echoes _).map fun _ _ _ => trivial
  · exact Echoes.u16.map fun _ _ _ => trivial
  · exact Echoes.u8.andThen fun _ => Echoes.u16.andThen fun _ =>
      Echoes.lengthPrefixed.map fun _ _ _ => trivial
  · exact Echoes.u8.andThen fun _ => Echoes.u16.map fun _ _ _ => trivial
  · exact .errBack

theorem AccessRequestSpecification.decode_echoes :
    Echoes (fun _ _ => True) AccessRequestSpecification.decode AccessRequestSpecification.decode := by
  refine Echoes.u8.andThen fun b => ?_
  split
  · exact AttributeDescriptor.replays.echoes.map fun _ _ _ => trivial
  · exact AttributeDescriptor.replays.echoes.map fun _ _ _ => trivial
  · exact MethodDescriptor.replays.echoes.map fun _ _ _ => trivial
  · exact AttributeDescriptorWithSelection.replays.echoes.map fun _ _ _ => trivial
  · exact AttributeDescriptorWithSelection.replays.echoes.map fun _ _ _ => trivial
  · exact .errBack

theorem DataAccessResult.decode_echoes :
    Echoes (fun _ _ => True) DataAccessResult.decode DataAccessResult.decode :=
  Echoes.u8.map fun _ _ _ => trivial

theorem ActionResult.decode_echoes : Echoes (fun _ _ => True) ActionResult.decode ActionResult.decode :=
  Echoes.u8.map fun _ _ _ => trivial

theorem GetDataResult.decode_echoes : Echoes (fun _ _ => True) GetDataResult.decode GetDataResult.decode := by
  refine Echoes.u8.andThen fun b => ?_
  split
  · exact (Data.decodeAt_echoes _).map fun _ _ _ => trivial
  · exact Echoes.u8.map fun _ _ _ => trivial
  · exact .errBack

theorem ReadResult.decode_echoes : Echoes (fun _ _ => True) ReadResult.decode ReadResult.decode := by
  refine Echoes.u8.andThen fun b => ?_
  split
  · exact (Data.decodeAt_echoes _).map fun _ _ _ => trivial
  · exact Echoes.u8.map fun _ _ _ => trivial
  · exact Echoes.u8.andThen fun _ => Echoes.u16.andThen fun _ =>
      Echoes.lengthPrefixed.map fun _ _ _ => trivial
  · exact Echoes.u16.map fun _ _ _ => trivial
  · exact .errBack

theorem AccessResponseSpecification.decode_echoes :
    Echoes (fun _ _ => True) AccessResponseSpecification.decode AccessResponseSpecification.decode := by
  refine Echoes.u8.andThen fun b => ?_
  split
  · exact DataAccessResult.decode_echoes.map fun _ _ _ => trivial
  · exact DataAccessResult.decode_echoes.map fun _ _ _ => trivial
  · exact ActionResult.decode_echoes.map fun _ _ _ => trivial
  · exact .errBack

theorem ActionResponseWithOptionalData.decode_echoes :
    Echoes (fun _ _ => True) ActionResponseWithOptionalData.decode
      ActionResponseWithOptionalData.decode := by
  have hreturn : Echoes (fun _ _ => True) (decodeOptional GetDataResult.decode)
      (decodeOptional GetDataResult.decode) := by
    refine Echoes.u8.andThen fun b => ?_
    split
    · exact .pure trivial
    · exact GetDataResult.decode_echoes.map fun _ _ _ => trivial
  exact ActionResult.decode_echoes.bind fun _ _ _ => hreturn.map fun _ _ _ => trivial

theorem WriteResult.decode_echoes : Echoes (fun _ _ => True) WriteResult.decode WriteResult.decode := by
  refine Echoes.u8.andThen fun b => ?_
  split
  · exact .pure trivial
  · exact Echoes.u8.map fun _ _ _ => trivial
  · exact Echoes.u16.map fun _ _ _ => trivial
  · exact .errBack

/-! ## Requests -/

theorem Read.yields_errBack {α : Type} (k : ErrorKind) (n : Nat) (P : α → Prop) :
    (Read.errBack k n : Read α).Yields P := fun _ => nofun

theorem Read.yields_fail {α : Type} (k : ErrorKind) (P : α → Prop) :
    (Read.fail k : Read α).Yields P := fun _ => nofun

/-- The parts of a request that hold values are what their decoders gave. -/
def GetRequest.Decoded : GetRequest → Prop
  | normal _ _ access => (decodeOptional SelectiveAccess.decode).Gives access
  | next _ _ => True
  | withList _ list => (WireList.decodeOf AttributeDescriptorWithSelection.decode).Gives list

theorem GetRequest.decode_decoded : GetRequest.decode.Yields Decoded := by
  refine (Prog.Yields.any _).bind fun choice _ => (Prog.Yields.any _).bind fun i _ => ?_
  split
  · exact (Prog.Yields.any _).bind fun d _ => (Prog.Yields.self _).map fun a h => h
  · exact (Prog.Yields.any _).map fun _ _ => trivial
  · exact (Prog.Yields.self _).map fun _ h => h
  · exact Read.yields_errBack _ _ _

def SetRequest.Decoded : SetRequest → Prop
  | normal _ _ access value =>
    (decodeOptional SelectiveAccess.decode).Gives access ∧ Data.decode.Gives value
  | withFirstDataBlock _ _ access _ => (decodeOptional SelectiveAccess.decode).Gives access
  | withDataBlock _ _ => True
  | withList _ descriptors values =>
    (WireList.decodeOf AttributeDescriptorWithSelection.decode).Gives descriptors ∧
      (WireList.decodeOf Data.decode).Gives values
  | withListAndFirstDataBlock _ descriptors _ =>
    (WireList.decodeOf AttributeDescriptorWithSelection.decode).Gives descriptors

theorem SetRequest.decode_decoded : SetRequest.decode.Yields Decoded := by
  refine (Prog.Yields.any _).bind fun choice _ => (Prog.Yields.any _).bind fun i _ => ?_
  split
  · exact (Prog.Yields.any _).bind fun d _ => (Prog.Yields.self _).bind fun a ha =>
      (Prog.Yields.self _).map fun v hv => ⟨ha, hv⟩
  · exact (Prog.Yields.any _).bind fun d _ => (Prog.Yields.self _).bind fun a ha =>
      (Prog.Yields.any _).map fun _ _ => ha
  · exact (Prog.Yields.any _).map fun _ _ => trivial
  · exact (Prog.Yields.self _).bind fun ds hds => (Prog.Yields.self _).map fun vs hvs => ⟨hds, hvs⟩
  · exact (Prog.Yields.self _).bind fun ds hds => (Prog.Yields.any _).map fun _ _ => hds
  · exact Read.yields_errBack _ _ _

def ActionRequest.Decoded : ActionRequest → Prop
  | normal _ _ parameters => (decodeOptional Data.decode).Gives parameters
  | withList _ descriptors parameters =>
    (WireList.decodeOf MethodDescriptor.decode).Gives descriptors ∧
      (WireList.decodeOf Data.decode).Gives parameters
  | withListAndFirstPblock _ descriptors _ =>
    (WireList.decodeOf MethodDescriptor.decode).Gives descriptors
  | nextPblock _ _ | withFirstPblock _ _ _ | withPblock _ _ => True

theorem ActionRequest.decode_decoded : ActionRequest.decode.Yields Decoded := by
  refine (Prog.Yields.any _).bind fun choice _ => (Prog.Yields.any _).bind fun i _ => ?_
  split
  · exact (Prog.Yields.any _).bind fun d _ => (Prog.Yields.self _).map fun p hp => hp
  · exact (Prog.Yields.any _).map fun _ _ => trivial
  · exact (Prog.Yields.self _).bind fun ds hds => (Prog.Yields.self _).map fun vs hvs => ⟨hds, hvs⟩
  · exact (Prog.Yields.any _).bind fun d _ => (Prog.Yields.any _).map fun _ _ => trivial
  · exact (Prog.Yields.self _).bind fun ds hds => (Prog.Yields.any _).map fun _ _ => hds
  · exact (Prog.Yields.any _).map fun _ _ => trivial
  · exact Read.yields_errBack _ _ _

def AccessRequest.Decoded (q : AccessRequest) : Prop :=
  (WireList.decodeOf AccessRequestSpecification.decode).Gives q.specification ∧
    (WireList.decodeOf Data.decode).Gives q.data

theorem AccessRequest.decode_decoded : AccessRequest.decode.Yields Decoded :=
  (Prog.Yields.any _).bind fun _ _ => (Prog.Yields.any _).bind fun _ _ =>
    (Prog.Yields.self _).bind fun _ hs => (Prog.Yields.self _).map fun _ hd => ⟨hs, hd⟩

def ReadRequest.Decoded (q : ReadRequest) : Prop :=
  (WireList.decodeOf VariableAccess.decode).Gives q.specification

theorem ReadRequest.decode_decoded : ReadRequest.decode.Yields Decoded :=
  (Prog.Yields.self _).map fun _ h => h

def WriteRequest.Decoded (q : WriteRequest) : Prop :=
  (WireList.decodeOf VariableAccess.decode).Gives q.specification ∧
    (WireList.decodeOf Data.decode).Gives q.values

theorem WriteRequest.decode_decoded : WriteRequest.decode.Yields Decoded :=
  (Prog.Yields.self _).bind fun _ hs => (Prog.Yields.self _).map fun _ hv => ⟨hs, hv⟩

/-- The requests that a server serves. -/
def Apdu.Decoded : Apdu → Prop
  | getRequest q => q.Decoded
  | setRequest q => q.Decoded
  | actionRequest q => q.Decoded
  | accessRequest q => q.Decoded
  | readRequest q => q.Decoded
  | writeRequest q | unconfirmedWriteRequest q => q.Decoded
  | _ => True

theorem Apdu.decodePlain_decoded (tag : ApduTag) : (decodePlain tag).Yields Decoded := by
  cases tag with
  | getRequest => exact GetRequest.decode_decoded.map fun _ h => h
  | setRequest => exact SetRequest.decode_decoded.map fun _ h => h
  | actionRequest => exact ActionRequest.decode_decoded.map fun _ h => h
  | accessRequest => exact AccessRequest.decode_decoded.map fun _ h => h
  | readRequest => exact ReadRequest.decode_decoded.map fun _ h => h
  | writeRequest => exact WriteRequest.decode_decoded.map fun _ h => h
  | unconfirmedWriteRequest => exact WriteRequest.decode_decoded.map fun _ h => h
  | gatewayRequest =>
    exact (Prog.Yields.any _).bind fun _ _ => (Prog.Yields.any _).bind fun _ _ =>
      (Prog.Yields.any _).map fun _ _ => trivial
  | gatewayResponse =>
    exact (Prog.Yields.any _).bind fun _ _ => (Prog.Yields.any _).bind fun _ _ =>
      (Prog.Yields.any _).map fun _ _ => trivial
  | _ => first
    | exact Read.yields_errBack _ _ _
    | exact (Prog.Yields.any _).map fun _ _ => trivial

theorem Apdu.fromBytes_decoded {bytes : Bytes} {req : Apdu} (h : fromBytes bytes = .ok req) :
    req.Decoded := by
  obtain ⟨r, hr, -⟩ := Read.fromBytes_ok h
  refine Prog.Yields.of_run (P := Decoded) ?_ hr
  refine (Prog.Yields.any _).bind fun b _ => ?_
  split
  · exact Read.yields_fail _ _
  · exact (Prog.Yields.any _).map fun _ _ => trivial
  · exact (Prog.Yields.any _).map fun _ _ => trivial
  · exact (Prog.Yields.any _).map fun _ _ => trivial
  · exact (Prog.Yields.any _).map fun _ _ => trivial
  · refine (Prog.Yields.any _).bind fun _ _ => ?_
    split
    · exact (Prog.Yields.any _).map fun _ _ => trivial
    · exact decodePlain_decoded _

end Dlms
