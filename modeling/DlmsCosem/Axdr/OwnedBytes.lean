import DlmsCosem.Axdr.OwnedRoundTrip

/-!
# The bytes of an owned value

`DataBuf` writes every level of a tree anew, with each length in its shortest form, and a borrowed value
writes the elements of its sequences as they were read. The bytes are the same where what is inside the
sequences is in its shortest form already, and only there (`DataBuf.parse_encode`).
-/

namespace Dlms

namespace Data

/-- What is inside a sequence is in its shortest form. -/
def Shortest (d : Data) : Prop :=
  ∀ s, d.seq? = some s → Whole (Prog.times s.count (skipShortest s.left)) s.raw

/-- The elements of a sequence that was walked past in its shortest form. -/
theorem decodeSeq_shortest {left : Nat} {r r' q : Reader} {s : Seq} (hs : decodeSeq left r = (.ok s, r'))
    (hw : (Read.shortestLength >>= fun n => Prog.times n (skipShortest left)) r = (.ok (), q)) :
    Whole (Prog.times s.count (skipShortest s.left)) s.raw := by
  obtain ⟨n, r₁, hn, hwalk⟩ := Prog.bind_ok hw
  have hlen := (Read.shortestLength_ok hn).1
  -- The other walk, which the decoder makes, ends in the same place.
  have htimes : ∀ n r, Prog.times n (skipShortest left) r = (.ok (), q) →
      Prog.times n (skip left) r = (.ok (), q) := by
    intro n
    induction n with
    | zero => exact fun r h => h
    | succ n ih =>
      intro r h
      obtain ⟨⟨⟩, r₂, hfirst, h⟩ := Prog.bind_ok h
      exact (Prog.bind_run_ok (skip_of_skipShortest hfirst)).trans (ih r₂ h)
  have hend : r' = q := by
    have h := (decodeSeq_walks left r r').mp ⟨s, hs⟩
    rw [Prog.bind_run_ok hlen, htimes n r₁ hwalk] at h
    exact (Prod.mk.inj h).2.symm
  subst hend
  obtain ⟨n', r₂, hn', hs⟩ := Prog.bind_ok hs
  obtain ⟨rfl, rfl⟩ : n = n' ∧ r₁ = r₂ := by simpa [hlen] using hn'
  obtain ⟨raw, r₃, hraw, hs⟩ := Read.probe_ok hs
  obtain ⟨rfl, rfl⟩ : { count := n, raw, base := r₁.offset, left } = s ∧ r₃ = r' := by simpa using hs
  obtain ⟨bs, tail, hc, ht⟩ := (skipShortest_echoes left).times n r₁ () r₃ hwalk
  have hbs : bs = raw := by
    have hpos := hc.advanced.pos
    have hpos' := hraw.advanced.pos
    exact (List.append_inj (hc.rest.symm.trans hraw.rest) (by omega)).1
  rw [hbs] at ht
  exact .of_takes ht

theorem decodeAt_shortest {left : Nat} {r r' q : Reader} {d : Data} (hd : decodeAt left r = (.ok d, r'))
    (hw : skipShortest left r = (.ok (), q)) : d.Shortest := by
  intro s hs
  cases left with
  | zero => cases hd
  | succ left =>
    obtain ⟨b, r₁, hb, hd⟩ := Prog.bind_ok hd
    obtain ⟨b', r₂, hb', hw⟩ := Prog.bind_ok hw
    obtain ⟨rfl, rfl⟩ : b = b' ∧ r₁ = r₂ := by simpa [hb] using hb'
    cases htag : DataTag.fromU8 b with
    | none =>
      rw [htag] at hd
      cases hd
    | some tag =>
      rw [htag] at hd hw
      have hscalar : ∀ {α : Type} {m : Read α} {g : α → Data}, (∀ a, (g a).seq? = none) →
          (m >>= fun a => pure (g a)) r₁ = (.ok d, r') → False := by
        intro α m g hg h
        obtain ⟨a, r₂, -, h⟩ := Prog.bind_ok h
        obtain ⟨rfl, -⟩ : g a = d ∧ r₂ = r' := by simpa using h
        rw [hg a] at hs
        cases hs
      cases tag with
      | nullData | dontCare =>
        obtain rfl := Except.ok.inj (Prod.mk.inj hd).1
        cases hs
      | array =>
        obtain ⟨t, r₂, ht, hd⟩ := Prog.bind_ok hd
        obtain ⟨rfl, -⟩ : Data.array t = d ∧ r₂ = r' := by simpa using hd
        obtain rfl := Option.some.inj hs
        exact decodeSeq_shortest ht hw
      | «structure» =>
        obtain ⟨t, r₂, ht, hd⟩ := Prog.bind_ok hd
        obtain ⟨rfl, -⟩ : Data.structure t = d ∧ r₂ = r' := by simpa using hd
        obtain rfl := Option.some.inj hs
        exact decodeSeq_shortest ht hw
      | bitString =>
        obtain ⟨bits, r₂, -, hd⟩ := Prog.bind_ok hd
        obtain ⟨bytes, r₃, -, hd⟩ := Prog.bind_ok hd
        obtain ⟨rfl, -⟩ : bitString { bits, bytes } = d ∧ r₃ = r' := by simpa using hd
        cases hs
      | _ => exact (hscalar (fun _ => rfl) hd).elim

/-- What is inside an item is inside the value. -/
theorem Within.trans {d e f : Data} (h : d.Within e) (h' : e.Within f) : d.Within f := by
  induction h' with
  | self => exact h
  | item _ hs hmem ih => exact ih.item hs hmem

/-- No compact array at any level. -/
def Expanded (d : Data) : Prop := ∀ e, d.Within e → ∀ c, e ≠ .compactArray c

theorem Expanded.item {d e : Data} {s : Seq} (h : d.Expanded) (hs : d.seq? = some s)
    (he : .ok e ∈ s.iter.collect.1) : e.Expanded :=
  fun f hf => h f ((Within.self.item hs he).trans hf)

end Data

namespace DataBuf

/-- The items of a sequence are walked past one after another. -/
theorem walked_all {left : Nat} {ts : List DataBuf} (hf : ∀ t ∈ ts, t.Fits left)
    (h : ∀ t ∈ ts, Takes (Data.skipShortest left) t.encode.data fun _ => True) :
    Takes (Prog.times ts.length (Data.skipShortest left)) (encodeAll ts).data fun _ => True := by
  induction ts with
  | nil => exact .pure trivial
  | cons t ts ih =>
    have ht := h t (List.mem_cons_self ..)
    rw [Returns.encodeAll_data (hf t (List.mem_cons_self ..)).returns]
    exact ht.bind fun _ _ => ih (fun t ht => hf t (List.mem_cons_of_mem _ ht)) fun t ht =>
      h t (List.mem_cons_of_mem _ ht)

/-- A tree is written in the shortest form. -/
theorem Fits.walked {left : Nat} {t : DataBuf} (h : t.Fits left) :
    Takes (Data.skipShortest left) t.encode.data fun _ => True := by
  induction left generalizing t with
  | zero => exact h.elim
  | succ left ih =>
    cases t with
    | array ts | «structure» ts =>
      have hitems := walked_all h.2 fun t ht => ih (h.2 t ht)
      rw [encode, Emit.append_data (Emit.u8_fault _), Emit.u8_data, Returns.contents_data h.1]
      exact (Takes.u8 _).bind fun b hb => by subst hb; exact Data.walked_counted h.1 hitems
    | _ =>
      obtain ⟨d, hd, hplain⟩ := h
      rw [encode_ofScalar hd]
      exact hplain.walked left

/-- The items of a sequence in its shortest form are written as they were read, where each item is. -/
theorem gather_data {levels : Nat} (hitem : ∀ e t, e.Decoded levels → e.Expanded → e.Shortest →
      fromData e = .ok t → t.encode.fault = none ∧ t.encode.data = e.encode.data)
    {n : Nat} {r q : Reader} {ts : List DataBuf}
    (hw : Prog.times n (Data.skipShortest levels) r = (.ok (), q))
    (hts : gather fromData (SeqIter.collect ⟨r, n, levels⟩).1 = .ok ts)
    (hexp : ∀ e, .ok e ∈ (SeqIter.collect ⟨r, n, levels⟩).1 → e.Expanded) :
    r.Consumed (encodeAll ts).data q.rest q := by
  induction n generalizing r ts with
  | zero =>
    rw [SeqIter.collect_zero] at hts
    obtain rfl := Except.ok.inj hts
    obtain ⟨-, rfl⟩ := Prod.mk.inj hw
    exact .refl r
  | succ n ih =>
    obtain ⟨⟨⟩, r₁, hfirst, hw⟩ := Prog.bind_ok hw
    obtain ⟨e, he⟩ := (Data.walks_skip levels r r₁).mpr (Data.skip_of_skipShortest hfirst)
    rw [SeqIter.collect_succ, he] at hts hexp
    obtain ⟨e', hitem', hts⟩ := Result.bind_ok.mp hts
    obtain rfl : e = e' := Except.ok.inj hitem'
    obtain ⟨t, ht, hts⟩ := Result.bind_ok.mp hts
    obtain ⟨ts', hts', hts⟩ := Result.bind_ok.mp hts
    obtain rfl := Except.ok.inj hts
    obtain ⟨-, hc⟩ := Data.decodeAt_spells levels he hfirst
    obtain ⟨hf, hdata⟩ := hitem e t ⟨r, r₁, he⟩ (hexp e (List.mem_cons_self ..))
      (Data.decodeAt_shortest he hfirst) ht
    have ih := ih hw hts' fun e he => hexp e (List.mem_cons_of_mem _ he)
    rw [encodeAll, Emit.append_data hf, hdata]
    refine Reader.Consumed.trans ?_ ih
    rw [← ih.rest]
    exact hc

/-- What is inside a value decides whether its copy is written as it is. -/
theorem fromData_data {left : Nat} {d : Data} {t : DataBuf} (hd : d.Decoded left) (hexp : d.Expanded)
    (hshort : d.Shortest) (h : fromData d = .ok t) :
    t.encode.fault = none ∧ t.encode.data = d.encode.data := by
  refine ⟨(fromData_fits hd h).returns.fault, ?_⟩
  induction left generalizing d t with
  | zero =>
    obtain ⟨r, r', hd⟩ := hd
    cases hd
  | succ left ih =>
    have hfits := fromData_fits hd h
    obtain ⟨r, r', hr⟩ := hd
    have hchecked := (Data.decodeAt_checked left).of_run hr
    have hitems : ∀ s ts, d.seq? = some s → gather fromData s.iter.collect.1 = .ok ts →
        ts.length = s.count ∧ (encodeAll ts).data = s.raw := by
      intro s ts hs hts
      have hseq := hchecked.seq s hs
      obtain ⟨⟨⟩, reader, hrun, -, -⟩ := hseq.raw (Reader.withBase s.raw s.base) [] (by simp)
      rw [← hseq.left_eq] at hrun
      have hcount : ts.length = s.count :=
        (gather_ok hts).1.trans (SeqIter.collect_of_times hrun).1
      obtain ⟨⟨⟩, q, hq, -, hadv⟩ := ((hshort s hs).takes ((Data.skipShortest_echoes s.left).times s.count))
        (Reader.withBase s.raw s.base) [] (by simp)
      have hc := gather_data (fun e t he hex hsh ht => by
          rw [hseq.left_eq] at he
          exact ⟨(fromData_fits he ht).returns.fault, ih he hex hsh ht⟩)
        hq hts fun e he => hexp.item hs he
      have hrest : s.raw = (encodeAll ts).data ++ q.rest := hc.rest
      have hend : q.rest = [] := by
        rw [hadv.rest]
        simp
      exact ⟨hcount, by rw [hrest, hend, List.append_nil]⟩
    rw [fromData_eq] at h
    cases d with
    | array s =>
      obtain ⟨ts, hts, h⟩ := Result.bind_ok.mp h
      obtain rfl := Except.ok.inj h
      obtain ⟨hcount, hraw⟩ := hitems s ts rfl hts
      rw [encode, Emit.append_data (Emit.u8_fault _), Returns.contents_data hfits.1, hcount, hraw,
        Data.encode, Emit.append_data (Emit.u8_fault _)]
      rfl
    | «structure» s =>
      obtain ⟨ts, hts, h⟩ := Result.bind_ok.mp h
      obtain rfl := Except.ok.inj h
      obtain ⟨hcount, hraw⟩ := hitems s ts rfl hts
      rw [encode, Emit.append_data (Emit.u8_fault _), Returns.contents_data hfits.1, hcount, hraw,
        Data.encode, Emit.append_data (Emit.u8_fault _)]
      rfl
    | compactArray c => exact absurd rfl (hexp _ .self c)
    | _ => exact congrArg Emit.data (encode_ofScalar h)

/-- Where the copy of a sequence is written as the sequence is, the items of both are. -/
theorem shortest_of_data {left : Nat} {d : Data} {t : DataBuf} (hd : d.Decoded left)
    (h : fromData d = .ok t) (hdata : t.encode.data = d.encode.data) : d.Shortest := by
  intro s hs
  have hfits := fromData_fits hd h
  cases left with
  | zero =>
    obtain ⟨r, r', hd⟩ := hd
    cases hd
  | succ left =>
    obtain ⟨r, r', hr⟩ := hd
    have hseq := ((Data.decodeAt_checked left).of_run hr).seq s hs
    obtain ⟨⟨⟩, reader, hrun, -, -⟩ := hseq.raw (Reader.withBase s.raw s.base) [] (by simp)
    rw [← hseq.left_eq] at hrun
    have hitems : ∀ ts : List DataBuf, ts.length < 2 ^ 32 → (∀ t ∈ ts, t.Fits left) →
        gather fromData s.iter.collect.1 = .ok ts →
        (Emit.length ts.length ++ encodeAll ts).data = (Emit.length s.count ++ Emit.bytes s.raw).data →
        Whole (Prog.times s.count (Data.skipShortest s.left)) s.raw := by
      intro ts hlen hts hgather hbytes
      have hcount : ts.length = s.count :=
        (gather_ok hgather).1.trans (SeqIter.collect_of_times hrun).1
      rw [Returns.contents_data hlen, hcount] at hbytes
      have hf := (Emit.length_sized hseq.count_lt).fault
      rw [Emit.append_data hf, Emit.append_data hf, Emit.bytes_data, Emit.bytes_data] at hbytes
      have hraw := List.append_cancel_left hbytes
      rw [← hraw, ← hcount, hseq.left_eq]
      exact .of_takes (walked_all hts fun t ht => (hts t ht).walked)
    rw [fromData_eq] at h
    cases d with
    | array s' | «structure» s' =>
      obtain rfl := Option.some.inj hs
      obtain ⟨ts, hts, h⟩ := Result.bind_ok.mp h
      obtain rfl := Except.ok.inj h
      refine hitems ts hfits.1 hfits.2 hts ?_
      rw [encode, Emit.append_data (Emit.u8_fault _), Data.encode, Emit.append_data (Emit.u8_fault _)] at hdata
      exact List.append_cancel_left hdata
    | _ => cases hs

/-- What is parsed is written without a fault and parsed again, to the same tree. Without compact arrays
the bytes are those of the borrowed value if and only if what is inside its sequences is in its shortest
form. -/
theorem parse_encode :
    (∀ b t, parse b = .ok t → t.encode.fault = none ∧ parse t.encode.data = .ok t) ∧
      ∀ b d t, Read.fromBytes Data.decode b = .ok d → fromData d = .ok t → d.Expanded →
        (t.encode.data = d.encode.data ↔ d.Shortest) := by
  have hdec : ∀ b d, Read.fromBytes Data.decode b = .ok d → d.Decoded maxDepth := fun b d h =>
    let ⟨r, hr, _⟩ := Read.fromBytes_ok h
    ⟨_, r, hr⟩
  refine ⟨fun b t h => ?_, fun b d t hd ht hexp => ?_⟩
  · obtain ⟨d, hd, ht⟩ := Result.bind_ok.mp h
    have hret := (fromData_fits (hdec b d hd) ht).returns
    obtain ⟨e, he, hcopy⟩ := hret.takes.fromBytes
    exact ⟨hret.fault, Result.bind_ok.mpr ⟨e, he, hcopy⟩⟩
  · exact ⟨shortest_of_data (hdec b d hd) ht, fun hs => (fromData_data (hdec b d hd) hexp hs ht).2⟩

/-- An array of a boolean that is neither 0 nor 1: it holds no compact array, and its copy is written in
another way. -/
theorem parse_encode_differs : ∃ d t, Read.fromBytes Data.decode [0x01, 0x01, 0x03, 0x05] = .ok d ∧
    fromData d = .ok t ∧ d.Expanded ∧ t.encode.data ≠ d.encode.data := by
  have hitems : (Seq.iter ⟨1, [0x03, 0x05], 2, 15⟩).collect.1 = [.ok (.boolean true)] := by
    rw [Seq.iter, SeqIter.collect_succ, SeqIter.collect_zero]
    rfl
  have hbool : fromData (.boolean true) = .ok (boolean true) := rfl
  refine ⟨.array ⟨1, [0x03, 0x05], 2, 15⟩, array [boolean true], by decide +kernel, ?_, fun e he c => ?_, ?_⟩
  · rw [fromData_eq, fromDataWith, hitems]
    change (fromData (.boolean true) >>= fun t => Except.ok [t]) >>= (fun ts => Except.ok (array ts)) = _
    rw [hbool]
    rfl
  · have hcases : e = .array ⟨1, [0x03, 0x05], 2, 15⟩ ∨ e = .boolean true := by
      induction he with
      | self => exact .inl rfl
      | @item e e' s _ hs hmem ih =>
        obtain rfl | rfl := ih
        · obtain rfl := Option.some.inj hs
          rw [hitems] at hmem
          exact .inr (Except.ok.inj (List.mem_singleton.mp hmem))
        · cases hs
    intro h
    obtain rfl | rfl := hcases <;> cases h
  · exact fun h => absurd (congrArg (·.getD 3 0) h) (by decide)

/-- A compact array of two structures of one number. -/
theorem parse_encode_sample : ∃ t, parse [0x13, 0x02, 0x01, 0x11, 0x02, 0x05, 0x06] = .ok t ∧
    t.encode.fault = none ∧ parse t.encode.data = .ok t := by
  have hok : (parse [0x13, 0x02, 0x01, 0x11, 0x02, 0x05, 0x06]).isOk = true := by decide +kernel
  cases h : parse [0x13, 0x02, 0x01, 0x11, 0x02, 0x05, 0x06] with
  | error e =>
    rw [h] at hok
    cases hok
  | ok t => exact ⟨t, rfl, parse_encode.1 _ t h⟩

end DataBuf

end Dlms
