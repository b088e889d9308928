import DlmsCosem.Axdr.Data
import DlmsCosem.Codec.Incremental

/-!
# Values in a stream

A value is settled by its own bytes: nothing that follows changes it, and where it has not wholly
arrived the decoder ends as truncated and asks for no more than is missing (`Data.decode_cut`).
The elements of a sequence and a type description are walked over by a probe, which starts again at
the first of them when more has arrived.
-/

namespace Dlms

variable {β : Type}

/-- A walk ahead over `bs` and the bytes that it took. -/
theorem Settles.probe {f : Read Unit} {k : Bytes → Read β} {o : Nat} {bs cs : Bytes} {b : β}
    (hf : Settles f o bs ())
    (hk : Settles (k bs) (o + bs.length) cs b) :
    Settles (Read.probe f >>= fun used => Read.take used >>= k) o (bs ++ cs) b := by
  -- The walk over all of `bs` gives its length and leaves the reader where it was.
  have hprobe : ∀ (r : Reader) tail, r.offset = o → r.rest = bs ++ tail →
      Read.probe f r = (.ok bs.length, r) := by
    intro r tail ho hr
    obtain ⟨inner, hrun, hadv⟩ := hf.whole (Reader.withBase r.rest r.offset) tail ho hr
    have hpos : inner.pos = bs.length := by simpa using hadv.pos
    rw [Read.probe, hrun]
    simp only [hpos]
  have htaken := (Settles.take bs (o := o)).bind hk
  refine ⟨fun r tail ho hr => ?_, fun n hn => ?_⟩
  · rw [Prog.bind_run_ok (hprobe r (cs ++ tail) ho (by rw [hr, List.append_assoc]))]
    exact htaken.whole r tail ho hr
  · intro r ho hr
    by_cases hlt : n < bs.length
    · rw [List.take_append_of_le_length hlt.le] at hr ⊢
      obtain ⟨j, e, hj, hpos, hle⟩ :=
        hf.short n hlt (Reader.withBase r.rest r.offset) ho hr
      refine ⟨j, e, ?_, hpos, by rw [List.length_append]; omega⟩
      have herr : Read.probe f r = (.error ⟨.truncated j, e⟩, r) := by
        rcases hrun : f (Reader.withBase r.rest r.offset) with ⟨res, inner⟩
        rw [hrun] at hj
        obtain rfl : res = _ := hj
        rw [Read.probe, hrun]
      rw [Prog.bind_run_error herr]
    · obtain ⟨k, rfl⟩ : ∃ k, n = bs.length + k := ⟨n - bs.length, by omega⟩
      have hsplit := hr
      rw [List.take_length_add_append] at hsplit
      rw [Prog.bind_run_ok (hprobe r _ ho hsplit)]
      exact htaken.short _ hn r ho hr

/-- A walk ahead and the bytes that it took. -/
theorem Incremental.probe {f : Read Unit} {k : Bytes → Read β} (hf : Incremental f)
    (hk : ∀ raw, Incremental (k raw)) :
    Incremental (Read.probe f >>= fun used => Read.take used >>= k) := by
  intro r b r'' h
  obtain ⟨used, r₁, hp, h⟩ := Prog.bind_ok h
  unfold Read.probe at hp
  rcases hrun : f (Reader.withBase r.rest r.offset) with ⟨_ | ⟨⟩, inner⟩
  · rw [hrun] at hp
    cases hp
  · rw [hrun] at hp
    obtain ⟨rfl, rfl⟩ : inner.pos = used ∧ r = r₁ := by simpa using hp
    obtain ⟨raw, tail, hc, hs⟩ := hf _ _ _ hrun
    have hpos : inner.pos = raw.length := by simpa using hc.advanced.pos
    have hrest : r.rest = raw ++ tail := hc.rest
    obtain ⟨raw', r₂, htake, h⟩ := Prog.bind_ok h
    obtain ⟨hraw, -, hadv⟩ := Read.take_ok htake
    obtain rfl : raw' = raw := by rw [hraw, hrest, hpos, List.take_left]
    obtain ⟨cs, tail', hc', hs'⟩ := hk raw' _ _ _ h
    have hc₁ : r.Consumed raw' (cs ++ tail') r₂ := by
      refine ⟨?_, by rw [← hpos]; exact hadv⟩
      rw [← hc'.rest, hadv.rest, hrest, hpos, List.drop_left]
    rw [hc₁.advanced.offset] at hs'
    exact ⟨raw' ++ cs, tail', hc₁.trans hc', hs.probe hs'⟩

theorem TypeDesc.parseAt_incremental (left : Nat) : Incremental (parseAt left) := by
  induction left with
  | zero => exact .fail
  | succ left ih =>
    refine Incremental.u8.bind fun b => ?_
    cases DataTag.fromU8 b with
    | none => exact .errBack
    | some tag =>
      cases tag <;> first
        | exact .errBack
        | exact Incremental.u16.bind fun len => .probe ih.map fun raw => .pure _
        | exact Incremental.length.bind fun n => .probe (ih.map.times n) fun raw => .pure _
        | exact .pure _

theorem CompactArray.decodeBody_incremental (left : Nat) : Incremental (decodeBody left) := by
  unfold decodeBody
  split
  · exact .fail
  · exact Incremental.offset.bind fun descBase => .probe (TypeDesc.parseAt_incremental left).map
      fun desc => Incremental.length.bind fun len => Incremental.offset.bind fun contentsBase =>
        (Incremental.take len).map

namespace Data

theorem skip_incremental (left : Nat) : Incremental (skip left) := by
  induction left with
  | zero => exact .fail
  | succ left ih =>
    refine Incremental.u8.bind fun b => ?_
    cases DataTag.fromU8 b with
    | none => exact .errBack
    | some tag =>
      cases tag <;> first
        | exact .skip _
        | exact Incremental.length.bind fun n => ih.times n
        | exact Incremental.length.bind fun n => .skip _
        | exact (CompactArray.decodeBody_incremental left).map

theorem decodeSeq_incremental (left : Nat) : Incremental (decodeSeq left) :=
  Incremental.length.bind fun count => Incremental.offset.bind fun _ =>
    .probe ((skip_incremental left).times count) fun _ => .pure _

theorem decodeAt_incremental (left : Nat) : Incremental (decodeAt left) := by
  cases left with
  | zero => exact .fail
  | succ left =>
    refine Incremental.u8.bind fun b => ?_
    cases DataTag.fromU8 b with
    | none => exact .errBack
    | some tag =>
      cases tag <;> first
        | exact .pure _
        | exact (decodeSeq_incremental left).map
        | exact Incremental.length.bind fun bits => (Incremental.take _).map
        | exact (CompactArray.decodeBody_incremental left).map
        | exact Incremental.lengthPrefixed.map
        | exact Incremental.u8.map
        | exact Incremental.u16.map
        | exact Incremental.u32.map
        | exact Incremental.u64.map
        | exact Incremental.i8.map
        | exact Incremental.i16.map
        | exact Incremental.i32.map
        | exact Incremental.i64.map
        | exact (Incremental.take _).map

/-- Whatever follows the bytes of a value, they decode to it. A part of them does not decode, and the
error asks for no more than the rest of them. -/
theorem decode_cut (e : Bytes) (d : Data) (h : Read.fromBytes decode e = .ok d) :
    (∀ x, ∃ r, decode (Reader.new (e ++ x)) = (.ok d, r) ∧ r.pos = e.length ∧ r.rest = x) ∧
      ∀ p, p <+: e → p ≠ e → ∃ needed offset,
        (decode (Reader.new p)).1 = .error ⟨.truncated needed, offset⟩ ∧
          1 ≤ needed ∧ needed ≤ e.length - p.length := by
  have hs := (decodeAt_incremental maxDepth).settles h
  refine ⟨fun x => ?_, fun p hp hne => ?_⟩
  · obtain ⟨r, hr, hadv⟩ := hs.whole (Reader.new (e ++ x)) x rfl rfl
    have hpos : r.pos = e.length := by simpa [Reader.new] using hadv.pos
    exact ⟨r, hr, hpos, by rw [hadv.rest]; simp [Reader.new]⟩
  · have hlt : p.length < e.length :=
      lt_of_le_of_ne hp.length_le fun hlen => hne (hp.eq_of_length hlen)
    have hcut : p = e.take p.length := List.prefix_iff_eq_take.mp hp
    obtain ⟨k, o, hk, hpos, hle⟩ := hs.short p.length hlt (Reader.new p) rfl hcut
    rw [← hcut] at hle
    exact ⟨k, o, hk, hpos, by omega⟩

/-- Two long-unsigned values in a structure, cut in the second of them. -/
theorem decode_cut_structure :
    ∃ needed offset, (decode (Reader.new [2, 2, 18, 1, 2, 18])).1 =
      .error ⟨.truncated needed, offset⟩ ∧ 1 ≤ needed ∧ needed ≤ 2 :=
  (decode_cut [2, 2, 18, 1, 2, 18, 3, 4] (.structure ⟨2, [18, 1, 2, 18, 3, 4], 2, 15⟩)
    (by decide)).2 [2, 2, 18, 1, 2, 18] (by decide) (by decide)

end Data

end Dlms
