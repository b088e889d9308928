import DlmsCosem.Axdr.RoundTrip

/-!
# Walking over values

There are two walks over a value: `Data.decodeAt`, which builds it, and `Data.skip`, which finds where it
ends. `Data.decodeAt` takes the elements of a sequence with `Data.skip`, and they are decoded when a
`SeqIter` comes to them. The walks take the same bytes (`Data.walks_skip`), so what was decoded can be
iterated at every level (`Data.iteration_total`).
-/

namespace Dlms

/-! ## Iterators -/

/-- An iterator over the elements of a sequence: `left` of them, which may nest `levels` levels. -/
structure SeqIter where
  reader : Reader
  left : Nat
  levels : Nat

namespace SeqIter

def next (it : SeqIter) : Option (Result Data) × SeqIter :=
  if it.left = 0 then (none, it)
  else
    let (item, reader) := Data.decodeAt it.levels it.reader
    (some item, { it with reader, left := it.left - 1 })

/-- A call of `next` that gives an item leaves one fewer. -/
theorem next_left {it it' : SeqIter} {item : Result Data} (h : it.next = (some item, it')) :
    it'.left < it.left := by
  unfold next at h
  split at h
  · cases h
  · obtain ⟨-, rfl⟩ := Prod.mk.inj h
    exact Nat.sub_one_lt ‹_›

/-- The items up to the end, and the iterator there. -/
def collect (it : SeqIter) : List (Result Data) × SeqIter :=
  match _ : it.next with
  | (none, it') => ([], it')
  | (some item, it') =>
    let (items, last) := it'.collect
    (item :: items, last)
termination_by it.left
decreasing_by exact next_left ‹_›

theorem collect_zero (reader : Reader) (levels : Nat) :
    collect ⟨reader, 0, levels⟩ = ([], ⟨reader, 0, levels⟩) := by
  rw [collect]
  rfl

theorem collect_succ (reader : Reader) (n levels : Nat) :
    collect ⟨reader, n + 1, levels⟩ =
      let rest := collect ⟨(Data.decodeAt levels reader).2, n, levels⟩
      ((Data.decodeAt levels reader).1 :: rest.1, rest.2) := by
  rw [collect]
  rfl

end SeqIter

def Seq.iter (s : Seq) : SeqIter := ⟨Reader.withBase s.raw s.base, s.count, s.left⟩

/-- The parsed type description. -/
def CompactArray.description (c : CompactArray) : Result TypeDesc × Reader :=
  TypeDesc.parseAt c.left (Reader.withBase c.desc c.descBase)

namespace Data

/-- The sequence of an array or a structure. -/
def seq? : Data → Option Seq
  | array s | .structure s => some s
  | _ => none

/-- The value itself, and what the sequences inside it give, at every level. -/
inductive Within (d : Data) : Data → Prop
  | self : Within d d
  | item {e e' : Data} {s : Seq} : Within d e → e.seq? = some s → .ok e' ∈ s.iter.collect.1 →
      Within d e'

end Data

/-! ## Two walks -/

/-- `m` and the walk `f` end well on the same bytes, and in the same place. -/
def Walks {α : Type} (m : Read α) (f : Read Unit) : Prop :=
  ∀ r r', (∃ a, m r = (.ok a, r')) ↔ f r = (.ok (), r')

namespace Walks

variable {α β : Type}

/-- Both go on from one reader. -/
theorem andThen (m : Read α) {k : α → Read β} {f : α → Read Unit} (h : ∀ a, Walks (k a) (f a)) :
    Walks (m >>= k) (m >>= f) := by
  intro r r'
  rw [Prog.bind_run, Prog.bind_run]
  match m r with
  | (.ok a, r₁) => exact h a r₁ r'
  | (.error e, r₁) => simp

theorem map {m : Read α} {f : Read Unit} (h : Walks m f) (g : α → β) :
    Walks (m >>= fun a => Pure.pure (g a)) f := by
  intro r r'
  rw [← h r r']
  constructor
  · rintro ⟨b, hb⟩
    obtain ⟨a, r₁, ha, hg⟩ := Prog.bind_ok hb
    obtain ⟨-, rfl⟩ := Prod.mk.inj hg
    exact ⟨a, ha⟩
  · rintro ⟨a, ha⟩
    exact ⟨g a, Prog.bind_run_ok ha⟩

/-- A value that is thrown away. -/
theorem void (m : Read α) : Walks m (m >>= fun _ => Pure.pure ()) := by
  intro r r'
  constructor
  · rintro ⟨a, ha⟩
    exact Prog.bind_run_ok ha
  · intro h
    obtain ⟨a, r₁, ha, hg⟩ := Prog.bind_ok h
    obtain ⟨-, rfl⟩ := Prod.mk.inj hg
    exact ⟨a, ha⟩

theorem take (n : Nat) : Walks (Read.take n) (Read.skip n) := void _

theorem u8 : Walks Read.u8 (Read.skip 1) := by
  intro r r'
  unfold Read.skip
  rw [← void (Read.take 1) r r', Read.u8, Read.take]
  by_cases h : r.pos < r.buf.length
  · rw [dif_pos h, dif_neg (by rw [Reader.remaining]; omega)]
    simp
  · rw [dif_neg h, dif_pos (by rw [Reader.remaining]; omega)]
    simp

/-- Nothing is read. -/
theorem done (a : α) : Walks (Pure.pure a) (Read.skip 0) := by
  intro r r'
  have hskip : Read.skip 0 r = (.ok (), r) := rfl
  rw [hskip]
  simp

theorem u16 : Walks Read.u16 (Read.skip 2) := (take 2).map _
theorem u32 : Walks Read.u32 (Read.skip 4) := (take 4).map _
theorem u64 : Walks Read.u64 (Read.skip 8) := (take 8).map _
theorem i8 : Walks Read.i8 (Read.skip 1) := u8.map _
theorem i16 : Walks Read.i16 (Read.skip 2) := u16.map _
theorem i32 : Walks Read.i32 (Read.skip 4) := u32.map _
theorem i64 : Walks Read.i64 (Read.skip 8) := u64.map _

theorem lengthPrefixed : Walks Read.lengthPrefixed (Read.length >>= Read.skip) :=
  .andThen Read.length take

/-- No walk ends well. -/
theorem never {m : Read α} {f : Read Unit} (hm : ∀ r, ∃ e, m r = (.error e, r))
    (hf : ∀ r, ∃ e, f r = (.error e, r)) : Walks m f := by
  intro r r'
  obtain ⟨e, he⟩ := hm r
  obtain ⟨e', he'⟩ := hf r
  rw [he, he']
  simp

end Walks

theorem Reader.Advanced.unique {r r₁ r₂ : Reader} {n : Nat} (h₁ : r.Advanced n r₁)
    (h₂ : r.Advanced n r₂) : r₁ = r₂ := by
  obtain ⟨b₁, p₁, s₁, _⟩ := r₁
  obtain ⟨b₂, p₂, s₂, _⟩ := r₂
  obtain ⟨rfl, rfl, rfl⟩ := h₁
  obtain ⟨rfl, rfl, rfl⟩ := h₂
  rfl

namespace Walks

/-- A place that is kept does not move the reader. -/
theorem atOffset {α : Type} {k : Nat → Read α} {f : Read Unit} (h : ∀ o, Walks (k o) f) :
    Walks (Read.offset >>= k) f := fun r => h r.offset r

/-- A walk ahead and the bytes that it took are the walk itself. -/
theorem probe {α : Type} {f : Read Unit} (hf : Echoes Eq f f) (g : Bytes → α) :
    Walks (Read.probe f >>= fun used => Read.take used >>= fun raw => Pure.pure (g raw)) f := by
  intro r r'
  constructor
  · rintro ⟨a, h⟩
    obtain ⟨used, r₁, hp, h⟩ := Prog.bind_ok h
    obtain ⟨raw, r₂, htake, hg⟩ := Prog.bind_ok h
    obtain ⟨-, rfl⟩ := Prod.mk.inj hg
    obtain ⟨-, -, hadv⟩ := Read.take_ok htake
    unfold Read.probe at hp
    match hrun : f (Reader.withBase r.rest r.offset) with
    | (.error e, inner) =>
      rw [hrun] at hp
      cases hp
    | (.ok (), inner) =>
      rw [hrun] at hp
      obtain ⟨rfl, rfl⟩ : inner.pos = used ∧ r = r₁ := by simpa using hp
      -- The same bytes are taken where they stand.
      obtain ⟨bs, tail, hc, ht⟩ := hf _ _ _ hrun
      obtain ⟨⟨⟩, r₃, hwalk, -, hadv'⟩ := ht r tail hc.rest
      have hpos : inner.pos = bs.length := by simpa using hc.advanced.pos
      rw [hpos] at hadv
      rw [hwalk, hadv'.unique hadv]
  · intro h
    obtain ⟨bs, tail, hc, ht⟩ := hf _ _ _ h
    have hprobe := Takes.probe (ht.mono fun _ _ => trivial) (k := fun raw => Pure.pure (g raw))
      (Q := fun _ => True) (.pure trivial)
    rw [List.append_nil] at hprobe
    obtain ⟨a, r₁, hrun, -, hadv⟩ := hprobe r tail hc.rest
    exact ⟨a, by rw [hrun, hadv.unique hc.advanced]⟩

end Walks

namespace Data

theorem decodeSeq_walks (left : Nat) :
    Walks (decodeSeq left) (Read.length >>= fun count => Prog.times count (skip left)) :=
  .andThen Read.length fun count => .atOffset fun _ => .probe ((skip_echoes left).times count) _

/-- Decoding a value and walking past it end well on the same bytes, and in the same place. -/
theorem walks_skip (left : Nat) : Walks (decodeAt left) (skip left) := by
  cases left with
  | zero => exact .never (fun _ => ⟨_, rfl⟩) fun _ => ⟨_, rfl⟩
  | succ left =>
    refine .andThen Read.u8 fun b => ?_
    cases DataTag.fromU8 b with
    | none => exact .never (fun _ => ⟨_, rfl⟩) fun _ => ⟨_, rfl⟩
    | some tag =>
      cases tag with
      | nullData | dontCare => exact .done _
      | array | «structure» => exact (decodeSeq_walks left).map _
      | bitString => exact .andThen Read.length fun bits => (Walks.take _).map _
      | octetString | visibleString | utf8String => exact Walks.lengthPrefixed.map _
      | boolean | unsigned | enum | deltaUnsigned => exact Walks.u8.map _
      | bcd | integer | deltaInteger => exact Walks.i8.map _
      | long | deltaLong => exact Walks.i16.map _
      | longUnsigned | deltaLongUnsigned => exact Walks.u16.map _
      | doubleLong | deltaDoubleLong => exact Walks.i32.map _
      | doubleLongUnsigned | float32 | deltaDoubleLongUnsigned => exact Walks.u32.map _
      | long64 => exact Walks.i64.map _
      | long64Unsigned | float64 => exact Walks.u64.map _
      | dateTime => exact (Walks.take 12).map _
      | date => exact (Walks.take 5).map _
      | time => exact (Walks.take 4).map _
      | compactArray => exact (Walks.void (CompactArray.decodeBody left)).map _

end Data

/-! ## What is inside a value -/

/-- What an echo knows of every value. -/
theorem Echoes.holds {α β : Type} {S : α → β → Prop} {P : α → Prop} {m : Read α} {m' : Read β}
    (h : Echoes (fun a b => S a b ∧ P a) m m') {r r' : Reader} {a : α} (hr : m r = (.ok a, r')) : P a := by
  obtain ⟨bs, tail, hc, ht⟩ := h r a r' hr
  obtain ⟨b, -, -, hs, -⟩ := ht r tail hc.rest
  exact hs.2

namespace Data

/-- What a decoder that may go `left` levels down gave. -/
def Decoded (left : Nat) (d : Data) : Prop := ∃ r r', decodeAt left r = (.ok d, r')

/-- The elements of a sequence and the description of a compact array were walked past, with `left`
levels to go. -/
structure Checked (left : Nat) (d : Data) : Prop where
  seq : ∀ s, d.seq? = some s → s.Encoded left
  compactArray : ∀ c, d = .compactArray c → c.Encoded left

theorem decodeAt_checked (left : Nat) : Prog.Yields (decodeAt (left + 1)) (Checked left) := by
  refine (Prog.Yields.any Read.u8).bind fun b _ => ?_
  have hscalar : ∀ {α : Type} (m : Read α) (g : α → Data),
      (∀ a, (g a).seq? = none ∧ ∀ c, g a ≠ .compactArray c) →
      Prog.Yields (m >>= fun a => pure (g a)) (Checked left) := by
    intro α m g hg
    refine (Prog.Yields.any m).map fun a _ => ⟨fun s hs => ?_, fun c hc => absurd hc ((hg a).2 c)⟩
    rw [(hg a).1] at hs
    cases hs
  have hseq : Prog.Yields (decodeSeq left) (Seq.Encoded left) :=
    fun r s h => (decodeSeq_echoes left).holds
      (show decodeSeq left r = (.ok s, (decodeSeq left r).2) from Prod.ext h rfl)
  cases DataTag.fromU8 b with
  | none => exact fun r d h => nomatch h
  | some tag =>
    cases tag with
    | nullData | dontCare => exact .pure ⟨nofun, nofun⟩
    | array => exact hseq.map fun s hs => ⟨by rintro _ ⟨⟩; exact hs, nofun⟩
    | «structure» => exact hseq.map fun s hs => ⟨by rintro _ ⟨⟩; exact hs, nofun⟩
    | compactArray =>
      have hbody : Prog.Yields (CompactArray.decodeBody left) (CompactArray.Encoded left) :=
        fun r c h => (CompactArray.decodeBody_echoes left).holds
          (show CompactArray.decodeBody left r = (.ok c, (CompactArray.decodeBody left r).2) from
            Prod.ext h rfl)
      exact hbody.map fun c hc => ⟨nofun, by rintro _ ⟨⟩; exact hc⟩
    | bitString => exact (Prog.Yields.any Read.length).bind fun bits _ => hscalar _ _ fun a => ⟨rfl, nofun⟩
    | _ => exact hscalar _ _ fun a => ⟨rfl, nofun⟩

theorem Decoded.checked {left : Nat} {d : Data} (h : d.Decoded left) : ∃ l, d.Checked l := by
  obtain ⟨r, r', h⟩ := h
  cases left with
  | zero => cases h
  | succ left => exact ⟨left, (decodeAt_checked left).of_run h⟩

end Data

namespace SeqIter

/-- The iterator comes to the end where the walk does. -/
theorem collect_of_times {n levels : Nat} {reader reader' : Reader}
    (h : Prog.times n (Data.skip levels) reader = (.ok (), reader')) :
    (collect ⟨reader, n, levels⟩).1.length = n ∧
      (∀ item ∈ (collect ⟨reader, n, levels⟩).1, ∃ d, item = .ok d) ∧
      (collect ⟨reader, n, levels⟩).2.reader = reader' := by
  induction n generalizing reader with
  | zero =>
    rw [collect_zero]
    exact ⟨rfl, nofun, (Prod.mk.inj h).2⟩
  | succ n ih =>
    obtain ⟨⟨⟩, r₁, hskip, h⟩ := Prog.bind_ok h
    obtain ⟨d, hd⟩ := (Data.walks_skip levels reader r₁).mpr hskip
    obtain ⟨hlen, hall, hend⟩ := ih h
    rw [collect_succ, hd]
    refine ⟨by simp [hlen], fun item hitem => ?_, hend⟩
    obtain rfl | hitem := List.mem_cons.mp hitem
    · exact ⟨d, rfl⟩
    · exact hall item hitem

/-- What the iterator gives was decoded. -/
theorem decoded_of_mem {n levels : Nat} {reader : Reader} {d : Data}
    (h : .ok d ∈ (collect ⟨reader, n, levels⟩).1) : d.Decoded levels := by
  induction n generalizing reader with
  | zero =>
    rw [collect_zero] at h
    cases h
  | succ n ih =>
    rw [collect_succ] at h
    obtain hd | h := List.mem_cons.mp h
    · exact ⟨reader, _, Prod.ext hd.symm rfl⟩
    · exact ih h

end SeqIter

namespace Data

theorem Within.decoded {left : Nat} {d e : Data} (h : d.Within e) (hd : d.Decoded left) :
    ∃ l, e.Decoded l := by
  induction h with
  | self => exact ⟨left, hd⟩
  | item _ _ hmem _ => exact ⟨_, SeqIter.decoded_of_mem hmem⟩

/-- Decoding and walking past agree, and what is decoded can be iterated at every level: a sequence gives
as many values as it says, which take all its bytes, and the description of a compact array is parsed
again. -/
theorem iteration_total :
    (∀ left r r', (∃ d, decodeAt left r = (.ok d, r')) ↔ skip left r = (.ok (), r')) ∧
    ∀ left r d r', decodeAt left r = (.ok d, r') → ∀ e, d.Within e →
      (∀ s, e.seq? = some s → s.iter.collect.1.length = s.count ∧
        (∀ item ∈ s.iter.collect.1, ∃ v, item = .ok v) ∧ s.iter.collect.2.reader.rest = []) ∧
      ∀ c, e = .compactArray c → ∃ t reader, c.description = (.ok t, reader) ∧ reader.rest = [] := by
  refine ⟨walks_skip, fun left r d r' hd e he => ?_⟩
  obtain ⟨l, he⟩ := he.decoded ⟨r, r', hd⟩
  obtain ⟨l', hseq, hcompact⟩ := he.checked
  refine ⟨fun s hs => ?_, fun c hc => ?_⟩
  · obtain ⟨hl, -, hraw⟩ := hseq s hs
    obtain ⟨⟨⟩, reader, hrun, -, hadv⟩ := hraw (Reader.withBase s.raw s.base) [] (by simp)
    rw [← hl] at hrun
    obtain ⟨hlen, hall, hend⟩ := SeqIter.collect_of_times hrun
    refine ⟨hlen, hall, ?_⟩
    have hrest : reader.rest = [] := by
      rw [hadv.rest]
      simp
    exact (congrArg Reader.rest hend).trans hrest
  · obtain ⟨-, rfl, -, hdesc⟩ := hcompact c hc
    obtain ⟨⟨⟩, reader, hrun, -, hadv⟩ := hdesc (Reader.withBase c.desc c.descBase) [] (by simp)
    obtain ⟨t, r₁, ht, hunit⟩ := Prog.bind_ok hrun
    obtain ⟨-, rfl⟩ := Prod.mk.inj hunit
    refine ⟨t, r₁, ht, ?_⟩
    rw [hadv.rest]
    simp

/-- A structure of an array of one number and of nothing. -/
theorem iteration_total_sample : ∃ s r',
    decode (Reader.new [0x02, 0x02, 0x01, 0x01, 0x11, 0x05, 0x00]) = (.ok (.structure s), r') ∧
      s.iter.collect.1.length = 2 ∧ s.iter.collect.2.reader.rest = [] := by
  have hrun : decode (Reader.new [0x02, 0x02, 0x01, 0x01, 0x11, 0x05, 0x00]) =
      (.ok (.structure ⟨2, [0x01, 0x01, 0x11, 0x05, 0x00], 2, 15⟩),
        ⟨[0x02, 0x02, 0x01, 0x01, 0x11, 0x05, 0x00], 7, 0, by decide⟩) := by decide +kernel
  obtain ⟨hlen, -, hrest⟩ := (iteration_total.2 _ _ _ _ hrun _ .self).1 _ rfl
  exact ⟨_, _, hrun, hlen, hrest⟩

end Data

end Dlms
