import DlmsCosem.Lib.Framing
import DlmsCosem.Transport.Decoding

/-!
# The frame finder

`Framer.nextFrame` tries every flag of what has arrived: a complete frame wins over a candidate that is
not all there, and where nothing completes it says how much is certainly not part of any frame. It is a
search at every place (`Framing.search`), and a place that is rejected stays rejected, so:

* dropping what may be dropped loses nothing (`nextFrame_exact`);
* frames that arrive in chunks are found, unless a chunk ends behind a frame inside the information
  of another one (`receive_iff`).
-/

namespace Dlms.Hdlc

/-- `Found`: a frame, or how many leading bytes may be dropped. -/
abbrev Found := Framing.Found Frame

/-- The finder counts the bytes that it throws away. -/
structure Framer where
  discarded : Nat
  deriving Repr, DecidableEq

namespace Framer

def new : Framer := ⟨0⟩

/-- `self.discarded += n`. -/
def discard (n : Nat) : Prog Error Framer Unit := .modify fun framer => ⟨framer.discarded + n⟩

/-- The loop of `next_frame`, on what stands from `start` on. -/
def scan (start : Nat) (firstIncomplete : Option Nat) : Bytes → Prog Error Framer Found
  | [] => do
    -- Here `start` is the length of the buffer.
    let discard := firstIncomplete.getD start
    Framer.discard discard
    return .incomplete discard
  | b :: bytes =>
    if b != flag then scan (start + 1) firstIncomplete bytes
    else
      match decodeFrame (b :: bytes) with
      | .ok (frame, used) => do
        Framer.discard start
        return .item frame (start + used)
      | .error e =>
        let firstIncomplete := if e.isTruncated && firstIncomplete.isNone then some start else firstIncomplete
        scan (start + 1) firstIncomplete bytes

def nextFrame (buf : Bytes) : Prog Error Framer Found := scan 0 none buf

/-- The loop of a caller: append a chunk, call `next_frame` until it has no frame, drop what it says. -/
def receive (chunks : List Bytes) : Prog Error Framer (List Frame × Bytes) :=
  Framing.feed nextFrame [] chunks

end Framer

/-! ## The search -/

/-- What stands at the start of some bytes. -/
def judge (bytes : Bytes) : Framing.Verdict Frame :=
  match decodeFrame bytes with
  | .ok (frame, used) => .item frame used
  | .error e => if e.isTruncated then .wait else .reject

theorem judge_item {bytes : Bytes} {f : Frame} {used : Nat} :
    judge bytes = .item f used ↔ decodeFrame bytes = .ok (f, used) := by
  unfold judge
  match decodeFrame bytes with
  | .ok (frame, n) => simp
  | .error e => cases h : e.isTruncated <;> simp [h]

theorem judge_wait {bytes : Bytes} :
    judge bytes = .wait ↔ ∃ e, decodeFrame bytes = .error e ∧ e.isTruncated = true := by
  unfold judge
  match decodeFrame bytes with
  | .ok (frame, n) => simp
  | .error e => cases h : e.isTruncated <;> simp [h]

theorem judge_reject {bytes : Bytes} :
    judge bytes = .reject ↔ ∃ e, decodeFrame bytes = .error e ∧ e.isTruncated = false := by
  unfold judge
  match decodeFrame bytes with
  | .ok (frame, n) => simp
  | .error e => cases h : e.isTruncated <;> simp [h]

/-- Bytes that are rejected are rejected whatever follows. -/
theorem judge_append (x : UInt8) (xs ys : Bytes) (h : judge (x :: xs) = .reject) :
    judge (x :: xs ++ ys) = .reject := by
  obtain ⟨e, he, ht⟩ := judge_reject.mp h
  refine judge_reject.mpr ⟨e, decodeFrame_append he (fun e' he' => ?_) ys, ht⟩
  obtain rfl := Except.error.inj he'
  exact ht

theorem decodeFrame_notFlag {x : UInt8} (h : x ≠ flag) (xs : Bytes) :
    decodeFrame (x :: xs) = .error ⟨.invalidValue, 0⟩ :=
  decodeFrame_of_error (decodeFormat_notFlag h xs)

/-- A frame starts at a flag. -/
theorem flag_of_decodeFrame {bytes : Bytes} {r : Frame × Nat} (h : decodeFrame bytes = .ok r) :
    ∃ rest, bytes = flag :: rest := by
  match bytes with
  | [] => cases h
  | x :: rest =>
    by_cases hx : x = flag
    · exact ⟨rest, by rw [hx]⟩
    · rw [decodeFrame_notFlag hx] at h
      cases h

namespace Framer

/-- The scan over the flags is a search at every place. -/
theorem scan_search (bytes : Bytes) (start : Nat) (firstIncomplete : Option Nat) :
    (scan start firstIncomplete bytes).Always (Framing.search judge start firstIncomplete bytes) := by
  induction bytes generalizing start firstIncomplete with
  | nil => exact fun framer => ⟨_, rfl⟩
  | cons b bytes ih =>
    rw [scan, Framing.search]
    by_cases hb : b = flag
    · rw [if_neg (by simp [hb])]
      unfold judge
      cases decodeFrame (b :: bytes) with
      | ok out => exact fun framer => ⟨_, rfl⟩
      | error e =>
        dsimp only
        cases e.isTruncated with
        | true =>
          have hfirst : (if (true && firstIncomplete.isNone) = true then some start else firstIncomplete) =
              some (firstIncomplete.getD start) := by
            cases firstIncomplete <;> rfl
          rw [hfirst]
          exact ih _ _
        | false =>
          simp only [Bool.false_and, Bool.false_eq_true, if_false]
          exact ih _ _
    · have hreject : judge (b :: bytes) = .reject :=
        judge_reject.mpr ⟨_, decodeFrame_notFlag hb bytes, rfl⟩
      rw [if_pos (by simp [hb]), hreject]
      exact ih _ _

theorem nextFrame_search (buf : Bytes) :
    (nextFrame buf).Always (Framing.search judge 0 none buf) := scan_search buf 0 none

/-- What the finder answers does not depend on what it has thrown away. -/
theorem nextFrame_iff {buf : Bytes} {framer : Framer} {found : Found} :
    (nextFrame buf framer).1 = .ok found ↔ Framing.search judge 0 none buf = found := by
  obtain ⟨framer', hrun⟩ := nextFrame_search buf framer
  rw [hrun]
  exact ⟨Except.ok.inj, congrArg _⟩

/-- The finder gives the frame at the leftmost flag at which decoding succeeds. What it says may be
dropped while it waits makes no difference: whatever arrives, the same frame is found in the same place,
or none is. -/
theorem nextFrame_exact :
    (∀ buf framer frame consumed, (nextFrame buf framer).1 = .ok (.item frame consumed) ↔
      ∃ at' used, buf[at']? = some flag ∧ decodeFrame (buf.drop at') = .ok (frame, used) ∧
        consumed = at' + used ∧ ∀ j < at', ∀ r, decodeFrame (buf.drop j) ≠ .ok r) ∧
    ∀ buf framer discard, (nextFrame buf framer).1 = .ok (.incomplete discard) →
      ∀ arriving framer₁ framer₂, (nextFrame (buf ++ arriving) framer₁).1 =
        (nextFrame (buf.drop discard ++ arriving) framer₂).1.map (Framing.Found.shift discard) := by
  refine ⟨fun buf framer frame consumed => ⟨fun h => ?_, ?_⟩, fun buf framer discard h arriving framer₁
    framer₂ => ?_⟩
  · obtain ⟨i, used, -, hitem, hn, hleft⟩ := Framing.search_item (nextFrame_iff.mp h)
    rw [judge_item] at hitem
    obtain ⟨rest, hflag⟩ := flag_of_decodeFrame hitem
    refine ⟨i, used, ?_, hitem, by omega, fun j hj r hr => hleft j hj r.1 r.2 (judge_item.mpr hr)⟩
    rw [← List.head?_drop, hflag]
    rfl
  · rintro ⟨i, used, hi, hitem, hn, hleft⟩
    rw [nextFrame_iff]
    match hfound : Framing.search judge 0 none buf with
    | .item g n =>
      obtain ⟨j, used', -, hg, hn', hleft'⟩ := Framing.search_item hfound
      -- Both places are leftmost.
      have hij : i = j := by
        apply Nat.le_antisymm
        · by_contra hlt
          exact hleft j (Nat.not_le.mp hlt) _ (judge_item.mp hg)
        · by_contra hlt
          exact hleft' i (Nat.not_le.mp hlt) _ _ (judge_item.mpr hitem)
      subst hij
      rw [judge_item, hitem] at hg
      obtain ⟨rfl, rfl⟩ := Prod.mk.inj (Except.ok.inj hg)
      rw [hn, hn']
      simp
    | .incomplete d =>
      obtain ⟨_, _, _, _, _, hnone⟩ := Framing.search_incomplete hfound
      have hlt : i < buf.length := (List.getElem?_eq_some_iff.mp hi).1
      exact absurd (judge_item.mpr hitem) (hnone i hlt _ _)
  · have hsearch := Framing.search_append judge_append (nextFrame_iff.mp h) arriving
    rw [nextFrame_iff.mpr hsearch, nextFrame_iff.mpr rfl]
    rfl

theorem nextFrame_exact_sample : (nextFrame [0x55, flag, 0xA0] new).1 = .ok (.incomplete 1) ∧
    ∀ arriving, (nextFrame ([0x55, flag, 0xA0] ++ arriving) new).1 =
      (nextFrame ([flag, 0xA0] ++ arriving) new).1.map (Framing.Found.shift 1) := by
  have hrun : (nextFrame [0x55, flag, 0xA0] new).1 = .ok (.incomplete 1) := by decide
  exact ⟨hrun, fun arriving => nextFrame_exact.2 _ _ _ hrun arriving _ _⟩

/-! ## Frames in chunks -/

theorem nextFrame_item {buf : Bytes} {f : Frame} {used : Nat} (h : decodeFrame buf = .ok (f, used)) :
    (nextFrame buf).Always (.item f used) := by
  obtain ⟨rest, rfl⟩ := flag_of_decodeFrame h
  have hsearch := nextFrame_search (flag :: rest)
  rw [Framing.search, judge_item.mpr h] at hsearch
  simpa using hsearch

theorem nextFrame_nil : Framing.Waits nextFrame [] := fun _ => ⟨_, rfl⟩

variable {f : Frame} {k : Nat}

/-- Of a part of a frame the finder keeps everything, or finds a frame inside. -/
theorem search_take (h : f.frameLen ≤ 0x7FF) (hk : k < f.encodedLen) {d : Nat}
    (hd : Framing.search judge 0 none (f.encode.data.take k) = .incomplete d) : d = 0 := by
  obtain ⟨n, rfl, hn, hreject, -, -⟩ := Framing.search_incomplete hd
  rw [Nat.zero_add]
  by_contra hne
  obtain ⟨e, he, ht⟩ := Frame.decodeFrame_take h hk
  have hzero := hreject 0 (Nat.pos_of_ne_zero hne)
  rw [List.drop_zero, judge_wait.mpr ⟨e, he, ht⟩] at hzero
  cases hzero

theorem waits_iff (h : f.frameLen ≤ 0x7FF) (hk : k < f.encodedLen) :
    Framing.Waits nextFrame (f.encode.data.take k) ↔
      ∀ i r, decodeFrame ((f.encode.data.take k).drop i) ≠ .ok r := by
  constructor
  · intro hwaits i r hr
    obtain ⟨framer', hrun⟩ := hwaits new
    have hsearch := nextFrame_iff.mp (congrArg Prod.fst hrun)
    obtain ⟨_, _, _, _, _, hnone⟩ := Framing.search_incomplete hsearch
    by_cases hi : i < (f.encode.data.take k).length
    · exact hnone i hi _ _ (judge_item.mpr hr)
    · rw [List.drop_of_length_le (Nat.not_lt.mp hi)] at hr
      cases hr
  · intro hnone
    have hsearch := nextFrame_search (f.encode.data.take k)
    match hfound : Framing.search judge 0 none (f.encode.data.take k) with
    | .item g n =>
      obtain ⟨i, used, -, hitem, -⟩ := Framing.search_item hfound
      exact absurd (judge_item.mp hitem) (hnone i _)
    | .incomplete d =>
      obtain rfl := search_take h hk hfound
      rwa [hfound] at hsearch

/-- A frame is found at the start, and nothing that is found in a part of it is the frame. -/
theorem finds_frame (h : f.frameLen ≤ 0x7FF) :
    Framing.Finds nextFrame (fun g => g.encode.data) f.wire := by
  have hlen := Frame.length_encode_data h
  refine ⟨?_, fun rest => ?_, fun k hk => ?_⟩
  · rw [f.wire_encode, (Frame.encode_data h).2]
    exact List.cons_ne_nil _ _
  · rw [f.wire_encode]
    exact nextFrame_item (Frame.decodeFrame_wire h rest)
  · rw [f.wire_encode] at hk ⊢
    rw [hlen] at hk
    match hfound : Framing.search judge 0 none (f.encode.data.take k) with
    | .item g n =>
      right
      have hsearch := nextFrame_search (f.encode.data.take k)
      rw [hfound] at hsearch
      refine ⟨g, n, fun hg => ?_, hsearch⟩
      -- What is found in a part of a frame is shorter than the frame.
      obtain ⟨i, used, -, hitem, -⟩ := Framing.search_item hfound
      obtain ⟨hle, hused⟩ := decodeFrame_used (judge_item.mp hitem)
      rw [hg, f.wire_encodedLen] at hle
      rw [List.length_drop, List.length_take] at hused
      omega
    | .incomplete d =>
      left
      obtain rfl := search_take h hk hfound
      have hsearch := nextFrame_search (f.encode.data.take k)
      rwa [hfound] at hsearch

/-- However a stream of frames is cut, the loop of a receiver gives these frames as they went out, each
once and in order, exactly where no chunk ends behind a frame inside the frame that is on its way. -/
theorem receive_iff {frames : List Frame} {chunks : List Bytes}
    (hframes : ∀ f ∈ frames, f.frameLen ≤ 0x7FF)
    (hchunks : chunks.flatten = frames.flatMap fun f => f.encode.data) (framer : Framer) :
    ((∃ rest framer', receive chunks framer = (.ok (frames.map Frame.wire, rest), framer')) ↔
      ∀ past, past <+: chunks → ∀ i r,
        decodeFrame ((Framing.pending (fun f => f.encode.data) frames past.flatten.length).drop i) ≠
          .ok r) ∧
    ∀ rest framer', receive chunks framer = (.ok (frames.map Frame.wire, rest), framer') → rest = [] := by
  have hfinds : ∀ f ∈ frames.map Frame.wire, Framing.Finds nextFrame (fun g => g.encode.data) f := by
    intro f hf
    obtain ⟨g, hg, rfl⟩ := List.mem_map.mp hf
    exact finds_frame (hframes g hg)
  have hstream : chunks.flatten = (frames.map Frame.wire).flatMap fun f => f.encode.data := by
    rw [hchunks, List.flatMap_map]
    simp only [Frame.wire_encode]
  obtain ⟨hiff, hrest⟩ := Framing.feed_iff nextFrame_nil hfinds hstream framer
  refine ⟨hiff.trans (forall₂_congr fun past _ => ?_), hrest⟩
  rw [Framing.pending_map]
  simp only [Frame.wire_encode]
  obtain ⟨-, hnil⟩ | ⟨f, more, k, hf, hk, hpart⟩ := Framing.pending_part (fun f : Frame => f.encode.data)
    frames past.flatten.length
  · rw [hnil]
    simp only [List.drop_nil]
    exact ⟨fun _ _ r hr => (nomatch hr), fun _ => nextFrame_nil⟩
  · have hmem : f ∈ frames := by
      rw [hf]
      exact List.mem_append_right _ (List.mem_cons_self ..)
    rw [Frame.length_encode_data (hframes f hmem)] at hk
    rw [hpart]
    exact waits_iff (hframes f hmem) hk

/-- An acknowledgement. -/
def innerFrame : Frame := ⟨false, .single 1, .single 1, .ua, []⟩

/-- A frame whose information is a whole frame. -/
def outerFrame : Frame := ⟨false, .single 1, .single 1, .ui, innerFrame.encode.data⟩

theorem receive_inner : ¬ ∀ frames chunks, (∀ f ∈ frames, f.frameLen ≤ 0x7FF ∧ f.wire = f) →
    chunks.flatten = frames.flatMap (fun f => f.encode.data) →
      ∃ rest framer', receive chunks new = (.ok (frames, rest), framer') := by
  intro h
  have hchunks : [outerFrame.encode.data.take 17, outerFrame.encode.data.drop 17].flatten =
      [outerFrame].flatMap fun f => f.encode.data := by
    simp
  have hframes : ∀ f ∈ [outerFrame], f.frameLen ≤ 0x7FF ∧ f.wire = f := by
    intro f hf
    obtain rfl := List.mem_singleton.mp hf
    exact by decide +kernel
  obtain ⟨rest, framer', hrun⟩ := h _ _ hframes hchunks
  have hinner : (receive [outerFrame.encode.data.take 17, outerFrame.encode.data.drop 17] new).1.map
      Prod.fst = .ok [innerFrame] := by decide +kernel
  rw [hrun] at hinner
  have houter : outerFrame = innerFrame := by simpa [Except.map] using hinner
  exact absurd houter (by decide +kernel)

/-- The same frame, cut elsewhere, and another one. -/
def sampleChunks : List Bytes :=
  [outerFrame.encode.data.take 16, outerFrame.encode.data.drop 16 ++ innerFrame.encode.data]

theorem receive_iff_sample : receive sampleChunks new = (.ok ([outerFrame, innerFrame], []), ⟨0⟩) ∧
    ∀ past, past <+: sampleChunks → ∀ i r, decodeFrame ((Framing.pending (fun f => f.encode.data)
      [outerFrame, innerFrame] past.flatten.length).drop i) ≠ .ok r := by
  have hframes : ∀ f ∈ [outerFrame, innerFrame], f.frameLen ≤ 0x7FF := by decide +kernel
  have hchunks : sampleChunks.flatten = [outerFrame, innerFrame].flatMap fun f => f.encode.data := by
    decide +kernel
  have hrun : receive sampleChunks new = (.ok ([outerFrame, innerFrame], []), ⟨0⟩) := by decide +kernel
  exact ⟨hrun, (receive_iff hframes hchunks new).1.mp ⟨[], ⟨0⟩, hrun⟩⟩

end Framer

end Dlms.Hdlc
