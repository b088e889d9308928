import DlmsCosem.Axdr.Prefix
import DlmsCosem.Client.State
import DlmsCosem.Lib.InOrder
import DlmsCosem.Server.Services

/-!
# Values in blocks

A value that does not fit one response comes in blocks, and a `BlockCollector` puts them together. It
takes a block only where it is the next one. So whatever blocks of a value arrive, in whatever order and
however often, what has been gathered is the start of the value (`gathers_in_order`).
-/

namespace Dlms

/-- `BlockCollector`: the caller's buffer, and how much of it is filled. -/
structure BlockCollector where
  buf : Bytes
  len : Nat
  lastBlock : UInt32
  within : len ≤ buf.length

/-- A part of what is decoded is too short, by no more than what is missing. -/
theorem Incremental.part {α : Type} {m : Read α} (hm : Incremental m) {whole part : Bytes} {a : α}
    (h : Read.fromBytes m whole = .ok a) (hpart : part <+: whole) (hne : part ≠ whole) :
    ∃ needed offset, Read.fromBytes m part = .error ⟨.truncated needed, offset⟩ ∧
      needed ≤ whole.length - part.length := by
  have hlt : part.length < whole.length :=
    lt_of_le_of_ne hpart.length_le fun hlen => hne (hpart.eq_of_length hlen)
  have hcut : part = whole.take part.length := List.prefix_iff_eq_take.mp hpart
  obtain ⟨needed, offset, hrun, -, hle⟩ := (hm.settles h).short part.length hlt (Reader.new part) rfl hcut
  rw [← hcut] at hle
  refine ⟨needed, offset, ?_, by omega⟩
  unfold Read.fromBytes
  generalize m (Reader.new part) = r at hrun
  obtain ⟨_, r⟩ := r
  simp only at hrun
  rw [hrun]

namespace BlockCollector

/-- `new`. -/
def new (buf : Bytes) : BlockCollector := ⟨buf, 0, 0, Nat.zero_le _⟩

/-- `push`. -/
def push (number : UInt32) (data : Bytes) : Prog Error BlockCollector Unit := fun k =>
  if number ≠ Srv.nextNumber k.lastBlock then (.error ⟨.unexpectedMessage, k.len⟩, k)
  else if h : k.len + data.length ≤ k.buf.length then
    (.ok (), {
      buf := SliceWriter.splice k.buf k.len data
      len := k.len + data.length
      lastBlock := number
      within := by rw [SliceWriter.length_splice h]; exact h })
  else (.error ⟨.bufferTooSmall (k.len + data.length - k.buf.length), k.len⟩, k)

/-- `is_empty`. -/
def isEmpty (k : BlockCollector) : Bool := k.len == 0

/-- `bytes`: what has been gathered. -/
def bytes (k : BlockCollector) : Bytes := k.buf.take k.len

/-- `value`. -/
def value (k : BlockCollector) : Result Data := Read.fromBytes Data.decode k.bytes

/-- `results`. -/
def results (k : BlockCollector) : Result WireList :=
  Read.fromBytes (WireList.decodeOf GetDataResult.decode) k.bytes

/-- `reset`. -/
def reset (k : BlockCollector) : BlockCollector := ⟨k.buf, 0, 0, Nat.zero_le _⟩

variable {k : BlockCollector} {number : UInt32} {data : Bytes}

theorem length_bytes (k : BlockCollector) : k.bytes.length = k.len := by
  rw [bytes, List.length_take, Nat.min_eq_left k.within]

/-- A block that is the next one and fits is put behind what there is. Any other changes nothing. -/
theorem push_cases (number : UInt32) (data : Bytes) (k : BlockCollector) :
    (number = Srv.nextNumber k.lastBlock ∧ k.len + data.length ≤ k.buf.length ∧ ∃ k',
      push number data k = (.ok (), k') ∧ k'.bytes = k.bytes ++ data ∧ k'.lastBlock = number ∧
        k'.buf.length = k.buf.length) ∨
    (number = Srv.nextNumber k.lastBlock → k.buf.length < k.len + data.length) ∧
      ∃ e, push number data k = (.error e, k) := by
  unfold push
  by_cases hnumber : number = Srv.nextNumber k.lastBlock
  · rw [if_neg (not_not_intro hnumber)]
    by_cases hfit : k.len + data.length ≤ k.buf.length
    · rw [dif_pos hfit]
      exact .inl ⟨hnumber, hfit, _, rfl, SliceWriter.splice_take hfit, rfl,
        SliceWriter.length_splice hfit⟩
    · rw [dif_neg hfit]
      exact .inr ⟨fun _ => by omega, _, rfl⟩
  · rw [if_pos hnumber]
    exact .inr ⟨fun h => absurd h hnumber, _, rfl⟩

/-- Block after block, as they arrive. -/
def gather (k : BlockCollector) (arrivals : List (UInt32 × Bytes)) : BlockCollector :=
  arrivals.foldl (fun k x => (push x.1 x.2 k).2) k

/-- What is gathered are the first fragments of a value: as many as there were blocks. -/
structure Holds (k : BlockCollector) (fragments : List Bytes) : Prop where
  bytes : k.bytes = (fragments.take k.lastBlock.toNat).flatten
  within : k.lastBlock.toNat ≤ fragments.length

theorem Holds.new (buf : Bytes) (fragments : List Bytes) : (new buf).Holds fragments :=
  ⟨rfl, Nat.zero_le _⟩

/-- The block is one of a value that is cut into these fragments. -/
def Of (fragments : List Bytes) (x : UInt32 × Bytes) : Prop :=
  ∃ n, x.1.toNat = n + 1 ∧ fragments[n]? = some x.2

end BlockCollector

theorem Srv.nextNumber_toNat {n : UInt32} (h : n.toNat < 2 ^ 32 - 1) :
    (nextNumber n).toNat = n.toNat + 1 := by
  unfold nextNumber
  rw [if_neg (by rintro rfl; revert h; decide), UInt32.toNat_add]
  have hone : (1 : UInt32).toNat = 1 := rfl
  rw [hone]
  omega

namespace BlockCollector

variable {k : BlockCollector} {fragments : List Bytes} {x : UInt32 × Bytes}

/-- One block of the value. The numbers are those of the fragments, as long as they do not run out. -/
theorem Holds.push (h : k.Holds fragments) (hx : Of fragments x) (hcount : fragments.length < 2 ^ 32 - 1) :
    ((push x.1 x.2 k).2.Holds fragments) ∧ (push x.1 x.2 k).2.buf.length = k.buf.length ∧
    (push x.1 x.2 k).2.lastBlock.toNat ≤ lastTaken k.lastBlock.toNat [x.1.toNat] ∧
    (fragments.flatten.length ≤ k.buf.length →
      (push x.1 x.2 k).2.lastBlock.toNat = lastTaken k.lastBlock.toNat [x.1.toNat]) := by
  obtain ⟨n, hn, hfragment⟩ := hx
  have hle := h.within
  have hlast := h.bytes
  have hnumber : x.1 = Srv.nextNumber k.lastBlock ↔ n = k.lastBlock.toNat := by
    rw [← UInt32.toNat_inj, Srv.nextNumber_toNat (by omega), hn]
    omega
  have htaken : lastTaken k.lastBlock.toNat [x.1.toNat] =
      if n = k.lastBlock.toNat then n + 1 else k.lastBlock.toNat := by
    rw [lastTaken, lastTaken, hn]
    by_cases hnk : n = k.lastBlock.toNat
    · rw [if_pos hnk, if_pos (by omega)]
    · rw [if_neg hnk, if_neg (by omega)]
  rw [htaken]
  have hbound : n < fragments.length := by
    obtain ⟨hlt, -⟩ := List.getElem?_eq_some_iff.mp hfragment
    exact hlt
  have htake : (fragments.take (n + 1)).flatten = (fragments.take n).flatten ++ x.2 := by
    rw [List.take_add_one, hfragment]
    simp
  obtain ⟨heq, -, k', hrun, hbytes, hlast', hbuf⟩ | ⟨hfull, e, hrun⟩ := push_cases x.1 x.2 k
  · have hnk := hnumber.mp heq
    rw [hrun, if_pos hnk]
    refine ⟨⟨?_, ?_⟩, hbuf, ?_, fun _ => ?_⟩
    · rw [hbytes, hlast, hlast', hn, htake, hnk]
    · rw [hlast', hn]
      omega
    · rw [hlast', hn]
    · rw [hlast', hn]
  · rw [hrun]
    refine ⟨h, rfl, ?_, fun hroom => ?_⟩
    · dsimp only
      split <;> omega
    · rw [if_neg]
      intro hnk
      have hover := hfull (hnumber.mpr hnk)
      have hshort : (fragments.take (n + 1)).flatten.length ≤ fragments.flatten.length := by
        conv_rhs => rw [← List.take_append_drop (n + 1) fragments, List.flatten_append, List.length_append]
        exact Nat.le_add_right _ _
      rw [htake, List.length_append, hnk, ← hlast, length_bytes] at hshort
      omega

/-- Blocks of the value, in any order. -/
theorem Holds.gather (h : k.Holds fragments) (hcount : fragments.length < 2 ^ 32 - 1)
    {arrivals : List (UInt32 × Bytes)} (ha : ∀ x ∈ arrivals, Of fragments x) :
    (k.gather arrivals).Holds fragments ∧
    (k.gather arrivals).lastBlock.toNat ≤ lastTaken k.lastBlock.toNat (arrivals.map (·.1.toNat)) ∧
    (fragments.flatten.length ≤ k.buf.length → (k.gather arrivals).lastBlock.toNat =
      lastTaken k.lastBlock.toNat (arrivals.map (·.1.toNat))) := by
  induction arrivals generalizing k with
  | nil => exact ⟨h, le_rfl, fun _ => rfl⟩
  | cons x arrivals ih =>
    obtain ⟨hpush, hbuf, hle, heq⟩ := h.push (ha x List.mem_cons_self) hcount
    obtain ⟨hgather, hle', heq'⟩ := ih hpush fun y hy => ha y (List.mem_cons_of_mem _ hy)
    rw [List.map_cons, lastTaken_cons]
    refine ⟨hgather, hle'.trans (lastTaken_mono hle _), fun hroom => ?_⟩
    rw [← heq hroom]
    exact heq' (by rw [hbuf]; exact hroom)

/-- Blocks of a value are pushed as they arrive: in any order, any of them more than once, and not all of
them. What has been gathered is the start of the value, up to the last block of the longest run from the
first one on that arrived in order, if the buffer holds the value, and no further in any case. What it is
decoded to is the value, where all of it is there, and an error that asks for more where it is not. -/
theorem gathers_in_order (buf : Bytes) {fragments : List Bytes} (hcount : fragments.length < 2 ^ 32 - 1)
    {arrivals : List (UInt32 × Bytes)} (ha : ∀ x ∈ arrivals, Of fragments x) :
    let k := (new buf).gather arrivals
    let inOrder := fun m => (List.range' 1 m).Sublist (arrivals.map (·.1.toNat))
    (k.bytes = (fragments.take k.lastBlock.toNat).flatten ∧ k.lastBlock.toNat ≤ fragments.length) ∧
    (∀ m, m ≤ k.lastBlock.toNat → inOrder m) ∧
    (fragments.flatten.length ≤ buf.length → ∀ m, inOrder m → m ≤ k.lastBlock.toNat) ∧
    ∀ d, Read.fromBytes Data.decode fragments.flatten = .ok d →
      if k.bytes = fragments.flatten then k.value = .ok d
      else ∃ needed offset, k.value = .error ⟨.truncated needed, offset⟩ ∧
        needed ≤ fragments.flatten.length - k.len := by
  intro k inOrder
  obtain ⟨hholds, hle, heq⟩ := (Holds.new buf fragments).gather hcount ha
  refine ⟨⟨hholds.bytes, hholds.within⟩, fun m hm => ?_, fun hroom m hm => ?_, fun d hd => ?_⟩
  · exact (le_lastTaken_iff m _).mp (hm.trans hle)
  · rw [heq hroom]
    exact (le_lastTaken_iff m _).mpr hm
  · split
    · next hall => rw [value, hall, hd]
    · next hpart =>
      have hprefix : k.bytes <+: fragments.flatten := by
        conv_rhs => rw [← List.take_append_drop k.lastBlock.toNat fragments, List.flatten_append]
        rw [hholds.bytes]
        exact List.prefix_append _ _
      rw [← length_bytes]
      exact (Data.decodeAt_incremental maxDepth).part hd hprefix hpart

/-- A structure in two blocks: the second comes too early, and both of them twice. -/
theorem gathers_in_order_structure :
    let k := (new (zeros 6)).gather [(2, [0x07, 0x11, 0x09]), (1, [0x02, 0x02, 0x11]),
      (1, [0x02, 0x02, 0x11]), (2, [0x07, 0x11, 0x09]), (2, [0x07, 0x11, 0x09])]
    k.lastBlock.toNat = 2 ∧ k.value = .ok (.structure ⟨2, [0x11, 0x07, 0x11, 0x09], 2, 15⟩) := by
  have hcount : [[0x02, 0x02, 0x11], [0x07, 0x11, (0x09 : UInt8)]].length < 2 ^ 32 - 1 := by decide
  have harrivals : ∀ x ∈ [((2 : UInt32), [0x07, 0x11, (0x09 : UInt8)]), (1, [0x02, 0x02, 0x11]),
      (1, [0x02, 0x02, 0x11]), (2, [0x07, 0x11, 0x09]), (2, [0x07, 0x11, 0x09])],
      Of [[0x02, 0x02, 0x11], [0x07, 0x11, 0x09]] x := by
    intro x hx
    simp only [List.mem_cons, List.not_mem_nil, or_false] at hx
    rcases hx with rfl | rfl | rfl | rfl | rfl
    · exact ⟨1, rfl, rfl⟩
    · exact ⟨0, rfl, rfl⟩
    · exact ⟨0, rfl, rfl⟩
    · exact ⟨1, rfl, rfl⟩
    · exact ⟨1, rfl, rfl⟩
  intro k
  obtain ⟨⟨hbytes, hle⟩, -, htaken, hvalue⟩ := gathers_in_order (zeros 6) hcount harrivals
  have hlast : k.lastBlock.toNat = 2 := Nat.le_antisymm hle (htaken (by decide) 2 (by decide))
  refine ⟨hlast, ?_⟩
  have hd := hvalue (.structure ⟨2, [0x11, 0x07, 0x11, 0x09], 2, 15⟩) (by decide)
  rwa [if_pos] at hd
  rw [hbytes]
  exact congrArg (fun n => (List.take n [[0x02, 0x02, 0x11], [0x07, 0x11, 0x09]]).flatten) hlast

end BlockCollector

end Dlms
