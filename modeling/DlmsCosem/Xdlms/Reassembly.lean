import DlmsCosem.Xdlms.Gbt
import Mathlib.Data.List.Range

/-!
# What a receiver has gathered

`GbtRun` is a `GbtReceiver` with the blocks pushed into it since the last reset, the reset that a push
after completion makes included. Whatever the peer sends, the bytes gathered are the data of the blocks
1, 2, .. up to the number acknowledged, each once (`GbtRun.Exact`), as long as no push does one of two
things (`GbtRun.Meets`). After block 65535 the number expected next is 65535 again, and a block of that
number is stored once more. And a complete APDU is discarded before it is known that the next one fits.
-/

namespace Dlms

namespace GbtReceiver

/-- The bytes gathered, complete or not. -/
def gathered (r : GbtReceiver) : Bytes := r.buf.take r.len

/-- What one block does to a transfer that is not complete. -/
theorem take_cases (block : GeneralBlockTransfer) (r : GbtReceiver) :
    (∃ k, take block r = (.ok .acknowledge, { r with sinceAck := k })) ∨
    (∃ e, take block r = (.error e, r) ∧
      block.blockNumber = (if r.received = 0xFFFF then r.received else r.received + 1) ∧
      r.buf.length < r.len + block.blockData.length) ∨
    (∃ action k, take block r = (.ok action, ⟨SliceWriter.splice r.buf r.len block.blockData,
        r.len + block.blockData.length, block.blockNumber, k,
        (⟨block.control⟩ : BlockControl).lastBlock || r.complete⟩) ∧
      block.blockNumber = (if r.received = 0xFFFF then r.received else r.received + 1) ∧
      r.len + block.blockData.length ≤ r.buf.length) := by
  by_cases hnumber : block.blockNumber = if r.received = 0xFFFF then r.received else r.received + 1
  · by_cases hfits : r.buf.length < r.len + block.blockData.length
    · exact .inr (.inl ⟨_, by rw [take, if_neg (not_not_intro hnumber), if_pos hfits], hnumber, hfits⟩)
    · have hle := Nat.le_of_not_lt hfits
      rw [take, if_neg (not_not_intro hnumber), if_neg hfits]
      dsimp only
      cases hlast : (⟨block.control⟩ : BlockControl).lastBlock
      · rw [if_neg Bool.false_ne_true]
        generalize (if (⟨block.control⟩ : BlockControl).streaming = true then
          max (⟨block.control⟩ : BlockControl).window 1 else 1) = window
        generalize (if r.sinceAck = 0xFF then r.sinceAck else r.sinceAck + 1) = k
        by_cases hfull : window ≤ k
        · rw [if_pos hfull]
          exact .inr (.inr ⟨_, 0, rfl, hnumber, hle⟩)
        · rw [if_neg hfull]
          exact .inr (.inr ⟨_, k, rfl, hnumber, hle⟩)
      · rw [if_pos rfl]
        exact .inr (.inr ⟨_, 0, rfl, hnumber, hle⟩)
  · exact .inl ⟨0, by rw [take, if_pos hnumber]⟩

end GbtReceiver

/-- What is done with a receiver. -/
inductive GbtCall
  | push (block : GeneralBlockTransfer)
  | reset

/-- A receiver, and the blocks pushed into it since the last reset. -/
structure GbtRun where
  receiver : GbtReceiver
  pushed : List GeneralBlockTransfer

namespace GbtRun

/-- A receiver filling `buf`. -/
def start (buf : Bytes) : GbtRun := ⟨.new buf, []⟩

/-- One call. A push after completion is the first one after a reset. -/
def step (t : GbtRun) : GbtCall → GbtRun
  | .push block => ⟨(t.receiver.push block).2,
      if t.receiver.complete then [block] else t.pushed ++ [block]⟩
  | .reset => ⟨t.receiver.reset, []⟩

/-- Block 65535 is not stored a second time, and a complete APDU is not given up for a block that does
not fit. -/
def Meets (t : GbtRun) : GbtCall → Prop
  | .push block =>
    if t.receiver.complete then
      block.blockNumber = 1 → block.blockData.length ≤ t.receiver.buf.length
    else
      t.receiver.received = 0xFFFF → block.blockNumber = 0xFFFF →
        t.receiver.buf.length < t.receiver.len + block.blockData.length
  | .reset => True

/-- `blocks` are the ones whose data is held: numbered from one, as they were pushed. Only the last of
them says that no further block follows. -/
structure Holding (t : GbtRun) (blocks : List GeneralBlockTransfer) : Prop where
  pushed : blocks.Sublist t.pushed
  numbers : blocks.map (·.blockNumber.toNat) = List.range' 1 t.receiver.received.toNat
  gathered : t.receiver.gathered = (blocks.map (·.blockData)).flatten
  room : t.receiver.len ≤ t.receiver.buf.length
  complete : t.receiver.complete = true →
    ∃ past block, t.pushed = past ++ [block] ∧ (⟨block.control⟩ : BlockControl).lastBlock = true

/-- The bytes gathered are the data of the blocks up to the one acknowledged, each once, and the APDU is
empty unless the last block pushed was flagged as the last. -/
structure Exact (t : GbtRun) : Prop where
  gathered : ∃ blocks : List GeneralBlockTransfer, blocks.Sublist t.pushed ∧
    blocks.map (·.blockNumber.toNat) = List.range' 1 t.receiver.acknowledged.toNat ∧
    t.receiver.gathered = (blocks.map (·.blockData)).flatten
  apdu : t.receiver.apdu ≠ [] →
    ∃ past block, t.pushed = past ++ [block] ∧ (⟨block.control⟩ : BlockControl).lastBlock = true

variable {t : GbtRun} {blocks : List GeneralBlockTransfer}

theorem Holding.exact (h : Holding t blocks) : Exact t := by
  refine ⟨⟨blocks, h.pushed, h.numbers, h.gathered⟩, fun hne => h.complete ?_⟩
  by_contra hc
  exact hne (if_neg hc)

/-- A receiver that was reset holds nothing. -/
theorem holding_reset (r : GbtReceiver) (pushed : List GeneralBlockTransfer) :
    Holding ⟨r.reset, pushed⟩ [] := by
  refine ⟨List.nil_sublist _, rfl, ?_, Nat.zero_le _, fun hc => Bool.noConfusion hc⟩
  simp [GbtReceiver.gathered, GbtReceiver.reset]

/-- A block of a transfer that is not complete, where block 65535 is not stored twice. -/
theorem Holding.take (h : Holding t blocks) (hopen : t.receiver.complete = false)
    (block : GeneralBlockTransfer)
    (hlast : t.receiver.received = 0xFFFF → block.blockNumber = 0xFFFF →
      t.receiver.buf.length < t.receiver.len + block.blockData.length) :
    ∃ blocks', Holding ⟨(GbtReceiver.take block t.receiver).2, t.pushed ++ [block]⟩ blocks' := by
  obtain ⟨k, hrun⟩ | ⟨e, hrun, -, -⟩ | ⟨action, k, hrun, hnumber, hfits⟩ :=
    GbtReceiver.take_cases block t.receiver
  · rw [hrun]
    refine ⟨blocks, h.pushed.trans (List.sublist_append_left ..), h.numbers, h.gathered, h.room, ?_⟩
    exact fun hc => absurd (hopen.symm.trans hc) Bool.false_ne_true
  · rw [hrun]
    refine ⟨blocks, h.pushed.trans (List.sublist_append_left ..), h.numbers, h.gathered, h.room, ?_⟩
    exact fun hc => absurd (hopen.symm.trans hc) Bool.false_ne_true
  · have hne : t.receiver.received ≠ 0xFFFF := by
      intro heq
      rw [if_pos heq, heq] at hnumber
      exact absurd hfits (Nat.not_le.mpr (hlast heq hnumber))
    rw [if_neg hne] at hnumber
    have hnext : block.blockNumber.toNat = t.receiver.received.toNat + 1 := by
      have hlt : t.receiver.received.toNat ≠ 65535 := fun heq => hne (UInt16.toNat_inj.mp heq)
      have := t.receiver.received.toNat_lt
      rw [hnumber, UInt16.toNat_add]
      simp
      omega
    rw [hrun]
    refine ⟨blocks ++ [block], h.pushed.append_right [block], ?_, ?_, ?_, fun hc => ?_⟩
    · show (blocks ++ [block]).map (·.blockNumber.toNat) = List.range' 1 block.blockNumber.toNat
      rw [List.map_append, h.numbers, hnext, List.range'_concat]
      simp [hnext, Nat.add_comm]
    · have hgathered := h.gathered
      rw [GbtReceiver.gathered] at hgathered
      show List.take _ _ = _
      rw [SliceWriter.splice_take hfits, hgathered]
      simp
    · show t.receiver.len + block.blockData.length ≤ _
      rwa [SliceWriter.length_splice hfits]
    · refine ⟨t.pushed, block, rfl, ?_⟩
      simpa [hopen] using hc

/-- One call keeps what the receiver holds exact. -/
theorem Holding.step (h : Holding t blocks) (c : GbtCall) (hmeets : t.Meets c) :
    ∃ blocks', Holding (t.step c) blocks' := by
  cases c with
  | reset => exact ⟨[], holding_reset ..⟩
  | push block =>
    cases hc : t.receiver.complete
    · have hmeets : t.receiver.received = 0xFFFF → block.blockNumber = 0xFFFF →
          t.receiver.buf.length < t.receiver.len + block.blockData.length := by
        simpa [Meets, hc] using hmeets
      obtain ⟨blocks', h'⟩ := h.take hc block hmeets
      refine ⟨blocks', ?_⟩
      simpa [GbtRun.step, GbtReceiver.push, hc] using h'
    · have hzero : t.receiver.reset.received ≠ 0xFFFF := by
        show (0 : UInt16) ≠ 0xFFFF
        decide
      obtain ⟨blocks', h'⟩ := (holding_reset t.receiver []).take rfl block fun heq => absurd heq hzero
      refine ⟨blocks', ?_⟩
      simpa [GbtRun.step, GbtReceiver.push, hc] using h'

/-- A refused block leaves the receiver as it was. -/
theorem push_refused {block : GeneralBlockTransfer} {e : Error} {r' : GbtReceiver}
    (hmeets : t.Meets (.push block)) (hrun : t.receiver.push block = (.error e, r')) :
    r' = t.receiver := by
  cases hc : t.receiver.complete
  · have hrun : GbtReceiver.take block t.receiver = (.error e, r') := by
      simpa [GbtReceiver.push, hc] using hrun
    obtain ⟨k, h⟩ | ⟨e', h, -, -⟩ | ⟨action, k, h, -, -⟩ := GbtReceiver.take_cases block t.receiver
    · simp [h] at hrun
    · rw [h] at hrun
      exact (Prod.mk.inj hrun).2.symm
    · simp [h] at hrun
  · -- A complete APDU is discarded first: the next block one must fit.
    have hrun : GbtReceiver.take block t.receiver.reset = (.error e, r') := by
      simpa [GbtReceiver.push, hc] using hrun
    have hmeets : block.blockNumber = 1 → block.blockData.length ≤ t.receiver.buf.length := by
      simpa [Meets, hc] using hmeets
    obtain ⟨k, h⟩ | ⟨e', h, hnumber, hlt⟩ | ⟨action, k, h, -, -⟩ :=
      GbtReceiver.take_cases block t.receiver.reset
    · simp [h] at hrun
    · have hlt : t.receiver.buf.length < block.blockData.length := by
        simpa [GbtReceiver.reset] using hlt
      exact absurd (hmeets hnumber) (Nat.not_le.mpr hlt)
    · simp [h] at hrun

/-- In every run the bytes gathered are the data of blocks 1, 2, .. up to the one acknowledged, each
once, a push that fails changes nothing, and the APDU is empty unless the last block pushed was flagged
as the last; as long as block 65535 is not stored twice and no complete APDU is given up for a block that
does not fit. -/
theorem run_meets (buf : Bytes) {calls : List GbtCall}
    (hcalls : Run.Meeting step Meets (start buf) calls) :
    Exact (Run.after step (start buf) calls) ∧
    ∀ past block e r', past ++ [.push block] <+: calls →
      (Run.after step (start buf) past).receiver.push block = (.error e, r') →
      r'.gathered = (Run.after step (start buf) past).receiver.gathered ∧
      r'.acknowledged = (Run.after step (start buf) past).receiver.acknowledged ∧
      r'.complete = (Run.after step (start buf) past).receiver.complete := by
  constructor
  · have hstart : ∃ blocks, Holding (start buf) blocks := ⟨[], holding_reset (.new buf) []⟩
    have hstep : ∀ t c, (∃ blocks, Holding t blocks) → Meets t c →
        ∃ blocks, Holding (t.step c) blocks := fun t c ⟨blocks, h⟩ => h.step c
    obtain ⟨blocks, h⟩ := hcalls.invariant hstep hstart
    exact h.exact
  · intro past block e r' hpast hrun
    rw [push_refused (hcalls past _ hpast) hrun]
    exact ⟨rfl, rfl, rfl⟩

/-- Two blocks, the second one the last, and then a reset. -/
theorem run_meets_sample :
    let calls := [.push ⟨0, 1, 0, [0xC4, 1]⟩, .push ⟨0x80, 2, 0, [2]⟩, .reset]
    Run.Meeting step Meets (start [0, 0, 0]) calls ∧ Exact (Run.after step (start [0, 0, 0]) calls) := by
  have hmeets : Run.Meeting step Meets (start [0, 0, 0])
      [.push ⟨0, 1, 0, [0xC4, 1]⟩, .push ⟨0x80, 2, 0, [2]⟩, .reset] := by
    rw [Run.Meeting.cons_iff, Run.Meeting.cons_iff, Run.Meeting.cons_iff]
    refine ⟨?_, ?_, trivial, .nil⟩
    · exact fun h => absurd h (by decide)
    · exact fun h => absurd h (by decide)
  exact ⟨hmeets, (run_meets [0, 0, 0] hmeets).1⟩

/-- A block that is not the last, and is acknowledged at once. -/
def single (n : Nat) (data : Bytes) : GeneralBlockTransfer := ⟨0, UInt16.ofNat n, 0, data⟩

/-- The receiver after blocks 1 to `n`, none of them with data. -/
theorem after_empty (buf : Bytes) {n : Nat} (hn : n ≤ 65535) :
    Run.after step (start buf) ((List.range' 1 n).map fun k => .push (single k [])) =
      ⟨⟨buf, 0, UInt16.ofNat n, 0, false⟩, (List.range' 1 n).map fun k => single k []⟩ := by
  induction n with
  | zero => rfl
  | succ n ih =>
    have hne : UInt16.ofNat n ≠ 0xFFFF := by
      intro heq
      have := congrArg UInt16.toNat heq
      simp at this
      omega
    rw [List.range'_concat, List.map_append, List.map_singleton, Run.after_concat,
      ih (Nat.le_of_succ_le hn), List.map_append, List.map_singleton]
    simp only [step, GbtReceiver.push, Bool.false_eq_true, if_false]
    rw [GbtReceiver.take]
    simp [single, hne, SliceWriter.splice, BlockControl.lastBlock, BlockControl.streaming,
      UInt16.add_comm 1]

/-- Blocks of which only the one numbered 65535 carries a byte hold as many bytes as there are blocks of
that number. -/
theorem length_flatten {blocks : List GeneralBlockTransfer}
    (h : ∀ block ∈ blocks, block.blockData.length = if block.blockNumber.toNat = 65535 then 1 else 0) :
    (blocks.map (·.blockData)).flatten.length =
      (blocks.map (·.blockNumber.toNat)).count 65535 := by
  induction blocks with
  | nil => rfl
  | cons block blocks ih =>
    have hrest := ih fun b hb => h b (List.mem_cons_of_mem _ hb)
    simp only [List.map_cons, List.flatten_cons, List.length_append, List.count_cons, hrest,
      h block List.mem_cons_self, beq_iff_eq]
    omega

/-- Sixteen-bit numbering ends at 65535: the block of that number is stored as often as it is pushed. And
a complete APDU is gone although the push that follows is refused. -/
theorem last_number_stored_twice :
    (∃ calls, (Run.after step (start [0, 0]) calls).receiver.gathered = [7, 7] ∧
      ¬ Exact (Run.after step (start [0, 0]) calls)) ∧
    ∃ calls block e r', (Run.after step (start [0]) calls).receiver.push block = (.error e, r') ∧
      r'.acknowledged ≠ (Run.after step (start [0]) calls).receiver.acknowledged ∧
      r'.complete ≠ (Run.after step (start [0]) calls).receiver.complete := by
  constructor
  · refine ⟨(List.range' 1 65534).map (fun k => .push (single k [])) ++
      [.push (single 65535 [7])] ++ [.push (single 65535 [7])], ?_⟩
    have hafter : Run.after step (start [0, 0]) ((List.range' 1 65534).map (fun k =>
        .push (single k [])) ++ [.push (single 65535 [7])] ++ [.push (single 65535 [7])]) =
        ⟨⟨[7, 7], 2, 65535, 0, false⟩, (List.range' 1 65534).map (fun k => single k []) ++
          [single 65535 [7]] ++ [single 65535 [7]]⟩ := by
      rw [Run.after_concat, Run.after_concat, after_empty _ (by omega)]
      rfl
    rw [hafter]
    refine ⟨rfl, fun hexact => ?_⟩
    obtain ⟨blocks, hsub, hnumbers, hgathered⟩ := hexact.gathered
    have hsize : ∀ block ∈ blocks,
        block.blockData.length = if block.blockNumber.toNat = 65535 then 1 else 0 := by
      intro block hblock
      have hmem := hsub.subset hblock
      simp only [List.mem_append, List.mem_map, List.mem_range'_1, List.mem_singleton] at hmem
      rcases hmem with (⟨k, hk, rfl⟩ | rfl) | rfl
      · have hne : k % 65536 ≠ 65535 := by omega
        simp [single, hne]
      · rfl
      · rfl
    have hcount := length_flatten hsize
    rw [hnumbers, ← hgathered,
      List.count_eq_one_of_mem List.nodup_range' (List.mem_range'_1.mpr (by decide))] at hcount
    exact absurd hcount (by decide)
  · exact ⟨[.push ⟨0x80, 1, 0, [7]⟩], ⟨0, 1, 0, [1, 2]⟩, _, _, rfl, by decide, by decide⟩

end GbtRun

end Dlms
