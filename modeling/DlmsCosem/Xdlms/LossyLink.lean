import DlmsCosem.Xdlms.Gbt

/-!
# General block transfer over a link that loses and duplicates

A `GbtLink` holds both ends and everything either of them has put on the wire. What was put there may
arrive any number of times, in any order, or never. The run is over when the receiver's owner takes the
APDU.

`GbtLink.Sound` is the invariant: what is on the wire is the APDU's own blocks, the receiver holds a
number of the first of them, and the acknowledgements grow. It is kept by every action but two, which
`GbtLink.Act.Kept` names: a late copy of a block that reaches a receiver whose APDU is complete, and an
acknowledgement of a block that the sender has gone back behind. The first discards the APDU, the second
is refused (`GbtLink.run_exact`).
-/

namespace Dlms

/-- Both ends of a transfer, the frames they have sent, and what is observed of them. -/
structure GbtLink where
  sender : GbtSender
  receiver : GbtReceiver
  /-- The frames of the sender. -/
  frames : List Bytes
  /-- The frames of the receiver. -/
  acks : List Bytes
  /-- The place of the latest acknowledgement that has arrived. -/
  heard : Nat
  /-- How often the receiver has reported the APDU complete. -/
  completed : Nat
  /-- An acknowledgement that arrived in order was refused. -/
  refused : Bool

namespace GbtLink

/-- What may happen next. -/
inductive Act
  /-- The sender emits a block into `out`. -/
  | emit (out : Bytes)
  /-- A copy of frame `i` arrives at the receiver. -/
  | deliver (i : Nat)
  /-- The receiver's acknowledgement is put on the wire. -/
  | reply (window : UInt8) (out : Bytes)
  /-- A copy of acknowledgement `j` arrives at the sender. -/
  | hear (j : Nat)

/-- A block, as it arrives. -/
def arrived (frames : List Bytes) (i : Nat) : Option GeneralBlockTransfer :=
  frames[i]?.bind fun bs => (Read.fromBytes GeneralBlockTransfer.decode bs).toOption

/-- The block number of acknowledgement `j`. -/
def ackAt (l : GbtLink) (j : Nat) : Option UInt16 := (arrived l.acks j).map (·.blockNumberAck)

def emit (l : GbtLink) (out : Bytes) : GbtLink :=
  match GbtSender.nextBlock out l.sender with
  | (.ok (some bs), sender) => { l with sender, frames := l.frames ++ [bs] }
  | (_, sender) => { l with sender }

def deliver (l : GbtLink) (i : Nat) : GbtLink :=
  match arrived l.frames i with
  | none => l
  | some block =>
    match GbtReceiver.push block l.receiver with
    | (.ok .complete, receiver) => { l with receiver, completed := l.completed + 1 }
    | (_, receiver) => { l with receiver }

def reply (l : GbtLink) (window : UInt8) (out : Bytes) : GbtLink :=
  match l.receiver.acknowledgement window out with
  | .ok bs => { l with acks := l.acks ++ [bs] }
  | .error _ => l

def hear (l : GbtLink) (j : Nat) : GbtLink :=
  match l.ackAt j with
  | none => l
  | some n =>
    match GbtSender.acknowledge n l.sender with
    | (.ok (), sender) => { l with sender, heard := max l.heard j }
    | (.error _, sender) =>
      { l with sender, heard := max l.heard j, refused := l.refused || decide (l.heard ≤ j) }

def step (l : GbtLink) : Act → GbtLink
  | .emit out => l.emit out
  | .deliver i => l.deliver i
  | .reply window out => l.reply window out
  | .hear j => l.hear j

/-- Before the first block. -/
def start (s : GbtSender) (storage : Bytes) : GbtLink := ⟨s, .new storage, [], [], 0, 0, false⟩

/-- What is expected of a transfer of `apdu`, while its owner has not taken it. -/
structure Good (apdu : Bytes) (l : GbtLink) : Prop where
  apdu_eq : 0 < l.completed → l.receiver.apdu = apdu
  once : l.completed ≤ 1
  accepted : l.refused = false

/-- No block arrives after the last, and no acknowledgement in order names a block that the sender has
gone back behind. -/
def Act.Kept (l : GbtLink) : Act → Prop
  | .emit _ => True
  | .deliver i => i < l.frames.length → l.receiver.complete = false
  | .reply _ _ => True
  | .hear j => l.heard ≤ j → ∀ n, l.ackAt j = some n → n ≤ l.sender.block

/-- What holds of a transfer that `s` started. -/
structure Sound (s : GbtSender) (l : GbtLink) : Prop where
  sender : l.sender = s.seek l.sender.block l.sender.acked
  block_le : l.sender.block.toNat ≤ s.total
  acked_le : l.sender.acked.toNat ≤ l.sender.block.toNat
  acked_received : l.sender.acked.toNat ≤ l.receiver.received.toNat
  frames : ∀ i, i < l.frames.length → ∃ n < s.total, arrived l.frames i = some (s.frameAt (UInt16.ofNat n))
  gathered : ∃ n, l.receiver.Gathered s n
  acks : ∀ j n, l.ackAt j = some n → n.toNat ≤ l.receiver.received.toNat
  sorted : ∀ i j m n, i ≤ j → l.ackAt i = some m → l.ackAt j = some n → m.toNat ≤ n.toNat
  ahead : ∀ j n, l.heard ≤ j → l.ackAt j = some n → l.sender.acked.toNat ≤ n.toNat
  completed : l.completed = if l.receiver.complete then 1 else 0
  refused : l.refused = false

variable {s : GbtSender} {l : GbtLink}

theorem start_sound {storage : Bytes} (hblock : s.block = 0) (hacked : s.acked = 0)
    (hroom : s.apdu.length ≤ storage.length) : Sound s (start s storage) := by
  have hnone : ∀ j, (start s storage).ackAt j = none := fun j => rfl
  refine ⟨rfl, ?_, ?_, ?_, ?_, ⟨0, .start hroom⟩, ?_, ?_, ?_, rfl, rfl⟩
  · simp only [start, hblock]
    exact Nat.zero_le _
  · simp only [start, hblock, hacked]
    rfl
  · simp only [start, hacked]
    rfl
  · intro i hi
    exact absurd hi (Nat.not_lt_zero i)
  · intro j n hn
    rw [hnone] at hn
    cases hn
  · intro i j m n _ hm
    rw [hnone] at hm
    cases hm
  · intro j n _ hn
    rw [hnone] at hn
    cases hn

/-- A sound transfer is a good one. -/
theorem Sound.good (h : Sound s l) : Good s.apdu l := by
  obtain ⟨n, hn⟩ := h.gathered
  have hc := h.completed
  refine ⟨fun hpos => hn.apdu_eq ?_, ?_, h.refused⟩
  · by_contra hnot
    rw [if_neg hnot] at hc
    omega
  · rw [hc]
    split <;> omega

theorem Sound.valid (h : Sound s l) (hs : s.Valid) : l.sender.Valid := by
  rw [h.sender]
  exact hs.seek ..

theorem Sound.total (h : Sound s l) : l.sender.total = s.total := by
  rw [h.sender]
  rfl

theorem Sound.frameAt (h : Sound s l) (n : UInt16) : l.sender.frameAt n = s.frameAt n := by
  rw [h.sender]
  rfl

/-- A frame that is put on the wire after the others. -/
theorem arrived_concat {frames : List Bytes} {bs : Bytes} {i : Nat} (hi : i < (frames ++ [bs]).length) :
    (i < frames.length ∧ arrived (frames ++ [bs]) i = arrived frames i) ∨
    (i = frames.length ∧ arrived (frames ++ [bs]) i =
      (Read.fromBytes GeneralBlockTransfer.decode bs).toOption) := by
  rw [List.length_append, List.length_singleton] at hi
  by_cases hold : i < frames.length
  · exact .inl ⟨hold, by rw [arrived, arrived, List.getElem?_append_left hold]⟩
  · obtain rfl : i = frames.length := by omega
    exact .inr ⟨rfl, by rw [arrived, List.getElem?_concat_length, Option.bind_some]⟩

/-- The sender puts the APDU's own blocks on the wire. -/
theorem Sound.emit (h : Sound s l) (hs : s.Valid) (hlen : s.apdu.length < 2 ^ 64) (out : Bytes) :
    Sound s (l.emit out) := by
  obtain ⟨r, hrun, hr⟩ | ⟨hn, hf, hrun⟩ := (h.valid hs).nextBlock_cases out
  · have hstay : l.emit out = l := by
      unfold GbtLink.emit
      rw [hrun]
      match r with
      | .error _ => rfl
      | .ok none => rfl
      | .ok (some bs) => exact absurd rfl (hr bs)
    rw [hstay]
    exact h
  · have hstep : l.emit out = { l with
        sender := l.sender.seek (UInt16.ofNat (l.sender.block.toNat + 1)) l.sender.acked
        frames := l.frames ++ [(l.sender.frameAt l.sender.block).encode.data] } := by
      unfold GbtLink.emit
      rw [hrun]
    rw [h.total] at hn
    rw [h.frameAt] at hf hstep
    have hblock : (UInt16.ofNat (l.sender.block.toNat + 1)).toNat = l.sender.block.toNat + 1 :=
      hs.toNat_ofNat hn
    have hdata : (s.frameAt l.sender.block).blockData.length < 2 ^ 32 := by
      refine GeneralBlockTransfer.data_lt_of_encode hf ?_
      have := s.length_fragmentAt_le l.sender.block.toNat
      exact Nat.lt_of_le_of_lt (this.trans (min_le_right ..)) hlen
    have hread := GeneralBlockTransfer.fromBytes_encode _ hdata
    rw [hstep]
    refine ⟨?_, hblock.trans_le hn, h.acked_le.trans ?_, h.acked_received, ?_, h.gathered, h.acks,
      h.sorted, h.ahead, h.completed, h.refused⟩
    · dsimp only
      rw [h.sender]
      rfl
    · exact (Nat.le_succ _).trans hblock.ge
    · intro i hi
      obtain ⟨hold, hi⟩ | ⟨-, hi⟩ := arrived_concat hi
      · rw [hi]
        exact h.frames i hold
      · refine ⟨l.sender.block.toNat, hn, ?_⟩
        rw [hi, hread, UInt16.ofNat_toNat]
        rfl

theorem ackAt_lt {j : Nat} {n : UInt16} (h : l.ackAt j = some n) : j < l.acks.length := by
  by_contra hle
  rw [ackAt, arrived, List.getElem?_eq_none (Nat.not_lt.mp hle)] at h
  cases h

/-- An acknowledgement that is put on the wire after the others. -/
theorem ackAt_concat {bs : Bytes} {ack : GeneralBlockTransfer}
    (hread : Read.fromBytes GeneralBlockTransfer.decode bs = .ok ack) {j : Nat} {n : UInt16}
    (h : ({ l with acks := l.acks ++ [bs] } : GbtLink).ackAt j = some n) :
    l.ackAt j = some n ∨ (l.acks.length ≤ j ∧ n = ack.blockNumberAck) := by
  have hlt := ackAt_lt h
  rw [ackAt] at h
  obtain ⟨-, hj⟩ | ⟨hj, hlast⟩ := arrived_concat hlt
  · rw [hj] at h
    exact .inl h
  · rw [hlast, hread] at h
    exact .inr ⟨hj.ge, (Option.some.inj h).symm⟩

/-- The receiver puts the number of blocks it holds on the wire. -/
theorem Sound.reply (h : Sound s l) (window : UInt8) (out : Bytes) : Sound s (l.reply window out) := by
  unfold GbtLink.reply
  cases hout : l.receiver.acknowledgement window out with
  | error e => exact h
  | ok bs =>
    obtain ⟨-, rfl, -⟩ := SliceWriter.encodeInto_ok hout
    have hread := GeneralBlockTransfer.fromBytes_encode
      (GeneralBlockTransfer.ack l.receiver.received window) (Nat.two_pow_pos 32)
    refine ⟨h.sender, h.block_le, h.acked_le, h.acked_received, h.frames, h.gathered,
      fun j n hn => ?_, fun i j m n hij hm hn => ?_, fun j n hj hn => ?_, h.completed, h.refused⟩
    · obtain hn | ⟨-, rfl⟩ := ackAt_concat hread hn
      · exact h.acks j n hn
      · exact le_rfl
    · obtain hn | ⟨hj, rfl⟩ := ackAt_concat hread hn
      · obtain hm | ⟨hi, -⟩ := ackAt_concat hread hm
        · exact h.sorted i j m n hij hm hn
        · have := ackAt_lt hn
          omega
      · obtain hm | ⟨-, rfl⟩ := ackAt_concat hread hm
        · exact h.acks i m hm
        · exact le_rfl
    · obtain hn | ⟨-, rfl⟩ := ackAt_concat hread hn
      · exact h.ahead j n hj hn
      · exact h.acked_received

/-- What an acknowledgement of an earlier block does to the sender. -/
theorem Sound.hear (h : Sound s l) {j : Nat} (hkept : (Act.hear j).Kept l) : Sound s (l.hear j) := by
  unfold GbtLink.hear
  cases hack : l.ackAt j with
  | none => exact h
  | some n =>
    dsimp only
    by_cases hok : n.toNat ≤ l.sender.block.toNat ∧ l.sender.acked.toNat ≤ n.toNat
    · rw [GbtSender.acknowledge_run (UInt16.le_iff_toNat_le.mpr hok.2) (UInt16.le_iff_toNat_le.mpr hok.1)]
      have hreceived := h.acks j n hack
      refine ⟨?_, hok.1.trans h.block_le, le_rfl, hreceived, h.frames, h.gathered, h.acks, h.sorted,
        fun i m hi hm => ?_, h.completed, h.refused⟩
      · dsimp only
        rw [h.sender]
        rfl
      · exact h.sorted j i n m ((le_max_right ..).trans hi) hack hm
    · -- An acknowledgement that is not taken came late.
      have hlate : ¬ l.heard ≤ j := by
        intro hj
        have hle := UInt16.le_iff_toNat_le.mp (hkept hj n hack)
        exact hok ⟨hle, h.ahead j n hj hack⟩
      rw [GbtSender.acknowledge_refused (by
        rw [UInt16.le_iff_toNat_le, UInt16.le_iff_toNat_le, and_comm]; exact hok)]
      refine ⟨h.sender, h.block_le, h.acked_le, h.acked_received, h.frames, h.gathered, h.acks, h.sorted,
        fun i m hi hm => h.ahead i m ((le_max_left ..).trans hi) hm, h.completed, ?_⟩
      simp only [h.refused, Bool.false_or, decide_eq_false_iff_not]
      exact hlate

theorem deliver_run {i : Nat} {block : GeneralBlockTransfer} {action : GbtAction} {r : GbtReceiver}
    (harrived : arrived l.frames i = some block)
    (hrun : GbtReceiver.push block l.receiver = (.ok action, r)) :
    l.deliver i = { l with
      receiver := r
      completed := if action = .complete then l.completed + 1 else l.completed } := by
  rw [deliver, harrived]
  dsimp only
  rw [hrun]
  cases action <;> rfl

/-- A block that arrives before the APDU is complete. -/
theorem Sound.deliver (h : Sound s l) (hs : s.Valid) {i : Nat} (hkept : (Act.deliver i).Kept l) :
    Sound s (l.deliver i) := by
  by_cases hi : i < l.frames.length
  · obtain ⟨m, hm, harrived⟩ := h.frames i hi
    obtain ⟨n, hgathered⟩ := h.gathered
    have hopen := hkept hi
    have hn : n < s.total := lt_of_le_of_ne hgathered.le fun heq => by
      rw [hgathered.complete.mpr heq] at hopen
      cases hopen
    have hcompleted := h.completed
    rw [hopen, if_neg Bool.false_ne_true] at hcompleted
    obtain ⟨action, r', n', hrun, hgathered', hle, -, hcomplete⟩ := hgathered.push_frame hs hn hm
    have hreceived : l.receiver.received.toNat ≤ r'.received.toNat := by
      rw [hgathered.received, hgathered'.received, hs.toNat_ofNat hgathered.le,
        hs.toNat_ofNat hgathered'.le]
      exact hle
    rw [deliver_run harrived hrun]
    refine ⟨h.sender, h.block_le, h.acked_le, h.acked_received.trans hreceived, h.frames,
      ⟨n', hgathered'⟩, fun j n hn => (h.acks j n hn).trans hreceived, h.sorted, h.ahead, ?_, h.refused⟩
    simp only [hcomplete, hcompleted]
  · have hstay : l.deliver i = l := by
      rw [GbtLink.deliver, arrived, List.getElem?_eq_none (Nat.not_lt.mp hi)]
      rfl
    rw [hstay]
    exact h

theorem Sound.step (h : Sound s l) (hs : s.Valid) (hlen : s.apdu.length < 2 ^ 64) (a : Act)
    (hkept : a.Kept l) : Sound s (l.step a) := by
  cases a with
  | emit out => exact h.emit hs hlen out
  | deliver i => exact h.deliver hs hkept
  | reply window out => exact h.reply window out
  | hear j => exact h.hear hkept

/-- An APDU of more than one block is not empty. -/
theorem apdu_ne_nil (h : 1 < s.total) : s.apdu ≠ [] := by
  have hlen := GbtSender.mul_lt_length h Nat.one_pos
  intro hnil
  rw [hnil] at hlen
  exact Nat.not_lt_zero _ hlen

/-- A block that arrives after the last discards the APDU. -/
theorem Sound.discards (h : Sound s l) (hs : s.Valid) {i : Nat} (hi : i < l.frames.length)
    (hc : l.receiver.complete = true) : ¬ Good s.apdu (l.deliver i) := by
  obtain ⟨m, hm, harrived⟩ := h.frames i hi
  obtain ⟨n, hgathered⟩ := h.gathered
  have hcompleted := h.completed
  rw [hc, if_pos rfl] at hcompleted
  -- The receiver starts over, whichever block it is.
  have hreset : GbtReceiver.Gathered s l.receiver.reset 0 := .start hgathered.room
  obtain ⟨action, r', n', hrun, hgathered', -, hfirst, hcomplete⟩ :=
    hreset.push_frame hs s.total_pos hm
  have hpush : GbtReceiver.push (s.frameAt (UInt16.ofNat m)) l.receiver = (.ok action, r') := by
    rw [← hrun, GbtReceiver.push, GbtReceiver.push, hc, if_pos rfl]
    rfl
  rw [deliver_run harrived hpush]
  intro hgood
  have honce := hgood.once
  by_cases hlast : action = .complete
  · simp only [hlast, if_true, hcompleted] at honce
    omega
  · have hopen : ¬ r'.complete = true := fun hr => hlast (hcomplete.mpr hr)
    have htotal : 1 < s.total := by
      by_contra hone
      have hm0 : m = 0 := by omega
      have := s.total_pos
      exact hopen (hgathered'.complete.mpr (by rw [hfirst hm0]; omega))
    have hapdu := hgood.apdu_eq (by simp only [hlast, if_false, hcompleted]; exact Nat.one_pos)
    rw [GbtReceiver.apdu, if_neg hopen] at hapdu
    exact apdu_ne_nil htotal hapdu.symm

/-- An acknowledgement in order of a block that the sender has gone back behind is refused. -/
theorem refuses {j : Nat} {n : UInt16} (hj : l.heard ≤ j) (hn : l.ackAt j = some n)
    (hlt : ¬ n ≤ l.sender.block) : (l.hear j).refused = true := by
  rw [hear, hn]
  dsimp only
  rw [GbtSender.acknowledge_refused fun h => hlt h.2]
  simp [hj]

theorem Sound.kept_of_good (h : Sound s l) (hs : s.Valid) (a : Act) (hgood : Good s.apdu (l.step a)) :
    a.Kept l := by
  cases a with
  | emit out => exact trivial
  | reply window out => exact trivial
  | deliver i =>
    intro hi
    by_contra hc
    exact h.discards hs hi (Bool.not_eq_false _ ▸ hc) hgood
  | hear j =>
    intro hj n hn
    by_contra hlt
    have hrefused := refuses hj hn hlt
    rw [show (l.hear j).refused = false from hgood.accepted] at hrefused
    cases hrefused

/-- The sender's cursor is not behind what was acknowledged before. -/
structure Ahead (l l' : GbtLink) : Prop where
  acked : l.sender.acked ≤ l'.sender.acked
  block : l.sender.acked ≤ l.sender.block → l'.sender.acked ≤ l'.sender.block

theorem Ahead.refl (l : GbtLink) : Ahead l l := ⟨UInt16.le_refl _, id⟩

theorem Ahead.trans {l₁ l₂ l₃ : GbtLink} (h : Ahead l₁ l₂) (h' : Ahead l₂ l₃) : Ahead l₁ l₃ :=
  ⟨UInt16.le_trans h.acked h'.acked, h'.block ∘ h.block⟩

theorem step_ahead (l : GbtLink) (a : Act) : Ahead l (l.step a) := by
  cases a with
  | emit out =>
    obtain ⟨hacked, hblock⟩ := GbtSender.nextBlock_forwards out l.sender
    have hsender : (l.emit out).sender = (GbtSender.nextBlock out l.sender).2 := by
      unfold emit
      match GbtSender.nextBlock out l.sender with
      | (.ok (some _), _) => rfl
      | (.ok none, _) => rfl
      | (.error _, _) => rfl
    refine ⟨?_, fun h => ?_⟩
    · rw [step, hsender, hacked]
      exact UInt16.le_refl _
    · rw [step, hsender, hacked]
      exact UInt16.le_trans h hblock
  | deliver i =>
    have hsender : (l.deliver i).sender = l.sender := by
      unfold deliver
      split
      · rfl
      · split <;> rfl
    exact ⟨by rw [step, hsender]; exact UInt16.le_refl _, by rw [step, hsender]; exact id⟩
  | reply window out =>
    have hsender : (l.reply window out).sender = l.sender := by
      unfold reply
      split <;> rfl
    exact ⟨by rw [step, hsender]; exact UInt16.le_refl _, by rw [step, hsender]; exact id⟩
  | hear j =>
    change Ahead l (l.hear j)
    unfold hear
    cases l.ackAt j with
    | none => exact .refl l
    | some n =>
      dsimp only
      by_cases hok : l.sender.acked ≤ n ∧ n ≤ l.sender.block
      · rw [GbtSender.acknowledge_run hok.1 hok.2]
        exact ⟨hok.1, fun _ => UInt16.le_refl _⟩
      · rw [GbtSender.acknowledge_refused hok]
        exact ⟨UInt16.le_refl _, id⟩

end GbtLink

/-- Over every run of a transfer, the APDU stays complete once it is, is reported complete once, and no
acknowledgement in order is refused, up to the first action that `Kept` rules out and no further. Nor
does the sender's cursor ever go back behind what was acknowledged. -/
theorem GbtLink.run_exact {apdu : Bytes} {fragment : Nat} {window : UInt8} {streaming : Bool}
    {s : GbtSender} (hnew : GbtSender.new apdu fragment window streaming = .ok s) {storage : Bytes}
    (hroom : apdu.length ≤ storage.length) (hlen : apdu.length < 2 ^ 64) (acts : List Act) :
    (Run.Along step (Good apdu) (start s storage) acts ↔
      Run.Meeting step (fun l a => a.Kept l) (start s storage) acts) ∧
    ∀ past, past <+: acts →
      (Run.after step (start s storage) past).sender.acked ≤
        (Run.after step (start s storage) acts).sender.acked ∧
      (Run.after step (start s storage) acts).sender.acked ≤
        (Run.after step (start s storage) acts).sender.block := by
  obtain ⟨hs, rfl, -, hblock, hacked⟩ := GbtSender.new_valid hnew
  have hahead : ∀ l acts, Ahead l (Run.after step l acts) := fun _ acts =>
    Run.related Ahead.refl (fun _ _ _ => Ahead.trans) step_ahead acts
  constructor
  · exact Run.good_iff (fun l h => h.good) (fun l a h hk => h.step hs hlen a hk)
      (fun l a h hg => h.kept_of_good hs a hg) (start_sound hblock hacked hroom) acts
  · rintro past ⟨rest, rfl⟩
    refine ⟨?_, (hahead _ _).block ?_⟩
    · rw [Run.after_append]
      exact (hahead _ rest).acked
    · rw [start, hblock, hacked]
      exact UInt16.le_refl _

theorem GbtLink.run_exact_sample : ∃ s, GbtSender.new [0xC4, 1, 2] 2 2 true = .ok s ∧ ∀ acts,
    (Run.Along step (Good [0xC4, 1, 2]) (start s (List.replicate 4 0)) acts ↔
      Run.Meeting step (fun l a => a.Kept l) (start s (List.replicate 4 0)) acts) :=
  ⟨_, rfl, fun acts => (@GbtLink.run_exact [0xC4, 1, 2] 2 2 true _ rfl (List.replicate 4 0) (by decide)
    (by decide) acts).1⟩

/-- The last block arrives twice; and an acknowledgement sends the sender back behind a block whose
acknowledgement comes next. -/
theorem GbtLink.late_copy_discards : ∃ s, GbtSender.new [0xC4, 1, 2] 2 2 true = .ok s ∧
    (let l := Run.after step (start s (List.replicate 4 0))
      [.emit (List.replicate 8 0), .emit (List.replicate 8 0), .deliver 0, .deliver 1, .deliver 1]
     l.completed = 1 ∧ l.receiver.apdu = []) ∧
    (let l := Run.after step (start s (List.replicate 4 0))
      [.emit (List.replicate 8 0), .emit (List.replicate 8 0), .deliver 0, .reply 2 (List.replicate 6 0),
        .deliver 1, .reply 2 (List.replicate 6 0), .hear 0, .hear 1]
     l.sender.block = 1 ∧ l.ackAt 1 = some 2 ∧ l.refused = true) := by
  refine ⟨_, rfl, ?_, ?_⟩ <;> decide +kernel

end Dlms
