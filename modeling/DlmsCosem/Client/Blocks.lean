import DlmsCosem.Client.Effects
import DlmsCosem.Lib.Run
import DlmsCosem.Security.Sample

/-!
# The blocks of a long request

`nextBlockRequest` sends the next block of a value that the caller keeps. A `BlockTransfer` is one
such value under way on a session that may do anything else in between. What is to be of the blocks
that went out for it is `Integrity`: one invoke id, the numbers from 1, the last block marked and no
other, and the payloads together the value.

A sender does not hold its id: its later blocks carry the one that the session has outstanding then.
So the blocks are intact as long as that still is the first block's (`BlockTransfer.KeepsId`).
-/

namespace Dlms

namespace Cli

variable {π : Type} {N : Nat} (C : CryptoProvider π)

/-- What `nextBlockRequest` may do: the next block goes out and the sender moves on, or nothing does
and the sender stays as it is. -/
theorem nextBlockRequest_run (room : Nat) (s : ClientSession π N) (b : BlockSender) :
    (∃ e t, nextBlockRequest C room (s, b) = (.error e, (t, b)) ∧ t.requests = s.requests) ∨
    ∃ bytes t i, nextBlockRequest C room (s, b) = (.ok bytes, (t, b.advance)) ∧
      t.requests = s.requests ++ [b.request i] ∧ b.isDone = false ∧
      (b.block ≠ 0 → s.outstanding = some i) := by
  unfold nextBlockRequest
  obtain ⟨-, hreq⟩ | hreq := requireAssociated_run s
  · rw [Prog.bind_run_ok (Sending.onSession_run hreq b), Prog.gets_bind_run]
    dsimp only
    split
    · exact .inl ⟨_, s, rfl, rfl⟩
    · rename_i hdone
      have hid : (∃ i s₁, (if b.block = 0 then nextInvokeId else outstandingId : Cli π N InvokeId) s =
            (.ok i, s₁) ∧ s₁.requests = s.requests ∧ (b.block ≠ 0 → s.outstanding = some i)) ∨
          ∃ e, (if b.block = 0 then nextInvokeId else outstandingId : Cli π N InvokeId) s =
            (.error e, s) := by
        by_cases h0 : b.block = 0
        · rw [if_pos h0]
          exact .inl ⟨_, _, rfl, rfl, fun h => absurd h0 h⟩
        · rw [if_neg h0, outstandingId, Prog.gets_bind_run]
          obtain ⟨i, hi, hrun⟩ | ⟨-, hrun⟩ := need_run s.outstanding .unexpectedMessage s
          · exact .inl ⟨i, s, hrun, rfl, fun _ => hi⟩
          · exact .inr ⟨_, hrun⟩
      obtain ⟨i, s₁, hid, hsame, hout⟩ | ⟨e, hid⟩ := hid
      · rw [Prog.bind_run_ok (Sending.onSession_run hid b)]
        obtain ⟨t, hprot, ⟨bytes, hsend⟩ | ⟨e, hsend⟩⟩ := send_run C (b.request i) room s₁
        · refine .inr ⟨bytes, t.log (.sent (b.request i) bytes), i, ?_, ?_, by simpa using hdone, hout⟩
          · rw [Prog.bind_run_ok (Sending.onSession_run hsend b)]
            rfl
          · rw [← hsame, ← hprot.requests]
            simp [ClientSession.requests, ClientSession.log, ClientEvent.request]
        · exact .inl ⟨e, t, by rw [Prog.bind_run_error (Sending.onSession_run hsend b)], hprot.requests.trans hsame⟩
      · exact .inl ⟨e, s, by rw [Prog.bind_run_error (Sending.onSession_run hid b)], rfl⟩
  · exact .inl ⟨_, s, by rw [Prog.bind_run_error (Sending.onSession_run hreq b)], rfl⟩

end Cli

/-! ## A transfer -/

/-- A value on its way: the session, the sender, and the blocks that went out for it. -/
structure BlockTransfer (π : Type) (N : Nat) where
  session : ClientSession π N
  sender : BlockSender
  emitted : List (InvokeId × DataBlockSA)

/-- What happens: the next block of the value, or anything else. -/
inductive TransferAct
  | next (room : Nat)
  | other (op : ClientOp)

/-- What the blocks that went out for `bytes` have to be. -/
structure Integrity (bytes : Bytes) (finished : Bool) (emitted : List (InvokeId × DataBlockSA)) :
    Prop where
  oneId : ∀ x ∈ emitted, ∀ y ∈ emitted, x.1 = y.1
  numbers : emitted.map (fun x => x.2.blockNumber.toNat) = List.range' 1 emitted.length
  last : ∀ past x rest, emitted = past ++ x :: rest →
    (x.2.lastBlock = true ↔ rest = [] ∧ finished = true)
  part : (emitted.map fun x => x.2.rawData).flatten <+: bytes
  whole : finished = true → (emitted.map fun x => x.2.rawData).flatten = bytes

/-- One more block, with the id of the others and the next number. -/
theorem Integrity.concat {bytes : Bytes} {emitted : List (InvokeId × DataBlockSA)}
    {x : InvokeId × DataBlockSA} (h : Integrity bytes false emitted) (hid : ∀ y ∈ emitted, y.1 = x.1)
    (hnum : x.2.blockNumber.toNat = emitted.length + 1)
    (hpart : (emitted.map fun x => x.2.rawData).flatten ++ x.2.rawData <+: bytes)
    (hwhole : x.2.lastBlock = true →
      (emitted.map fun x => x.2.rawData).flatten ++ x.2.rawData = bytes) :
    Integrity bytes x.2.lastBlock (emitted ++ [x]) := by
  have hall : ∀ y ∈ emitted ++ [x], y.1 = x.1 := by
    intro y hy
    obtain hy | hy := List.mem_append.mp hy
    · exact hid y hy
    · rw [List.mem_singleton.mp hy]
  have hpay : ((emitted ++ [x]).map fun x => x.2.rawData).flatten =
      (emitted.map fun x => x.2.rawData).flatten ++ x.2.rawData := by simp
  refine ⟨fun y hy z hz => (hall y hy).trans (hall z hz).symm, ?_, ?_, by rw [hpay]; exact hpart,
    fun hfin => by rw [hpay]; exact hwhole hfin⟩
  · rw [List.map_append, h.numbers, List.length_append, List.length_singleton, List.range'_1_concat]
    simp [hnum, Nat.add_comm]
  · intro past y rest hsplit
    cases rest using List.reverseRecOn with
    | nil =>
      obtain ⟨-, hx⟩ := List.append_inj' hsplit rfl
      obtain rfl := List.singleton_inj.mp hx
      simp
    | append_singleton rest z =>
      have hin : emitted = past ++ y :: rest := by
        rw [← List.cons_append, ← List.append_assoc] at hsplit
        exact (List.append_inj' hsplit rfl).1
      have hno := h.last past y rest hin
      simpa using hno

namespace BlockTransfer

variable {π : Type} {N : Nat} (C : CryptoProvider π)

/-- The blocks among what went out between two states of a session. -/
def blocksSince (s t : ClientSession π N) : List (InvokeId × DataBlockSA) :=
  (t.requests.drop s.requests.length).filterMap Apdu.sentBlock

/-- The next block. -/
def sendNext (room : Nat) (t : BlockTransfer π N) : BlockTransfer π N :=
  let (session, sender) := (Cli.nextBlockRequest C room (t.session, t.sender)).2
  { session, sender, emitted := t.emitted ++ blocksSince t.session session }

/-- One step. -/
def step (t : BlockTransfer π N) : TransferAct → BlockTransfer π N
  | .next room => t.sendNext C room
  | .other op => { t with session := t.session.step C op }

/-- `t` is a transfer of `bytes` that has just been started. -/
inductive Started (bytes : Bytes) (t : BlockTransfer π N) : Prop
  | set (s : ClientSession π N) (d : AttributeDescriptor) (access : Option SelectiveAccess) :
    Cli.setTransfer d access bytes s = (.ok t.sender, t.session) → t.emitted = [] → Started bytes t
  | setList (s : ClientSession π N) (items : List AttributeDescriptorWithSelection) (scratch : Nat) :
    Cli.setTransferWithList items bytes scratch s = (.ok t.sender, t.session) → t.emitted = [] →
    Started bytes t
  | action (s : ClientSession π N) (d : MethodDescriptor) :
    Cli.actionTransfer d bytes s = (.ok t.sender, t.session) → t.emitted = [] → Started bytes t

/-- The id that the transfer goes under: that of its first block. -/
def invokeId (t : BlockTransfer π N) : Option InvokeId := t.emitted.head?.map Prod.fst

/-- Before a block that is not the first the session still has the id of the transfer outstanding, or
none at all, and there is a number for it. -/
def KeepsId (t : BlockTransfer π N) : TransferAct → Prop
  | .next _ => t.sender.block ≠ 0 → t.sender.isDone = false →
    (t.session.outstanding = none ∨ t.session.outstanding = t.invokeId) ∧ t.sender.block ≠ 0xFFFFFFFF
  | .other _ => True

/-- What every step keeps: what went out is a part of the value, as far as the sender has come. -/
structure Underway (bytes : Bytes) (t : BlockTransfer π N) : Prop where
  bytes_eq : t.sender.bytes = bytes
  sent_le : t.sender.sent ≤ bytes.length
  count : t.emitted.length = t.sender.block.toNat
  payload : (t.emitted.map fun x => x.2.rawData).flatten = bytes.take t.sender.sent
  integrity : Integrity bytes t.sender.isDone t.emitted

/-- The transfer after a run. -/
def run (t : BlockTransfer π N) (acts : List TransferAct) : BlockTransfer π N :=
  Run.after (BlockTransfer.step C) t acts

variable {C} {bytes : Bytes} {t : BlockTransfer π N}

/-- A transfer starts with nothing of the value gone. -/
theorem Started.fresh (h : Started bytes t) : t.emitted = [] ∧
    ∃ target fragment, t.sender = .start target bytes fragment := by
  cases h with
  | set s d access h hnil =>
    obtain ⟨_, _, -, h⟩ := Prog.bind_ok h
    obtain ⟨_, _, -, h⟩ := Prog.bind_ok h
    obtain ⟨_, _, -, h⟩ := Prog.bind_ok h
    obtain ⟨_, _, -, h⟩ := Prog.bind_ok h
    obtain ⟨fragment, -, h⟩ := Prog.ofExcept_bind_ok h
    exact ⟨hnil, _, fragment, (Except.ok.inj (Prod.mk.inj h).1).symm⟩
  | setList s items scratch h hnil =>
    obtain ⟨_, _, -, h⟩ := Prog.bind_ok h
    obtain ⟨_, _, -, h⟩ := Prog.bind_ok h
    obtain ⟨_, _, -, h⟩ := Prog.bind_ok h
    obtain ⟨_, _, -, h⟩ := Prog.bind_ok h
    obtain ⟨_, _, -, h⟩ := Prog.bind_ok h
    obtain ⟨_, _, -, h⟩ := Prog.bind_ok h
    obtain ⟨_, _, -, h⟩ := Prog.bind_ok h
    obtain ⟨fragment, -, h⟩ := Prog.ofExcept_bind_ok h
    exact ⟨hnil, _, fragment, (Except.ok.inj (Prod.mk.inj h).1).symm⟩
  | action s d h hnil =>
    obtain ⟨_, _, -, h⟩ := Prog.bind_ok h
    obtain ⟨_, _, -, h⟩ := Prog.bind_ok h
    obtain ⟨_, _, -, h⟩ := Prog.bind_ok h
    obtain ⟨_, _, -, h⟩ := Prog.bind_ok h
    obtain ⟨fragment, -, h⟩ := Prog.ofExcept_bind_ok h
    exact ⟨hnil, _, fragment, (Except.ok.inj (Prod.mk.inj h).1).symm⟩

theorem Started.of_setTransfer {d : AttributeDescriptor} {access : Option SelectiveAccess}
    {s : ClientSession π N} {b : BlockSender}
    (h : (Cli.setTransfer d access bytes s).1 = .ok b) : Started bytes ⟨s, b, []⟩ :=
  .set s d access (Prod.ext h ((Cli.Looks.setTransfer d access bytes).run s)) rfl

theorem Started.underway (h : Started bytes t) : Underway bytes t := by
  obtain ⟨hnil, target, fragment, hs⟩ := h.fresh
  have hdone : t.sender.isDone = false := by rw [hs]; rfl
  refine ⟨by rw [hs]; rfl, by rw [hs]; exact Nat.zero_le _, by rw [hs, hnil]; rfl,
    by rw [hs, hnil]; rfl, ?_⟩
  rw [hnil, hdone]
  exact ⟨nofun, rfl, by simp, List.nil_prefix, nofun⟩

/-- A step of the sender sends its next block, or nothing happens to it. -/
theorem sendNext_run (C : CryptoProvider π) (room : Nat) (t : BlockTransfer π N) :
    ((t.sendNext C room).sender = t.sender ∧ (t.sendNext C room).emitted = t.emitted ∧
      ∃ e, (Cli.nextBlockRequest C room (t.session, t.sender)).1 = .error e) ∨
    ∃ i, (t.sendNext C room).sender = t.sender.advance ∧
      (t.sendNext C room).emitted = t.emitted ++ [(i, t.sender.nextBlock)] ∧
      t.sender.isDone = false ∧ (t.sender.block ≠ 0 → t.session.outstanding = some i) := by
  unfold sendNext
  obtain ⟨e, s, hrun, hreq⟩ | ⟨_, s, i, hrun, hreq, hdone, hout⟩ :=
    Cli.nextBlockRequest_run C room t.session t.sender
  · rw [hrun]
    exact .inl ⟨rfl, by simp [blocksSince, hreq], e, rfl⟩
  · rw [hrun]
    exact .inr ⟨i, rfl, by simp [blocksSince, hreq], hdone, hout⟩

/-- The next fragment is what follows. -/
theorem take_stop {b : BlockSender} (h : b.sent ≤ b.bytes.length) :
    b.bytes.take b.sent ++ b.nextBlock.rawData = b.bytes.take b.stop ∧ b.stop ≤ b.bytes.length := by
  have hstop : b.sent ≤ b.stop ∧ b.stop ≤ b.bytes.length := by
    unfold BlockSender.stop
    omega
  refine ⟨?_, hstop.2⟩
  have htake : b.bytes.take b.sent = (b.bytes.take b.stop).take b.sent := by
    rw [List.take_take, Nat.min_eq_left hstop.1]
  rw [htake]
  exact List.take_append_drop ..

theorem nextNumber_toNat {b : BlockSender} (h : b.block ≠ 0xFFFFFFFF) :
    b.nextNumber.toNat = b.block.toNat + 1 := by
  have hlt : b.block.toNat < 0xFFFFFFFF := by
    have hle := b.block.toNat_lt
    have hne : b.block.toNat ≠ 0xFFFFFFFF := fun heq => h (UInt32.toNat_inj.mp heq)
    omega
  rw [BlockSender.nextNumber, if_neg h, UInt32.toNat_add]
  simp only [UInt32.reduceToNat]
  omega

/-- Once a block is out, the sender is done where that was the last. -/
theorem isDone_advance {b : BlockSender} (h : b.block ≠ 0xFFFFFFFF) (hs : b.stop ≤ b.bytes.length) :
    b.advance.isDone = b.nextBlock.lastBlock := by
  have hpos : 0 < b.nextNumber := by
    rw [UInt32.lt_iff_toNat_lt, nextNumber_toNat h]
    simp
  change (decide (0 < b.nextNumber) && decide (b.bytes.length ≤ b.stop)) =
    decide (b.stop = b.bytes.length)
  rw [decide_eq_true hpos, Bool.true_and, decide_eq_decide]
  omega

/-- The blocks that went out are under the id of the first. -/
theorem Underway.id_eq (h : Underway bytes t) {x : InvokeId × DataBlockSA} (hx : x ∈ t.emitted) :
    t.invokeId = some x.1 := by
  unfold invokeId
  match he : t.emitted with
  | [] => rw [he] at hx; cases hx
  | y :: ys =>
    have hy : y ∈ t.emitted := he ▸ List.mem_cons_self ..
    exact congrArg some (h.integrity.oneId y hy x hx)

/-- A block under the id and with the number of the transfer leaves it as it has to be. -/
theorem Underway.append (h : Underway bytes t) {u : BlockTransfer π N} {i : InvokeId}
    (hs : u.sender = t.sender.advance) (he : u.emitted = t.emitted ++ [(i, t.sender.nextBlock)])
    (hdone : t.sender.isDone = false) (hid : t.emitted ≠ [] → t.invokeId = some i)
    (hnum : t.sender.block ≠ 0xFFFFFFFF) : Underway bytes u := by
  have hsame : ∀ y ∈ t.emitted, y.1 = i := fun y hy =>
    Option.some.inj ((h.id_eq hy).symm.trans (hid (List.ne_nil_of_mem hy)))
  obtain ⟨rfl, hle, hcount, hpay, hint⟩ := h
  obtain ⟨htake, hstop⟩ := take_stop hle
  have hpay' : (t.emitted.map fun x => x.2.rawData).flatten ++ t.sender.nextBlock.rawData =
      t.sender.bytes.take t.sender.stop := by rw [hpay, htake]
  refine ⟨by rw [hs]; rfl, by rw [hs]; exact hstop, ?_, ?_, ?_⟩
  · rw [he, hs, List.length_append, hcount]
    exact (nextNumber_toNat hnum).symm
  · rw [he, hs, List.map_append, List.flatten_append]
    change _ = t.sender.bytes.take t.sender.stop
    simpa using hpay'
  · rw [he, hs, isDone_advance hnum hstop]
    rw [hdone] at hint
    refine hint.concat (x := (i, t.sender.nextBlock)) hsame ?_ ?_ fun hlast => ?_
    · rw [hcount]
      exact nextNumber_toNat hnum
    · rw [hpay']
      exact List.take_prefix ..
    · have hall : t.sender.stop = t.sender.bytes.length := by
        simpa [BlockSender.nextBlock] using hlast
      rw [hpay', hall, List.take_length]

/-- One step under the condition. -/
theorem Underway.step (h : Underway bytes t) {a : TransferAct} (hk : t.KeepsId a) :
    Underway bytes (t.step C a) := by
  cases a with
  | other op => exact ⟨h.bytes_eq, h.sent_le, h.count, h.payload, h.integrity⟩
  | next room =>
    change Underway bytes (t.sendNext C room)
    obtain ⟨hs, he, -⟩ | ⟨i, hs, he, hdone, hout⟩ := sendNext_run C room t
    · exact ⟨by rw [hs]; exact h.bytes_eq, by rw [hs]; exact h.sent_le, by rw [hs, he]; exact h.count,
        by rw [hs, he]; exact h.payload, by rw [hs, he]; exact h.integrity⟩
    · by_cases h0 : t.sender.block = 0
      · have hnil : t.emitted = [] := List.length_eq_zero_iff.mp (by rw [h.count, h0]; rfl)
        exact h.append hs he hdone (fun hne => absurd hnil hne) (by rw [h0]; decide)
      · obtain ⟨hid, hnum⟩ := hk h0 hdone
        have hi := hout h0
        refine h.append hs he hdone (fun _ => ?_) hnum
        obtain hid | hid := hid
        · rw [hi] at hid
          cases hid
        · rw [← hid, hi]

/-- A block that goes out against the condition breaks the transfer. -/
theorem Underway.broken (h : Underway bytes t) {room : Nat} (hk : ¬ t.KeepsId (.next room))
    (hok : ∀ e, (Cli.nextBlockRequest C room (t.session, t.sender)).1 ≠ .error e) {finished : Bool} :
    ¬ Integrity bytes finished (t.step C (.next room)).emitted := by
  intro hint
  change Integrity bytes finished (t.sendNext C room).emitted at hint
  obtain ⟨-, -, e, he⟩ | ⟨i, -, he, hdone, hout⟩ := sendNext_run C room t
  · exact hok e he
  · rw [he] at hint
    apply hk
    intro h0 _
    have hpos : 0 < t.emitted.length := by
      rw [h.count]
      exact Nat.pos_of_ne_zero fun hz => h0 (UInt32.toNat_inj.mp hz)
    obtain ⟨x, hx⟩ := List.exists_mem_of_length_pos hpos
    have hsame := hint.oneId x (List.mem_append_left _ hx) (i, t.sender.nextBlock) (by simp)
    refine ⟨.inr (by rw [hout h0, h.id_eq hx, hsame]), fun hmax => ?_⟩
    have hnums := hint.numbers
    rw [List.map_append, List.length_append, List.length_singleton, List.range'_1_concat] at hnums
    have hlast := (List.append_inj' hnums rfl).2
    simp only [List.map_cons, List.map_nil, List.singleton_inj, BlockSender.nextBlock,
      BlockSender.nextNumber, hmax, if_true, h.count] at hlast
    exact absurd hlast (by decide)

/-- In a run whose later blocks go out under the condition, the blocks are what they have to be in
every state, and a block that goes out against the condition breaks them. Where no block goes out,
the sender stays as it is. -/
theorem blocks_intact (C : CryptoProvider π) (h : Started bytes t) :
    (∀ acts, Run.Meeting (BlockTransfer.step C) KeepsId t acts →
      Integrity bytes (t.run C acts).sender.isDone (t.run C acts).emitted ∧
      ∀ room, ¬ (t.run C acts).KeepsId (.next room) →
        (∀ e, (Cli.nextBlockRequest C room ((t.run C acts).session, (t.run C acts).sender)).1 ≠
          .error e) →
        ∀ finished, ¬ Integrity bytes finished (t.run C (acts ++ [.next room])).emitted) ∧
    ∀ room (s : ClientSession π N) b e, (Cli.nextBlockRequest C room (s, b)).1 = .error e →
      (Cli.nextBlockRequest C room (s, b)).2.2 = b := by
  refine ⟨fun acts hacts => ?_, fun room s b e he => ?_⟩
  · have hrun : Underway bytes (t.run C acts) :=
      hacts.invariant (fun _ _ hu hk => hu.step hk) h.underway
    refine ⟨hrun.integrity, fun room hk hok finished => ?_⟩
    rw [run, Run.after_concat]
    exact hrun.broken hk hok
  · obtain ⟨_, _, hrun, -⟩ | ⟨_, _, _, hrun, -⟩ := Cli.nextBlockRequest_run C room s b
    · rw [hrun]
    · rw [hrun] at he
      cases he

/-! ### A transfer of two blocks -/

/-- An AARE that accepts. -/
def sampleAare : Bytes :=
  [0x61, 0x17, 0xA1, 0x09, 0x06, 0x07, 0x60, 0x85, 0x74, 0x05, 0x08, 0x01, 0x01, 0xA2, 0x03, 0x02, 0x01,
    0x00, 0xA3, 0x05, 0xA1, 0x03, 0x02, 0x01, 0x00]

/-- A session whose blocks have three bytes, once its association is open. -/
def sampleSession : ClientSession SampleKeys 64 :=
  Run.after (ClientSession.step sampleProvider) (.new 64 { maxPduSize := 26 } .plain)
    [.associateRequest 100 .zeros, .handleAssociateResponse sampleAare]

def sampleAttribute : AttributeDescriptor := ⟨1, ⟨0, 0, 96, 1, 0, 255⟩, 2⟩

/-- Five bytes for an attribute. -/
def sampleTransfer : BlockTransfer SampleKeys 64 where
  session := sampleSession
  sender := .start (.attribute sampleAttribute none) [9, 3, 1, 2, 3] ⟨3, by decide⟩
  emitted := []

theorem sampleTransfer_sender :
    (Cli.setTransfer sampleAttribute none [9, 3, 1, 2, 3] sampleSession).1 =
      .ok sampleTransfer.sender := by decide +kernel

theorem sampleTransfer_started : Started [9, 3, 1, 2, 3] sampleTransfer :=
  .of_setTransfer sampleTransfer_sender

/-- The two blocks, with an answer between them that is not for this client. -/
def sampleActs : List TransferAct := [.next 64, .other (.handleResponse [0xC5, 2, 0x45, 0, 0, 0, 1] 64),
  .next 64]

theorem sampleActs_keepId :
    Run.Meeting (BlockTransfer.step sampleProvider) KeepsId sampleTransfer sampleActs := by
  have h1 : Run.Meeting (BlockTransfer.step sampleProvider) KeepsId sampleTransfer [.next 64] :=
    Run.Meeting.nil.concat (TransferAct.next 64) fun h0 => absurd rfl h0
  have h2 := h1.concat (TransferAct.other (.handleResponse [0xC5, 2, 0x45, 0, 0, 0, 1] 64)) trivial
  exact h2.concat (TransferAct.next 64) fun _ _ => ⟨.inr (by decide +kernel), by decide +kernel⟩

/-- Both blocks go out under one id, and are the value. -/
theorem blocks_intact_sample :
    Integrity [9, 3, 1, 2, 3] (sampleTransfer.run sampleProvider sampleActs).sender.isDone
        (sampleTransfer.run sampleProvider sampleActs).emitted ∧
      (sampleTransfer.run sampleProvider sampleActs).sender.isDone = true :=
  ⟨((blocks_intact sampleProvider sampleTransfer_started).1 sampleActs sampleActs_keepId).1,
    by decide +kernel⟩

/-- Another request between the blocks, and the second goes out under its id. -/
theorem interleaved_ids : ((sampleTransfer.run sampleProvider
    [.next 64, .other (.getRequest sampleAttribute none 64), .next 64]).emitted.map
      fun x => x.1.val) = [0x41, 0x42] := by decide +kernel

theorem interleaved_blocks_broken : ¬ ∀ (bytes : Bytes) (t : BlockTransfer SampleKeys 64)
    (acts : List TransferAct), Started bytes t →
      Integrity bytes (t.run sampleProvider acts).sender.isDone (t.run sampleProvider acts).emitted := by
  intro h
  have hint := h _ _ [.next 64, .other (.getRequest sampleAttribute none 64), .next 64]
    sampleTransfer_started
  have hall : ∀ a ∈ ([0x41, 0x42] : List UInt8), ∀ b ∈ ([0x41, 0x42] : List UInt8), a = b := by
    rw [← interleaved_ids]
    simp only [List.forall_mem_map]
    exact fun x hx y hy => congrArg InvokeId.val (hint.oneId x hx y hy)
  exact absurd (hall 0x41 (by simp) 0x42 (by simp)) (by decide)

end BlockTransfer

end Dlms
