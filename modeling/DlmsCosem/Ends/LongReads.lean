import DlmsCosem.Client.Collector
import DlmsCosem.Ends.Calls

/-!
# Long values

A value that does not fit one response is read on block by block: the client asks for what comes after
the block that it gathered last, and the server sends it. Requests and replies may get lost. What the
client gathers is the start of the value whatever is lost, and all of it once the last block is there
(`reads_gather`); the store is not asked again.
-/

namespace Dlms

open Ber

variable {σ π : Type} {N M : Nat} {C : CryptoProvider π} {S : ObjectStore σ}

/-! ## Asking for more -/

/-- `read_next_block_request`. -/
def Cli.readNextBlockRequest (C : CryptoProvider π) (blockNumber : UInt16) (room : Nat) : Cli π N Bytes :=
  Cli.readRequest C [.blockNumber blockNumber] room

namespace Outbound

/-- The client asks for what comes after the block `number`. -/
def askNext (C : CryptoProvider π) (number : UInt32) (room : Nat) : Outbound → Cli π N Bytes
  | get => Cli.getNextBlockRequest C number room
  | action => Cli.actionNextBlockRequest C number room
  | read => Cli.readNextBlockRequest C (UInt16.ofNat number.toNat) room

/-- The request for what comes after the block `number`. -/
def nextRequest (i : InvokeId) (number : UInt32) : Outbound → Apdu
  | get => .getRequest (.next i number)
  | action => .actionRequest (.nextPblock i number)
  | read => .readRequest
      ⟨.fromRaw 1 (VariableAccess.blockNumber (UInt16.ofNat number.toNat)).encode.data⟩

/-- The tag of the request. -/
def requestTag : Outbound → ApduTag
  | get => .getRequest
  | action => .actionRequest
  | read => .readRequest

/-- What the service needs agreed to. -/
def base : Outbound → Conformance
  | get => .get
  | action => .action
  | read => .read

/-- The APDU asks for what comes after the block `number`. -/
def AsksNext (i : InvokeId) (number : UInt32) (req : Apdu) : Outbound → Prop
  | get => req = .getRequest (.next i number)
  | action => req = .actionRequest (.nextPblock i number)
  | read => ∃ q : ReadRequest, req = .readRequest q ∧
      q.specification.iter VariableAccess.decode = [.ok (.blockNumber (UInt16.ofNat number.toNat))]

theorem nextRequest_head (i : InvokeId) (number : UInt32) (service : Outbound) :
    (service.nextRequest i number).encode.data.head? = some service.requestTag.asU8 := by
  cases service <;> exact Emit.head_u8 ..

theorem requestTag_serves (service : Outbound) : service.requestTag.Serves := by
  cases service <;> exact ⟨⟨nofun, nofun, nofun, nofun, rfl⟩, nofun, nofun⟩

/-- A request that goes out is the one for the next block, under the id that is outstanding. -/
theorem askNext_ok {service : Outbound} {i : InvokeId} {number : UInt32} {room : Nat}
    {c c' : ClientSession π N} {bytes : Bytes} (hid : service ≠ .read → c.outstanding = some i)
    (h : service.askNext C number room c = (.ok bytes, c')) :
    ∃ outstanding, Cli.send C (service.nextRequest i number) room { c with outstanding } =
      (.ok bytes, c') ∧ (service ≠ .read → outstanding = some i) := by
  have rules : Cli.LookRules (fun _ _ (m : Cli π N _) => Cli.Looks m) := Cli.Looks.rules
  have placed (hc : c.outstanding = some i) {apdu : InvokeId → Apdu} (h : (do
      Cli.requireAssociated
      Cli.send C (apdu (← Cli.outstandingId)) room : Cli π N Bytes) c = (.ok bytes, c')) :
      Cli.send C (apdu i) room c = (.ok bytes, c') := by
    have hrun := Cli.Looks.skip (rules.requireAssociated (P := fun _ => True)) h
    have hneed : Cli.outstandingId c = (.ok i, c) := by
      unfold Cli.outstandingId
      rw [Prog.gets_bind_run, hc]
      rfl
    rwa [Prog.bind_run_ok hneed] at hrun
  cases service with
  | get => exact ⟨c.outstanding, placed (hid (by simp)) h, hid⟩
  | action => exact ⟨c.outstanding, placed (hid (by simp)) h, hid⟩
  | read =>
    have hrun := Cli.Looks.skip (rules.requireArguments (P := fun _ => True) _)
      (Cli.Looks.skip (rules.requireConformance (P := fun _ => True) _)
        (Cli.Looks.skip (rules.requireShortName (P := fun _ => True))
          (Cli.Looks.skip (rules.requireAssociated (P := fun _ => True)) h)))
    obtain ⟨raw, c₁, hraw, hsend⟩ := Prog.bind_ok hrun
    obtain ⟨rfl, -, rfl⟩ := Cli.encode_one hraw
    exact ⟨none, hsend, fun hne => absurd rfl hne⟩

/-- What is read of the request asks for the same. -/
theorem nextRequest_restores (i : InvokeId) (number : UInt32) (service : Outbound) :
    RestoresAll Apdu.decode (service.nextRequest i number).encode (fun _ => True)
      fun req => service.AsksNext i number req := by
  cases service with
  | get =>
    have hnext : Regains GetRequest.decode (GetRequest.next i number).encode (.next i number) := by
      unfold GetRequest.encode
      simp only [Emit.append_assoc]
      exact .bind (.u8 2) (.bind i.regains (Regains.u32 number).map)
    exact Apdu.restores_service .getRequest ⟨by decide, by decide⟩ (Restores.all
      (Restores.under (hnext.restores fun _ => Iff.rfl) fun q hq => by rw [← hq]; rfl))
  | action =>
    have hnext : Regains ActionRequest.decode (ActionRequest.nextPblock i number).encode
        (.nextPblock i number) := by
      unfold ActionRequest.encode
      simp only [Emit.append_assoc]
      exact .bind (.u8 2) (.bind i.regains (Regains.u32 number).map)
    exact Apdu.restores_service .actionRequest ⟨by decide, by decide⟩ (Restores.all
      (Restores.under (hnext.restores fun _ => Iff.rfl) fun q hq => by rw [← hq]; rfl))
  | read =>
    have hentry : Regains VariableAccess.decode
        (VariableAccess.blockNumber (UInt16.ofNat number.toNat)).encode (.blockNumber _) :=
      .bind (.u8 5) (Regains.u16 _).map
    have hbody : Restores ReadRequest.decode (ReadRequest.encode ⟨.fromRaw 1
        (VariableAccess.blockNumber (UInt16.ofNat number.toNat)).encode.data⟩) (fun _ => True) fun q =>
        q.specification.iter VariableAccess.decode =
          [.ok (.blockNumber (UInt16.ofNat number.toNat))] := by
      have hsized := (Emit.Sized.u8 5).append (.u16 (UInt16.ofNat number.toNat))
      refine .under (WireList.restores_one VariableAccess.decode_echoes
        (hentry.restores fun _ => Iff.rfl) ⟨hsized.fault, hsized.size.trans_lt (by norm_num)⟩) ?_
      rintro l ⟨_, hiter, rfl⟩
      exact hiter
    exact Apdu.restores_service .readRequest ⟨by decide, by decide⟩ (Restores.all
      (Restores.under hbody fun q hq => ⟨q, rfl, hq⟩))

end Outbound

/-! ## Going on -/

/-- What the server does on a request for what comes after the block `number`. -/
def Outbound.goOn (C : CryptoProvider π) (i : InvokeId) (number : UInt32) (room : Nat) :
    Outbound → Srv σ π M Bytes
  | .get => Srv.handleGetNext C i number room
  | .action => Srv.handleActionNext C i number room
  | .read => Srv.continueReadBlock C (UInt16.ofNat number.toNat) room

section GoingOn

variable {s : Server σ π M} {service : Outbound} {i : InvokeId} {number : UInt32}

theorem Outbound.AsksNext.served {req : Apdu} (h : service.AsksNext i number req)
    (hs : s.state = .associated) (hc : s.negotiated.contains service.base = true) (room : Nat) :
    Srv.serveRequest C S req room s = service.goOn C i number room s := by
  have hserving (m : Srv σ π M Bytes) : Srv.serving C service.base room m s = m s :=
    Srv.serving_run C room ⟨hs, hc⟩
  cases service with
  | get =>
    obtain rfl := h
    exact hserving _
  | action =>
    obtain rfl := h
    exact (Srv.handleAction_run C S room hs).trans (hserving _)
  | read =>
    obtain ⟨q, rfl, hiter⟩ := h
    have hcount : q.specification.count = 1 := by
      rw [← WireList.length_iter VariableAccess.decode, hiter, List.length_singleton]
    have hacked : Srv.ackedBlock q = some (UInt16.ofNat number.toNat) := by
      rw [Srv.ackedBlock, if_pos hcount, hiter]
      rfl
    have hrun : Srv.handleRead C S q room s = _ := hserving _
    rw [hcount, if_neg (by decide), hacked] at hrun
    exact hrun

/-- Going on sees nothing but the delivery. -/
theorem Outbound.goOn_keeps {R : Server σ π M → Server σ π M → Prop} (hR : Server.Delivering R)
    (room : Nat) : Prog.Keeps R (service.goOn C i number room) := by
  have hnext (service : Outbound) (get get' : DataAccessResult) (action action' : ActionResult) :
      Prog.Keeps R (Srv.handleNext C service (Srv.transferError C i service get action room)
        (Srv.transferError C i service get' action' room) i number room) := by
    refine hR.bind (hR.gets _) fun transfer => ?_
    split
    · split
      · exact hR.transferError ..
      · split
        · exact hR.bind (hR.setTransfer _) fun _ => hR.transferError ..
        · exact hR.sendNextBlock ..
    · exact hR.transferError ..
  cases service with
  | get => exact hnext .get _ _ .otherReason .otherReason
  | action => exact hnext .action .otherReason .otherReason _ _
  | read =>
    refine hR.bind (hR.gets _) fun transfer => ?_
    split
    · split
      · exact hR.bind (hR.setTransfer _) fun _ => hR.readError ..
      · exact hR.sendNextBlock ..
    · exact hR.readError ..

/-- While the value is sent: the block that the client has last goes on, and any other ends it. -/
theorem Server.Sends.goOn {v : Bytes} {sent : Nat} {block : UInt32} (h : s.Sends i service v sent block)
    (hread : service = .read → block.toNat < 0x10000) (hle : number.toNat ≤ block.toNat) (room : Nat) :
    service.goOn C i number room s =
      if number = block then Srv.sendNextBlock C room s
      else Srv.transferError C i service .dataBlockNumberInvalid .dataBlockUnavailable room
        { s with transfer := .idle } := by
  have hnext (service : Outbound) (missing wrong : Srv σ π M Bytes) (h : s.Sends i service v sent block) :
      Srv.handleNext C service missing wrong i number room s =
        if number = block then Srv.sendNextBlock C room s else wrong { s with transfer := .idle } := by
    unfold Srv.handleNext
    rw [Prog.gets_bind_run, h.transfer]
    dsimp only
    rw [if_neg (by simp)]
    by_cases hnumber : number = block
    · rw [if_neg (by simp [hnumber]), if_pos hnumber]
    · rw [if_pos (.inr hnumber), if_neg hnumber, Srv.setTransfer, Prog.modify_bind_run]
  cases service with
  | get => exact hnext .get _ _ h
  | action => exact hnext .action _ _ h
  | read =>
    have hshort := hread rfl
    have hacked : (UInt16.ofNat number.toNat).toNat = number.toNat := by
      rw [UInt16.toNat_ofNat']
      omega
    change Srv.continueReadBlock C (UInt16.ofNat number.toNat) room s = _
    unfold Srv.continueReadBlock
    rw [Prog.gets_bind_run, h.transfer]
    dsimp only
    rw [hacked]
    by_cases hnumber : number = block
    · rw [if_neg (by simp [hnumber]), if_pos hnumber]
    · rw [if_pos (by rwa [Ne, UInt32.toNat_inj]), if_neg hnumber, Srv.setTransfer, Prog.modify_bind_run]
      rfl

/-- Where nothing is sent there is nothing to go on with. -/
theorem Outbound.goOn_idle (h : s.transfer = .idle) (room : Nat) :
    service.goOn C i number room s =
      Srv.transferError C i service .noLongGetInProgress .noLongActionInProgress room s := by
  have hnext (service : Outbound) (missing wrong : Srv σ π M Bytes) :
      Srv.handleNext C service missing wrong i number room s = missing s := by
    unfold Srv.handleNext
    rw [Prog.gets_bind_run, h]
  cases service with
  | get => exact hnext .get _ _
  | action => exact hnext .action _ _
  | read =>
    change Srv.continueReadBlock C (UInt16.ofNat number.toNat) room s = _
    unfold Srv.continueReadBlock
    rw [Prog.gets_bind_run, h]
    rfl

end GoingOn

/-! ## Gathering -/

namespace BlockCollector

/-- The client takes a block out of a response, if there is one. -/
def hear (r : Response) (k : BlockCollector) : BlockCollector :=
  match r with
  | .block _ number data => (push number data k).2
  | .readResults l =>
    match l.iter ReadResult.decode with
    | .ok (.block _ number data) :: _ => (push number.toUInt32 data k).2
    | _ => k
  | _ => k

variable {k : BlockCollector} {service : Outbound} {r : Response}

theorem hear_block {last : Bool} {number : UInt32} {raw : Bytes}
    (h : service.HearsBlock last number raw r) (hread : service = .read → number.toNat < 0x10000) :
    k.hear r = (push number raw k).2 := by
  cases service with
  | get | action =>
    obtain rfl := h
    rfl
  | read =>
    obtain ⟨l, rfl, hiter⟩ := h
    have hnumber : (UInt16.ofNat number.toNat).toUInt32 = number := by
      rw [← UInt32.toNat_inj, UInt16.toNat_toUInt32, UInt16.toNat_ofNat']
      have := hread rfl
      omega
    simp only [hear, hiter, hnumber]

theorem hear_refusal {get : DataAccessResult} {action : ActionResult}
    (h : service.HearsRefusal get action r) : k.hear r = k := by
  cases service with
  | get | action =>
    obtain rfl := h
    rfl
  | read =>
    obtain ⟨l, rfl, hiter⟩ := h
    simp only [hear, hiter]

end BlockCollector

/-- Where the server is with the value `v`, of which the client has the blocks up to `number`: it sent
them at least, and more of the value is left, or it sends nothing any more. -/
def Server.Stands (s : Server σ π M) (i : InvokeId) (service : Outbound) (v : Bytes) (number : UInt32) : Prop :=
  s.transfer = .idle ∨ ∃ block, s.Sends i service v (block.toNat * s.maxFragment) block ∧
    number.toNat ≤ block.toNat ∧ block.toNat * s.maxFragment < v.length ∧
    (service = .read → block.toNat < 0x10000)

/-- Nothing was lost: the server is where the client is. -/
def Server.InStep (s : Server σ π M) (i : InvokeId) (service : Outbound) (v : Bytes) (number : UInt32) :
    Prop :=
  (s.transfer = .idle ∧ v.length ≤ number.toNat * s.maxFragment) ∨
    s.Sends i service v (number.toNat * s.maxFragment) number ∧ number.toNat * s.maxFragment < v.length

section OfEq

variable {s t : Server σ π M} {i : InvokeId} {service : Outbound} {v : Bytes} {number : UInt32}

theorem Server.Sends.of_eq {sent : Nat} (h : s.Sends i service v sent number)
    (htransfer : t.transfer = s.transfer) (hresponse : t.response = s.response) :
    t.Sends i service v sent number :=
  ⟨htransfer.trans h.transfer, by rw [hresponse]; exact h.holds, h.fits⟩

theorem Server.Stands.of_eq (h : s.Stands i service v number) (htransfer : t.transfer = s.transfer)
    (hresponse : t.response = s.response) (hmax : t.maxFragment = s.maxFragment) :
    t.Stands i service v number := by
  unfold Server.Stands
  rw [htransfer, hmax]
  obtain hidle | ⟨block, hsends, hblock, hmore⟩ := h
  · exact .inl hidle
  · exact .inr ⟨block, hsends.of_eq htransfer hresponse, hblock, hmore⟩

theorem Server.InStep.of_eq (h : s.InStep i service v number) (htransfer : t.transfer = s.transfer)
    (hresponse : t.response = s.response) (hmax : t.maxFragment = s.maxFragment) :
    t.InStep i service v number := by
  unfold Server.InStep
  rw [htransfer, hmax]
  obtain hidle | ⟨hsends, hmore⟩ := h
  · exact .inl hidle
  · exact .inr ⟨hsends.of_eq htransfer hresponse, hmore⟩

end OfEq

theorem Server.InStep.stands {s : Server σ π M} {i : InvokeId} {service : Outbound} {v : Bytes}
    {number : UInt32} (h : s.InStep i service v number)
    (hread : service = .read → number.toNat < 0x10000) : s.Stands i service v number := by
  obtain ⟨hidle, -⟩ | ⟨hsends, hmore⟩ := h
  · exact .inl hidle
  · exact .inr ⟨number, hsends, le_rfl, hmore, hread⟩

theorem Server.Stands.back {s : Server σ π M} {i : InvokeId} {service : Outbound} {v : Bytes}
    {n m : UInt32} (h : s.Stands i service v n) (hle : m.toNat ≤ n.toNat) : s.Stands i service v m := by
  obtain hidle | ⟨block, hsends, hblock, hmore⟩ := h
  · exact .inl hidle
  · exact .inr ⟨block, hsends, hle.trans hblock, hmore⟩

/-- A client gathers the value `v`, and the server sends it. -/
structure LongRead (C : CryptoProvider π) (i : InvokeId) (service : Outbound) (v : Bytes)
    (c : ClientSession π N) (k : BlockCollector) (s : Server σ π M) : Prop where
  linked : Linked C c s
  outstanding : service ≠ .read → c.outstanding = some i
  state : s.state = .associated
  agreed : s.negotiated.contains service.base = true
  consistent : s.Agreed
  fragment : 0 < s.maxFragment
  numbered : v.length < (2 ^ 32 - 1) * s.maxFragment
  gathered : k.bytes = v.take (k.lastBlock.toNat * s.maxFragment)
  stands : s.Stands i service v k.lastBlock

/-- The response is a block. -/
def Response.IsBlock (service : Outbound) (r : Response) : Prop :=
  ∃ last number raw, service.HearsBlock last number raw r

/-- The response says that it is the last block. -/
def Response.IsLast (service : Outbound) (r : Response) : Prop :=
  ∃ number raw, service.HearsBlock true number raw r

theorem Response.IsLast.isBlock {service : Outbound} {r : Response} (h : r.IsLast service) :
    r.IsBlock service := ⟨true, h⟩

namespace LongRead

variable {i : InvokeId} {service : Outbound} {v : Bytes} {c c' : ClientSession π N} {k : BlockCollector}
  {s : Server σ π M}

/-- The block after the one that the client has last. -/
theorem push_next (h : LongRead C i service v c k s)
    (hmore : k.lastBlock.toNat * s.maxFragment < v.length) :
    let raw := (v.drop (k.lastBlock.toNat * s.maxFragment)).take s.maxFragment
    let k' := (BlockCollector.push (Srv.nextNumber k.lastBlock) raw k).2
    (Srv.nextNumber k.lastBlock).toNat = k.lastBlock.toNat + 1 ∧
    k'.buf.length = k.buf.length ∧
    (k' = k ∨ k'.lastBlock = Srv.nextNumber k.lastBlock) ∧
    k'.bytes = v.take (k'.lastBlock.toNat * s.maxFragment) ∧
    (v.length ≤ k.buf.length → k'.lastBlock = Srv.nextNumber k.lastBlock) := by
  intro raw k'
  have hcount : k.lastBlock.toNat < 2 ^ 32 - 1 := Nat.lt_of_mul_lt_mul_right (hmore.trans h.numbered)
  have hnext := Srv.nextNumber_toNat hcount
  have hbytes : k.bytes ++ raw = v.take ((k.lastBlock.toNat + 1) * s.maxFragment) := by
    rw [Nat.add_mul, Nat.one_mul, List.take_add, h.gathered]
  obtain ⟨-, -, k₁, hrun, hk₁, hlast, hbuf⟩ | ⟨hfull, e, hrun⟩ :=
    BlockCollector.push_cases (Srv.nextNumber k.lastBlock) raw k
  · have hk' : k' = k₁ := congrArg Prod.snd hrun
    rw [hk']
    refine ⟨hnext, hbuf, .inr hlast, ?_, fun _ => hlast⟩
    rw [hk₁, hbytes, hlast, hnext]
  · have hk' : k' = k := congrArg Prod.snd hrun
    rw [hk']
    refine ⟨hnext, rfl, .inl rfl, h.gathered, fun hroom => ?_⟩
    have hover := hfull rfl
    have hshort : (k.bytes ++ raw).length ≤ v.length := by
      rw [hbytes]
      exact List.length_take_le' ..
    rw [List.length_append, BlockCollector.length_bytes] at hshort
    omega

end LongRead

/-- A refusal uses up a number at most. -/
theorem Srv.transferError_emitted (C : CryptoProvider π) (i : InvokeId) (service : Outbound)
    (get : DataAccessResult) (action : ActionResult) (room : Nat) (s : Server σ π M) :
    s.Emitted (Srv.transferError C i service get action room s).2 := by
  cases service with
  | get => exact Srv.send_emitted ..
  | action => exact Srv.send_emitted ..
  | read =>
    change s.Emitted (Srv.readError C get room s).2
    unfold Srv.readError
    obtain ⟨e, w, -, hrun⟩ | ⟨w, -, hrun⟩ :=
      Srv.emit_run (ReadResult.error get).encode (SliceWriter.new (zeros 2)) s
    · rw [Prog.bind_run_error hrun]
      exact .refl s
    · rw [Prog.bind_run_ok hrun]
      exact Srv.send_emitted ..

/-- The value goes on behind a block that was sent, and stands where it stood behind one that was not. -/
theorem Server.Sends.moves {s : Server σ π M} {i : InvokeId} {service : Outbound} {v : Bytes} {sent : Nat}
    {block : UInt32} (h : s.Sends i service v sent block) (hmax : 0 < s.maxFragment) (room : Nat) :
    let after := Srv.sendNextBlock C room s
    ((∃ e, after.1 = .error e) ∧ after.2.Sends i service v sent block) ∨
    (∃ bytes, after.1 = .ok bytes) ∧
      if v.length ≤ sent + s.maxFragment then after.2.transfer = .idle
      else after.2.Sends i service v (sent + s.maxFragment) (Srv.nextNumber block) := by
  intro after
  have hsent' := Srv.sendNextBlock_sent C room h.transfer hmax
  generalize hafter : Srv.sendNextBlock C room s = r at hsent'
  have hr : after = r := hafter
  rw [hr]
  cases hsent' with
  | error e t hem =>
    obtain ⟨scratch, counter, ev, rfl, -⟩ := hem
    exact .inl ⟨⟨e, rfl⟩, h.transfer, h.holds, h.fits⟩
  | ok apdu bytes t hem =>
    obtain ⟨scratch, counter, ev, rfl, -⟩ := hem
    refine .inr ⟨⟨bytes, rfl⟩, ?_⟩
    by_cases hle : v.length ≤ sent + s.maxFragment
    · rw [if_pos hle]
      simp only [Nat.min_eq_right hle, beq_self_eq_true, if_true]
    · have hlt : min (sent + s.maxFragment) v.length = sent + s.maxFragment := by omega
      have hne : (sent + s.maxFragment == v.length) = false := by simp; omega
      rw [if_neg hle]
      refine ⟨?_, h.holds, h.fits⟩
      simp only [hlt, hne]
      simp

theorem Outbound.HearsRefusal.not_block {service : Outbound} {get : DataAccessResult}
    {action : ActionResult} {r : Response} (h : service.HearsRefusal get action r) :
    ¬ r.IsBlock service := by
  rintro ⟨last, number, raw, hblock⟩
  cases service with
  | get | action =>
    rw [show r = _ from h] at hblock
    cases hblock
  | read =>
    obtain ⟨l, rfl, hiter⟩ := h
    obtain ⟨l', hl, hiter'⟩ := hblock
    obtain rfl := Response.readResults.inj hl
    rw [hiter] at hiter'
    cases hiter'

theorem Outbound.HearsBlock.last {service : Outbound} {last : Bool} {number : UInt32} {raw : Bytes}
    {r : Response} (h : service.HearsBlock last number raw r) (hlast : r.IsLast service) : last = true := by
  obtain ⟨number', raw', hblock⟩ := hlast
  cases service with
  | get | action =>
    rw [show r = _ from h] at hblock
    cases hblock
    rfl
  | read =>
    obtain ⟨l, rfl, hiter⟩ := h
    obtain ⟨l', hl, hiter'⟩ := hblock
    obtain rfl := Response.readResults.inj hl
    obtain ⟨hblock, -⟩ := List.cons.inj (hiter.symm.trans hiter')
    obtain ⟨hlast, -⟩ := ReadResult.block.inj (Except.ok.inj hblock)
    exact hlast

namespace LongRead

variable {i : InvokeId} {service : Outbound} {v : Bytes} {c c' : ClientSession π N} {k : BlockCollector}
  {s : Server σ π M}

/-- The client and the server of a read, after the server moved on. -/
theorem of_server (h : LongRead C i service v c k s) {t : Server σ π M} (hlinked : Linked C c t)
    (huntouched : s.Untouched t) (hconfig : t.config = s.config)
    (hpdu : t.clientMaxPduSize = s.clientMaxPduSize) (hconsistent : t.Agreed)
    (hstands : t.Stands i service v k.lastBlock) : LongRead C i service v c k t := by
  have hmax : t.maxFragment = s.maxFragment := by
    unfold Server.maxFragment Server.protectionOverhead
    rw [hconfig, hpdu]
  constructor
  · exact hlinked
  · exact h.outstanding
  · rw [huntouched.state, h.state]
  · rw [huntouched.negotiated, h.agreed]
  · exact hconsistent
  · rw [hmax]
    exact h.fragment
  · rw [hmax]
    exact h.numbered
  · rw [hmax]
    exact h.gathered
  · exact hstands

/-- The client took a response of the server `t`. -/
theorem taken (h : LongRead C i service v c k s) {w : ReplayWindow} {trace : List ClientEvent}
    (hlinked : Linked (N := N) C { c with peerReplay := w, trace } s) {k' : BlockCollector}
    (hgathered : k'.bytes = v.take (k'.lastBlock.toNat * s.maxFragment))
    (hstands : s.Stands i service v k'.lastBlock) :
    LongRead (N := N) C i service v { c with peerReplay := w, trace } k' s :=
  ⟨hlinked, h.outstanding, h.state, h.agreed, h.consistent, h.fragment, h.numbered, hgathered, hstands⟩

/-- The client heard the response `r` of a server that went from `s` to `t`. -/
structure Heard (C : CryptoProvider π) (i : InvokeId) (service : Outbound) (v : Bytes)
    (k : BlockCollector) (s t : Server σ π M) (r : Response) (c' : ClientSession π N) : Prop where
  still : LongRead C i service v c' (k.hear r) t
  buffer : (k.hear r).buf.length = k.buf.length
  forward : k.lastBlock.toNat ≤ (k.hear r).lastBlock.toNat
  last : v.length ≤ k.buf.length → r.IsLast service →
    v.length ≤ (k.hear r).lastBlock.toNat * s.maxFragment
  inStep : v.length ≤ k.buf.length → s.InStep i service v k.lastBlock →
    t.InStep i service v (k.hear r).lastBlock ∧ (k.hear r).lastBlock.toNat =
      if k.lastBlock.toNat * s.maxFragment < v.length then k.lastBlock.toNat + 1 else k.lastBlock.toNat

/-- The client gathers nothing of a refusal. -/
theorem hears_refusal {t : Server σ π M} (h : LongRead C i service v c k t) {s' : Server σ π M}
    {get : DataAccessResult} {action : ActionResult} {room : Nat} {reply : Bytes} {size : Nat}
    (hl : Linked C c s') (hrun : Srv.transferError C i service get action room s' = (.ok reply, t))
    (hsize : reply.length ≤ size) (hcodes : get.Canonical ∧ action.Canonical)
    (hidle : t.transfer = .idle) (hmax : t.maxFragment = s.maxFragment)
    (hall : s.InStep i service v k.lastBlock → v.length ≤ k.lastBlock.toNat * s.maxFragment) :
    ∃ r c', Cli.handleResponse C reply size c = (.ok r, c') ∧ Heard C i service v k s t r c' := by
  obtain ⟨r, w, trace, hr, hresponse, hl'⟩ := hl.hears_refusal h.outstanding hrun hsize hcodes
  have hhear : k.hear r = k := BlockCollector.hear_refusal hr
  refine ⟨r, _, hresponse, ?_⟩
  constructor
  · rw [hhear]
    exact h.taken hl' h.gathered h.stands
  · rw [hhear]
  · rw [hhear]
  · exact fun _ hlast => absurd hlast.isBlock hr.not_block
  · intro _ hin
    have hcomplete := hall hin
    rw [hhear, if_neg (by omega)]
    exact ⟨.inl ⟨hidle, by rwa [hmax]⟩, rfl⟩

/-- A server that has sent the block after the one that the client has last. -/
theorem moved (h : LongRead C i service v c k s)
    (hmore : k.lastBlock.toNat * s.maxFragment < v.length) {t : Server σ π M}
    (hmax : t.maxFragment = s.maxFragment)
    (ht : if v.length ≤ k.lastBlock.toNat * s.maxFragment + s.maxFragment then t.transfer = .idle
      else t.Sends i service v (k.lastBlock.toNat * s.maxFragment + s.maxFragment)
        (Srv.nextNumber k.lastBlock)) : t.InStep i service v (Srv.nextNumber k.lastBlock) := by
  obtain ⟨hnext, -⟩ := h.push_next hmore
  have hsent : (Srv.nextNumber k.lastBlock).toNat * t.maxFragment =
      k.lastBlock.toNat * s.maxFragment + s.maxFragment := by
    rw [hnext, hmax, Nat.add_mul, Nat.one_mul]
  unfold Server.InStep
  rw [hsent]
  split at ht
  · next hle => exact .inl ⟨ht, hle⟩
  · next hlt => exact .inr ⟨ht, by omega⟩

/-- The next block is gathered, if there is room for it. -/
theorem hears_next (h : LongRead C i service v c k s) {room : Nat}
    (hs : s.Sends i service v (k.lastBlock.toNat * s.maxFragment) k.lastBlock)
    (hmore : k.lastBlock.toNat * s.maxFragment < v.length)
    {t : Server σ π M} (ht : LongRead C i service v c k t) (hmax : t.maxFragment = s.maxFragment)
    (hstep : t.InStep i service v (Srv.nextNumber k.lastBlock))
    {reply : Bytes} {size : Nat} (hrun : Srv.sendNextBlock C room s = (.ok reply, t))
    (hsize : reply.length ≤ size) :
    ∃ r c', Cli.handleResponse C reply size c = (.ok r, c') ∧ Heard C i service v k s t r c' := by
  obtain ⟨hhears, hread, -⟩ :=
    h.linked.hears_block hs hmore.le h.fragment h.outstanding hrun hsize
  obtain ⟨r, w, trace, hr, hresponse, hl⟩ := hhears
  have hhear := BlockCollector.hear_block (k := k) hr hread
  obtain ⟨hnext, hbuf, hkept, hgathered, hroom⟩ := h.push_next hmore
  rw [← hhear] at hbuf hkept hgathered hroom
  have hstands := hstep.stands hread
  refine ⟨r, _, hresponse, ?_⟩
  constructor
  · refine ht.taken hl (by rw [hmax, hgathered]) ?_
    rcases hkept with hkept | hkept
    · rw [hkept]
      exact ht.stands
    · rw [hkept]
      exact hstands
  · exact hbuf
  · rcases hkept with hkept | hkept
    · rw [hkept]
    · rw [hkept, hnext]
      exact Nat.le_succ _
  · intro hfits hlast
    have hwhole := of_decide_eq_true (hr.last hlast)
    rw [hroom hfits, hnext, Nat.add_mul, Nat.one_mul]
    exact hwhole
  · intro hfits _
    rw [hroom hfits, if_pos hmore]
    exact ⟨hstep, hnext⟩

/-- What a server that goes on leaves behind, and what the client gathers of its reply. -/
theorem goes_on (h : LongRead C i service v c k s) (room : Nat)
    (hrises : s.invocationCounter.last.toNat ≤
      (service.goOn C i k.lastBlock room s).2.invocationCounter.last.toNat)
    (hconsistent : (service.goOn C i k.lastBlock room s).2.Agreed) :
    let after := service.goOn C i k.lastBlock room s
    LongRead C i service v c k after.2 ∧ ∀ reply size, after.1 = .ok reply → reply.length ≤ size →
      ∃ r c', Cli.handleResponse C reply size c = (.ok r, c') ∧ Heard C i service v k s after.2 r c' := by
  intro after
  have hkeeps : s.Untouched after.2 := (Outbound.goOn_keeps Server.Untouched.delivering room).run s
  have hholds : s.Holds after.2 := (Outbound.goOn_keeps Server.Holds.delivering room).run s
  have hlinked : Linked C c after.2 := h.linked.of_server hholds.config hholds.protector
    hholds.clientSystemTitle hholds.peerReplay hrises
  have hmax : after.2.maxFragment = s.maxFragment := by
    unfold Server.maxFragment Server.protectionOverhead
    rw [hholds.config, hholds.clientMaxPduSize]
  have stays : after.2.Stands i service v k.lastBlock → LongRead C i service v c k after.2 :=
    h.of_server hlinked hkeeps hholds.config hholds.clientMaxPduSize hconsistent
  -- A refusal comes from a server that sends nothing any more.
  have refused {s' : Server σ π M} (hidle : s'.transfer = .idle) (hl : Linked C c s')
      {get : DataAccessResult} {action : ActionResult}
      (hrun : after = Srv.transferError C i service get action room s')
      (hcodes : get.Canonical ∧ action.Canonical)
      (hall : s.InStep i service v k.lastBlock → v.length ≤ k.lastBlock.toNat * s.maxFragment) :
      LongRead C i service v c k after.2 ∧ ∀ reply size, after.1 = .ok reply → reply.length ≤ size →
        ∃ r c', Cli.handleResponse C reply size c = (.ok r, c') ∧
          Heard C i service v k s after.2 r c' := by
    have htransfer : after.2.transfer = .idle := by
      obtain ⟨scratch, counter, ev, ht, -⟩ := Srv.transferError_emitted C i service get action room s'
      rw [hrun, ht]
      exact hidle
    have hstays := stays (.inl htransfer)
    refine ⟨hstays, fun reply size hreply hsize => ?_⟩
    have hsent : Srv.transferError C i service get action room s' = (.ok reply, after.2) :=
      hrun.symm.trans (Prod.ext hreply rfl)
    exact hstays.hears_refusal hl hsent hsize hcodes htransfer hmax hall
  rcases h.stands with hidle | ⟨block, hsends, hle, hmore, hread⟩
  · have hrun : service.goOn C i k.lastBlock room s = _ := Outbound.goOn_idle hidle room
    refine refused hidle h.linked hrun ⟨rfl, rfl⟩ ?_
    rintro (⟨-, hall⟩ | ⟨hsends, -⟩)
    · exact hall
    · have htransfer := hsends.transfer
      rw [hidle] at htransfer
      cases htransfer
  · have hrun := hsends.goOn (C := C) hread hle room
    by_cases hblock : k.lastBlock = block
    · subst hblock
      rw [if_pos rfl] at hrun
      have hmoves := hsends.moves (C := C) h.fragment room
      rw [← hrun] at hmoves
      obtain ⟨⟨e, he⟩, hkept⟩ | ⟨⟨bytes, hbytes⟩, hmoved⟩ := hmoves
      · refine ⟨stays (.inr ⟨_, by rw [hmax]; exact hkept, le_rfl, by rw [hmax]; exact hmore, hread⟩), ?_⟩
        intro reply size hreply
        cases he.symm.trans hreply
      · have hstep := h.moved hmore hmax hmoved
        have hnumber : service = .read → (Srv.nextNumber k.lastBlock).toNat < 0x10000 := by
          obtain ⟨-, hnumber, -⟩ := h.linked.hears_block hsends hmore.le h.fragment h.outstanding
            (hrun.symm.trans (Prod.ext hbytes rfl)) le_rfl
          exact hnumber
        obtain ⟨hnext, -⟩ := h.push_next hmore
        have hstays := stays ((hstep.stands hnumber).back (by rw [hnext]; exact Nat.le_succ _))
        exact ⟨hstays, fun reply size hreply hsize =>
          h.hears_next hsends hmore hstays hmax hstep (hrun.symm.trans (Prod.ext hreply rfl)) hsize⟩
    · rw [if_neg hblock] at hrun
      have hidle : Linked C c { s with transfer := .idle } := h.linked.of_server rfl rfl rfl rfl le_rfl
      refine refused rfl hidle hrun ⟨rfl, rfl⟩ ?_
      rintro (⟨hidle, -⟩ | ⟨hsends', -⟩)
      · have htransfer := hsends.transfer
        rw [hidle] at htransfer
        cases htransfer
      · have htransfer := hsends.transfer.symm.trans hsends'.transfer
        obtain ⟨-, -, -, -, hnumber⟩ := Transfer.sending.inj htransfer
        exact absurd hnumber.symm hblock

/-- The client asks for the next block, which a server may never hear of. -/
theorem asked (h : LongRead C i service v c k s) {room : Nat} {bytes : Bytes}
    (hask : service.askNext C k.lastBlock room c = (.ok bytes, c')) : LongRead C i service v c' k s := by
  obtain ⟨outstanding, hsend, hid⟩ := Outbound.askNext_ok h.outstanding hask
  have hlinked : Linked C { c with outstanding } s := h.linked.of_client rfl rfl rfl rfl le_rfl
  obtain ⟨-, counter, trace, rfl, hsent⟩ := Cli.send_sent hlinked.client hsend
  exact ⟨hlinked.of_client rfl rfl rfl rfl hsent.rises, hid, h.state, h.agreed, h.consistent, h.fragment,
    h.numbered, h.gathered, h.stands⟩

/-- The request arrives, and the server goes on. -/
theorem exchange (h : LongRead C i service v c k s) {room : Nat} {bytes : Bytes}
    (hask : service.askNext C k.lastBlock room c = (.ok bytes, c')) (htakes : s.Takes bytes) (room' : Nat)
    (rng : Entropy) :
    let after := Srv.handle C S bytes room' rng s
    s.Untouched after.2 ∧ after.2.maxFragment = s.maxFragment ∧ LongRead C i service v c' k after.2 ∧
    ∀ reply size, after.1 = .ok reply → reply.length ≤ size →
      ∃ r c'', Cli.handleResponse C reply size c' = (.ok r, c'') ∧
        Heard C i service v k s after.2 r c'' := by
  intro after
  obtain ⟨outstanding, hsend, -⟩ := Outbound.askNext_ok h.outstanding hask
  have hlinked : Linked C { c with outstanding } s := h.linked.of_client rfl rfl rfl rfl le_rfl
  obtain ⟨req, s₁, hasks, hbrings, hlinked₁⟩ := hlinked.brings hsend
    (Outbound.nextRequest_head i k.lastBlock service) service.requestTag_serves
    (fun _ => Outbound.nextRequest_restores i k.lastBlock service) (.inl h.state) htakes.1 htakes.2
  have hs₁ := Server.Untouched.of_brings hbrings
  have hserved : after = service.goOn C i k.lastBlock room' s₁ := (hbrings.handle S room' rng).trans
    (hasks.served (hs₁.state.trans h.state) (by rw [hs₁.negotiated]; exact h.agreed) room')
  have hrises := (Server.step_rises C S (.handle bytes room' rng) h.consistent).le
  have hagreed : after.2.Agreed := Server.step_agreed C S (.handle bytes room' rng) h.consistent
  obtain ⟨w, ev, hmoved, -⟩ := hbrings.after
  have hread : LongRead C i service v c' k s₁ := by
    subst hmoved
    exact (h.asked hask).of_server hlinked₁ hs₁ rfl rfl h.consistent
      (h.stands.of_eq rfl rfl rfl)
  obtain ⟨hafter, hears⟩ := hread.goes_on room'
    (by rw [← hserved]; subst hmoved; exact hrises) (by rw [← hserved]; exact hagreed)
  rw [← hserved] at hafter hears
  have hkeeps : s₁.Untouched after.2 :=
    hserved ▸ (Outbound.goOn_keeps Server.Untouched.delivering room').run s₁
  have hholds : s₁.Holds after.2 := hserved ▸ (Outbound.goOn_keeps Server.Holds.delivering room').run s₁
  have hmax : after.2.maxFragment = s₁.maxFragment := by
    unfold Server.maxFragment Server.protectionOverhead
    rw [hholds.config, hholds.clientMaxPduSize]
  refine ⟨hs₁.trans hkeeps, ?_, hafter, fun reply size hreply hsize => ?_⟩
  · subst hmoved
    exact hmax
  · obtain ⟨r, c'', hresponse, hheard⟩ := hears reply size hreply hsize
    subst hmoved
    exact ⟨r, c'', hresponse, hheard.still, hheard.buffer, hheard.forward, hheard.last,
      fun hfits hin => hheard.inStep hfits (hin.of_eq rfl rfl rfl)⟩

end LongRead

/-! ## Reading on -/

/-- What the client gathers of what it makes of a reply. -/
def BlockCollector.listen (k : BlockCollector) : Result Response → BlockCollector
  | .ok r => k.hear r
  | .error _ => k

/-- The client asks for block after block, over a wire that may lose messages. What is kept of it is what
the client made of the reply to each request that reached the server, if it got there. -/
inductive ReadsOn (C : CryptoProvider π) (S : ObjectStore σ) (service : Outbound) (size : Nat) :
    ClientSession π N → BlockCollector → Server σ π M → List (Option (Result Response)) →
      ClientSession π N → BlockCollector → Server σ π M → Prop
  | done (c : ClientSession π N) (k : BlockCollector) (s : Server σ π M) :
    ReadsOn C S service size c k s [] c k s
  | lost {c c₁ c' : ClientSession π N} {k k' : BlockCollector} {s s' : Server σ π M} {room : Nat}
    {bytes : Bytes} {log : List (Option (Result Response))} :
    service.askNext C k.lastBlock room c = (.ok bytes, c₁) →
    ReadsOn C S service size c₁ k s log c' k' s' → ReadsOn C S service size c k s log c' k' s'
  | unheard {c c₁ c' : ClientSession π N} {k k' : BlockCollector} {s s' : Server σ π M} {room : Nat}
    {bytes : Bytes} {log : List (Option (Result Response))} (room' : Nat) (rng : Entropy) :
    service.askNext C k.lastBlock room c = (.ok bytes, c₁) → s.Takes bytes →
    ReadsOn C S service size c₁ k (Srv.handle C S bytes room' rng s).2 log c' k' s' →
    ReadsOn C S service size c k s (none :: log) c' k' s'
  | heard {c c₁ c' : ClientSession π N} {k k' : BlockCollector} {s s' : Server σ π M} {room : Nat}
    {bytes reply : Bytes} {log : List (Option (Result Response))} (room' : Nat) (rng : Entropy) :
    service.askNext C k.lastBlock room c = (.ok bytes, c₁) → s.Takes bytes →
    (Srv.handle C S bytes room' rng s).1 = .ok reply → reply.length ≤ size →
    ReadsOn C S service size (Cli.handleResponse C reply size c₁).2
      (k.listen (Cli.handleResponse C reply size c₁).1) (Srv.handle C S bytes room' rng s).2 log c' k' s' →
    ReadsOn C S service size c k s (some (Cli.handleResponse C reply size c₁).1 :: log) c' k' s'

namespace LongRead

variable {i : InvokeId} {service : Outbound} {v : Bytes} {c c' : ClientSession π N}
  {k k' : BlockCollector} {s s' : Server σ π M} {size : Nat} {log : List (Option (Result Response))}

/-- All of the value is gathered once there are blocks enough. -/
theorem gathered_all (h : LongRead C i service v c k s)
    (hall : v.length ≤ k.lastBlock.toNat * s.maxFragment) : k.bytes = v := by
  rw [h.gathered, List.take_of_length_le hall]

/-- However the client reads on, it gathers the start of the value, and the store is left alone. It has the
whole value behind a last block, and behind enough requests of which no reply was lost. -/
theorem readsOn (h : LongRead C i service v c k s)
    (hrun : ReadsOn C S service size c k s log c' k' s') :
    LongRead C i service v c' k' s' ∧ s.Untouched s' ∧ s'.maxFragment = s.maxFragment ∧
    k.lastBlock.toNat ≤ k'.lastBlock.toNat ∧ (∀ resp, some resp ∈ log → ∃ r, resp = .ok r) ∧
    (v.length ≤ k.buf.length →
      (∀ r, some (.ok r) ∈ log → r.IsLast service → v.length ≤ k'.lastBlock.toNat * s.maxFragment) ∧
      (s.InStep i service v k.lastBlock → none ∉ log →
        v.length ≤ (k.lastBlock.toNat + log.length) * s.maxFragment →
        v.length ≤ k'.lastBlock.toNat * s.maxFragment)) := by
  induction hrun with
  | done c k s => exact ⟨h, ⟨rfl, rfl, rfl, rfl⟩, rfl, le_rfl, nofun, fun _ => ⟨nofun, fun _ _ => id⟩⟩
  | lost hask _ ih => exact ih (h.asked hask)
  | @unheard c c₁ c' k k' s s' room bytes log room' rng hask htakes _ ih =>
    obtain ⟨huntouched, hmax, hread, -⟩ := h.exchange (S := S) hask htakes room' rng
    obtain ⟨hread', huntouched', hmax', hle, hok, hfits⟩ := ih hread
    rw [hmax] at hfits
    refine ⟨hread', huntouched.trans huntouched', hmax'.trans hmax, hle, ?_, fun hv => ⟨?_, ?_⟩⟩
    · intro resp hresp
      exact hok resp ((List.mem_cons.mp hresp).resolve_left nofun)
    · intro r hr
      exact (hfits hv).1 r ((List.mem_cons.mp hr).resolve_left nofun)
    · exact fun _ hnone => absurd List.mem_cons_self hnone
  | @heard c c₁ c' k k' s s' room bytes reply log room' rng hask htakes hreply hsize _ ih =>
    obtain ⟨huntouched, hmax, -, hears⟩ := h.exchange (S := S) hask htakes room' rng
    obtain ⟨r, c₂, hresponse, hheard⟩ := hears reply size hreply hsize
    rw [hresponse] at ih ⊢
    obtain ⟨hread', huntouched', hmax', hle, hok, hfits⟩ := ih hheard.still
    rw [hmax, show (k.listen (.ok r)).buf.length = k.buf.length from hheard.buffer] at hfits
    refine ⟨hread', huntouched.trans huntouched', hmax'.trans hmax, hheard.forward.trans hle, ?_,
      fun hv => ⟨?_, ?_⟩⟩
    · intro resp hresp
      rcases List.mem_cons.mp hresp with heq | hmem
      · exact ⟨r, Option.some.inj heq⟩
      · exact hok resp hmem
    · intro r' hr' hlast
      rcases List.mem_cons.mp hr' with heq | hmem
      · obtain rfl := Except.ok.inj (Option.some.inj heq)
        exact (hheard.last hv hlast).trans (Nat.mul_le_mul_right _ hle)
      · exact (hfits hv).1 r' hmem hlast
    · intro hin hnone hlen
      obtain ⟨hin', hcount⟩ := hheard.inStep hv hin
      by_cases hmore : k.lastBlock.toNat * s.maxFragment < v.length
      · rw [if_pos hmore] at hcount
        refine (hfits hv).2 hin' (fun hmem => hnone (List.mem_cons_of_mem _ hmem)) ?_
        change v.length ≤ ((k.hear r).lastBlock.toNat + log.length) * s.maxFragment
        rw [hcount, Nat.add_right_comm]
        exact hlen
      · have hforward : k.lastBlock.toNat ≤ k'.lastBlock.toNat := hheard.forward.trans hle
        exact (not_lt.mp hmore).trans (Nat.mul_le_mul_right _ hforward)

end LongRead

/-! ## From the first block on -/

/-- The value that an operation came to, and the service that sends it. -/
def Told.sends : Told → Option (Outbound × Bytes)
  | .get (.ok v) => some (.get, v)
  | .action (.ok (some v)) => some (.action, v)
  | .read outcome => some (.read, (readSlot outcome).drop 1)
  | .get (.error _) | .set _ | .action (.error _) | .action (.ok none) | .write _ => none

/-- A value that starts in a block goes on behind it. -/
theorem Server.Delivers.first {s t : Server σ π M} {i : InvokeId} {service : Outbound} {header n : Nat}
    {v : Bytes} {Whole : Response → Prop} {r : Response} (h : s.Delivers t i service header n v Whole r)
    (hblock : r.IsBlock service) (hwhole : Whole r → ¬ r.IsBlock service)
    (hn : n + header ≤ v.length + Server.blockHeaderMax) :
    0 < s.maxFragment ∧ s.maxFragment < v.length ∧
    service.HearsBlock false 1 (v.take s.maxFragment) r ∧ t.Sends i service v s.maxFragment 1 := by
  cases h with
  | whole _ hr => exact absurd hblock (hwhole hr)
  | refused _ _ hr => exact absurd hblock hr.not_block
  | aborted _ _ _ hr => exact absurd hblock hr.not_block
  | block hfits _ hmax hr hsends =>
    have hmore : s.maxFragment < v.length := by
      unfold Server.fitsOne at hfits
      have hover := of_decide_eq_false hfits
      unfold Server.maxFragment at hmax ⊢
      omega
    rw [decide_eq_false (by omega)] at hr
    exact ⟨hmax, hmore, hr, hsends hmore⟩

theorem Told.Heard.first {s t : Server σ π M} {i : InvokeId} {service : Outbound} {v : Bytes}
    {r : Response} {told : Told} (h : told.Heard s t i r) (hsends : told.sends = some (service, v))
    (hblock : r.IsBlock service) :
    0 < s.maxFragment ∧ s.maxFragment < v.length ∧
    service.HearsBlock false 1 (v.take s.maxFragment) r ∧
    ∃ i', (service ≠ .read → told.placed ∧ i' = i) ∧ t.Sends i' service v s.maxFragment 1 := by
  have hheader : Server.blockHeaderMax = 14 := rfl
  match told, hsends with
  | .get (.ok _), rfl =>
    obtain ⟨hmax, hmore, hr, hs⟩ := Server.Delivers.first h hblock
      (by rintro ⟨d, d', -, -, rfl⟩ ⟨_, _, _, hr⟩; cases hr)
      (by rw [hheader, Srv.normalHeaderMax]; omega)
    exact ⟨hmax, hmore, hr, i, fun _ => ⟨trivial, rfl⟩, hs⟩
  | .action (.ok (some _)), rfl =>
    obtain ⟨hmax, hmore, hr, hs⟩ := Server.Delivers.first h hblock
      (by rintro ⟨d, d', -, -, rfl⟩ ⟨_, _, _, hr⟩; cases hr)
      (by rw [hheader, Srv.actionHeaderMax]; omega)
    exact ⟨hmax, hmore, hr, i, fun _ => ⟨trivial, rfl⟩, hs⟩
  | .read outcome, rfl =>
    have hslot : 1 ≤ (readSlot outcome).length := by
      cases outcome <;> exact Nat.le_add_left _ _
    obtain ⟨hmax, hmore, hr, hs⟩ := Server.Delivers.first h hblock (by
      rintro ⟨l, x, rfl, hiter, htells⟩ ⟨_, _, _, l', hl, hiter'⟩
      obtain rfl := Response.readResults.inj hl
      obtain ⟨hx, -⟩ := List.cons.inj (hiter.symm.trans hiter')
      obtain rfl := Except.ok.inj hx
      cases outcome with
      | ok v =>
        obtain ⟨d, d', -, -, hd⟩ := htells
        cases hd
      | error e => cases htells)
      (by rw [List.length_drop, hheader, Srv.normalHeaderMax]; omega)
    exact ⟨hmax, hmore, hr, ⟨0⟩, fun hne => absurd rfl hne, hs⟩

theorem ObjectStore.perform_base {st : σ} {x : Single} {service : Outbound} {v : Bytes}
    (h : (S.perform M st x).outcome.sends = some (service, v)) : x.required = service.base := by
  cases x with
  | get d access =>
    have hget {o : Except DataAccessResult Bytes} (h : (Told.get o).sends = some (service, v)) :
        service = .get := by
      cases o <;> cases h
      rfl
    rw [hget h]
    rfl
  | action d parameters =>
    have haction {o : Except ActionResult (Option Bytes)}
        (h : (Told.action o).sends = some (service, v)) : service = .action := by
      rcases o with e | _ | v <;> cases h
      rfl
    rw [haction h]
    rfl
  | read entry =>
    cases h
    rfl
  | set d access value | write entry value => cases h

/-- The first block puts the client and the server into the read. -/
theorem LongRead.begins {service : Outbound} {v : Bytes} {c : ClientSession π N} {s t : Server σ π M}
    {i : InvokeId} {r : Response} {told : Told} (hlinked : Linked C c t)
    (hheard : told.Heard s t i r) (hsends : told.sends = some (service, v)) (hblock : r.IsBlock service)
    (hplaced : told.placed → c.outstanding = some i) (hstate : t.state = .associated)
    (hagreed : t.negotiated.contains service.base = true) (hconsistent : t.Agreed)
    (hmax : t.maxFragment = s.maxFragment) (hnumbered : v.length < (2 ^ 32 - 1) * s.maxFragment)
    (buf : Bytes) :
    let k := (BlockCollector.new buf).hear r
    ∃ i', LongRead C i' service v c k t ∧ k.buf.length = buf.length ∧
      (v.length ≤ buf.length → t.InStep i' service v k.lastBlock ∧ k.lastBlock = 1) := by
  intro k
  obtain ⟨hpos, hmore, hr, i', hid, hs⟩ := hheard.first hsends hblock
  have hhear : k = (BlockCollector.push 1 (v.take s.maxFragment) (BlockCollector.new buf)).2 :=
    BlockCollector.hear_block hr (fun _ => by decide)
  have hone : (1 : UInt32).toNat * t.maxFragment = s.maxFragment := by
    rw [hmax]
    exact Nat.one_mul _
  have hsends₁ : t.Sends i' service v ((1 : UInt32).toNat * t.maxFragment) 1 := by rwa [hone]
  have hstep : t.InStep i' service v 1 := .inr ⟨hsends₁, by rwa [hone]⟩
  have hstands : t.Stands i' service v 1 := hstep.stands fun _ => by decide
  have begins (hgathered : k.bytes = v.take (k.lastBlock.toNat * t.maxFragment))
      (hle : k.lastBlock.toNat ≤ (1 : UInt32).toNat) : LongRead C i' service v c k t := by
    refine ⟨hlinked, fun hne => ?_, hstate, hagreed, hconsistent, by rw [hmax]; exact hpos,
      by rw [hmax]; exact hnumbered, hgathered, hstands.back hle⟩
    obtain ⟨hp, rfl⟩ := hid hne
    exact hplaced hp
  obtain ⟨-, -, k₁, hrun, hbytes, hlast, hbuf⟩ | ⟨hfull, e, hrun⟩ :=
    BlockCollector.push_cases 1 (v.take s.maxFragment) (BlockCollector.new buf)
  · have hk : k = k₁ := by rw [hhear, hrun]
    rw [hk] at begins ⊢
    refine ⟨i', begins ?_ (by rw [hlast]), hbuf, fun _ => ⟨by rwa [hlast], hlast⟩⟩
    rw [hlast, hone, hbytes]
    rfl
  · have hk : k = BlockCollector.new buf := by rw [hhear, hrun]
    rw [hk] at begins ⊢
    have hzero : (BlockCollector.new buf).lastBlock.toNat = 0 := rfl
    refine ⟨i', begins ?_ (Nat.zero_le _), rfl, fun hroom => ?_⟩
    · rw [hzero, Nat.zero_mul]
      rfl
    · have hover : buf.length < 0 + (v.take s.maxFragment).length := hfull rfl
      have hshort := List.length_take_le' s.maxFragment v
      omega

/-- A client asks for a value that is sent in blocks, hears the first of them, and asks for one after
another, while any of the requests and replies get lost. The value is made once, the ends stay linked, and
every response is read. What is gathered is always the start of the value, as many blocks as were taken. If
there is room for the value, it is all of it behind a block that is marked as the last one, and behind as
many requests as the value has blocks if no reply was lost. -/
theorem reads_gather (hS : S.SeesRequests) (hvalues : S.WritesValues M) {x : Single} {service : Outbound}
    {v : Bytes} {c c₁ c₂ c' : ClientSession π N} {s s' : Server σ π M} (hl : Linked C c s)
    (hstate : s.state = .associated) (hs : s.Agreed) (hx : s.Offers x)
    (hsends : (S.perform M s.store x).outcome.sends = some (service, v))
    (hnumbered : v.length < (2 ^ 32 - 1) * s.maxFragment) {room room' : Nat} {rng : Entropy}
    {bytes reply : Bytes} {size : Nat} {r : Response} (hask : x.ask C room c = (.ok bytes, c₁))
    (htakes : s.Takes bytes) (hreply : (Srv.handle C S bytes room' rng s).1 = .ok reply)
    (hsize : reply.length ≤ size) (hresponse : Cli.handleResponse C reply size c₁ = (.ok r, c₂))
    (hblock : r.IsBlock service) (buf : Bytes) {k' : BlockCollector}
    {log : List (Option (Result Response))}
    (hrun : ReadsOn C S service size c₂ ((BlockCollector.new buf).hear r)
      (Srv.handle C S bytes room' rng s).2 log c' k' s') :
    let made := S.perform M s.store x
    Linked C c' s' ∧ s'.state = .associated ∧ s'.store = made.store ∧
      s'.calls = s.calls ++ made.calls.map StoreCall.unplaced ∧
      (∀ resp, some resp ∈ log → ∃ r, resp = .ok r) ∧
      k'.bytes = v.take (k'.lastBlock.toNat * s.maxFragment) ∧
      (v.length ≤ buf.length →
        ((∃ r, some (.ok r) ∈ log ∧ r.IsLast service) → k'.bytes = v) ∧
        (none ∉ log → v.length ≤ (1 + log.length) * s.maxFragment → k'.bytes = v)) := by
  intro made
  obtain ⟨-, hagreed, hst, hneg, hconfig, hpdu, hstore, hcalls, hears⟩ :=
    hl.call hS hvalues hstate hs hx hask htakes room' rng
  obtain ⟨r', w, trace, ⟨i, hplaced, hheard⟩, hresponse', hlinked⟩ := hears reply size hreply hsize
  obtain ⟨hok, hc₂⟩ := Prod.mk.inj (hresponse.symm.trans hresponse')
  obtain rfl := Except.ok.inj hok
  subst hc₂
  have hmax : (Srv.handle C S bytes room' rng s).2.maxFragment = s.maxFragment := by
    unfold Server.maxFragment Server.protectionOverhead
    rw [hconfig, hpdu]
  obtain ⟨i', hread, hbuf, hfirst⟩ := LongRead.begins hlinked hheard hsends hblock hplaced
    (hst.trans hstate) (by rw [hneg, ← ObjectStore.perform_base hsends]; exact hx.agreed) hagreed hmax
    hnumbered buf
  obtain ⟨hread', huntouched, hmax', -, hresults, hfits⟩ := hread.readsOn hrun
  have hmax'' : s'.maxFragment = s.maxFragment := hmax'.trans hmax
  rw [hbuf, hmax] at hfits
  refine ⟨hread'.linked, hread'.state, huntouched.store.trans hstore, huntouched.calls.trans hcalls,
    hresults, by rw [hread'.gathered, hmax''], fun hroom => ?_⟩
  obtain ⟨hlast, henough⟩ := hfits hroom
  obtain ⟨hstep, hone⟩ := hfirst hroom
  rw [hone] at henough hstep
  rw [← hmax''] at hlast henough ⊢
  refine ⟨?_, fun hnone hlen => hread'.gathered_all (henough hstep hnone hlen)⟩
  rintro ⟨r₁, hr₁, hlast₁⟩
  exact hread'.gathered_all (hlast r₁ hr₁ hlast₁)

/-! ## A value in two blocks -/

def longValue : Bytes := [0x09, 0x20] ++ List.replicate 32 0x07

/-- A store of one long value. -/
def longStore : ObjectStore Unit := .constant longValue ⟨0x01⟩

theorem longStore_seesRequests : longStore.SeesRequests where
  set _ _ _ _ _ _ _ _ := rfl
  method _ _ _ _ _ := rfl
  selector _ _ _ _ _ := rfl

theorem longStore_writesValues (N : Nat) : longStore.WritesValues N := by
  intro st entry v h
  cases entry <;> cases h

/-- A server whose client takes little. -/
def longServer : Server Unit SampleKeys 64 := { calledServer with clientMaxPduSize := 60 }

/-- The first request for the second block is lost. -/
theorem reads_gather_lost : ∃ (c₂ c' : ClientSession SampleKeys 64) (s₁ s' : Server Unit SampleKeys 64)
    (k' : BlockCollector), ReadsOn sampleProvider longStore .get 64 c₂
      ((BlockCollector.new (zeros 64)).hear (.block false 1 (longValue.take 23))) s₁
      [some (.ok (.block true 2 (longValue.drop 23)))] c' k' s' ∧
    k'.bytes = longValue ∧ s'.calls.length = 3 := by
  let clock := Single.get clockTime none
  let first : Bytes := [200, 30, 48, 0, 0, 0, 1, 64, 129, 193, 128, 136, 128, 128, 129, 128, 128, 127, 130,
    128, 205, 124, 159, 213, 22, 17, 64, 67, 102, 188, 31, 65]
  let reply : Bytes := [204, 50, 48, 0, 0, 0, 1, 68, 130, 193, 128, 128, 128, 128, 129, 128, 151, 137, 160] ++
    List.replicate 21 135 ++ [1, 37, 213, 117, 101, 134, 94, 234, 242, 171, 3, 37]
  let lost : Bytes := [200, 24, 48, 0, 0, 0, 2, 64, 130, 193, 128, 128, 128, 129, 102, 100, 44, 212, 31, 147,
    235, 206, 73, 57, 48, 52]
  let second : Bytes := [200, 24, 48, 0, 0, 0, 3, 64, 130, 193, 128, 128, 128, 129, 102, 100, 45, 221, 67, 232,
    106, 76, 157, 93, 57, 53]
  let reply' : Bytes := [204, 38, 48, 0, 0, 0, 2, 68, 130, 193, 129, 128, 128, 128, 130, 128, 139] ++
    List.replicate 11 135 ++ [87, 202, 101, 123, 115, 8, 17, 8, 122, 244, 108, 161]
  let c₁ := (clock.ask sampleProvider 64 callingSession).2
  let s₁ := (Srv.handle sampleProvider longStore first 64 .zeros longServer).2
  let c₂ := (Cli.handleResponse sampleProvider reply 64 c₁).2
  let c₃ := (Outbound.askNext sampleProvider 1 64 .get c₂).2
  let c₄ := (Outbound.askNext sampleProvider 1 64 .get c₃).2
  let s₂ := (Srv.handle sampleProvider longStore second 64 .zeros s₁).2
  let k₁ := (BlockCollector.new (zeros 64)).hear (.block false 1 (longValue.take 23))
  have run {α : Type} {m : Cli SampleKeys 64 α} {c : ClientSession SampleKeys 64} {x : α}
      (h : (m c).1 = .ok x) : m c = (.ok x, (m c).2) := by rw [← h]
  have hlost : Outbound.askNext sampleProvider k₁.lastBlock 64 .get c₂ = (.ok lost, c₃) :=
    run (by decide +kernel)
  have hsecond : Outbound.askNext sampleProvider k₁.lastBlock 64 .get c₃ = (.ok second, c₄) :=
    run (by decide +kernel)
  have hresp : (Cli.handleResponse sampleProvider reply' 64 c₄).1 =
      .ok (.block true 2 (longValue.drop 23)) := by decide +kernel
  have hrun : ReadsOn sampleProvider longStore .get 64 c₂ k₁ s₁
      [some (Cli.handleResponse sampleProvider reply' 64 c₄).1]
      (Cli.handleResponse sampleProvider reply' 64 c₄).2
      (k₁.listen (Cli.handleResponse sampleProvider reply' 64 c₄).1) s₂ :=
    .lost hlost (.heard 64 .zeros hsecond ⟨by decide +kernel, by decide⟩ (by decide +kernel) (by decide)
      (.done _ _ _))
  rw [hresp] at hrun
  have hask : clock.ask sampleProvider 64 callingSession = (.ok first, c₁) := run (by decide +kernel)
  have hreply : (Srv.handle sampleProvider longStore first 64 .zeros longServer).1 = .ok reply := by
    decide +kernel
  have hfirst : Cli.handleResponse sampleProvider reply 64 c₁ =
      (.ok (.block false 1 (longValue.take 23)), c₂) := run (by decide +kernel)
  have hlinked : Linked sampleProvider callingSession longServer :=
    calling_linked.of_server rfl rfl rfl rfl le_rfl
  have hsends : (longStore.perform 64 longServer.store clock).outcome.sends = some (.get, longValue) := by
    decide +kernel
  have hoffers : longServer.Offers clock := ⟨nofun, by decide +kernel, nofun⟩
  obtain ⟨-, -, -, hcalls, -, -, hgathered⟩ := reads_gather longStore_seesRequests
    (longStore_writesValues 64) hlinked (by decide +kernel) trivial hoffers hsends
    (by decide +kernel) hask ⟨by decide +kernel, by decide⟩ hreply (by decide) hfirst ⟨false, 1, _, rfl⟩
    (zeros 64) hrun
  obtain ⟨hlast, -⟩ := hgathered (by decide)
  exact ⟨c₂, _, s₁, s₂, _, hrun, hlast ⟨_, List.mem_singleton_self _, 2, _, rfl⟩,
    by rw [hcalls]; decide +kernel⟩

end Dlms
