import DlmsCosem.Server.Operation

/-!
# Values that arrive in blocks

A long SET or ACTION brings its value in numbered blocks, which gather in the response buffer behind
what the first block has to say about it (`Purpose.header`). `Gathering` is the state between two
blocks; a block that is next in line keeps it (`continued_gathers`), and the last one hands the whole
to `finish` (`continued_finishes`).
-/

namespace Dlms

variable {σ π : Type} {N : Nat}

/-! ## The buffer -/

namespace Buffer

/-- What was copied stands behind what stood before it. -/
theorem copyAt_take {b : Buffer N} {n : Nat} {src : Bytes} (h : n + src.length ≤ N) :
    ∃ b', b.copyAt n src = some b' ∧
      b'.bytes.take (n + src.length) = b.bytes.take n ++ src := by
  refine ⟨_, dif_pos h, ?_⟩
  exact SliceWriter.splice_take (by rw [b.length_eq]; exact h)

/-- The two parts of what a buffer starts with. -/
theorem get_parts {b : Buffer N} {header body : Bytes} (h : header.length + body.length ≤ N)
    (hb : b.bytes.take (header.length + body.length) = header ++ body) :
    b.get 0 header.length = header ∧
      b.get header.length (header.length + body.length) = body := by
  have hheader : b.bytes.take header.length = header := by
    have := congrArg (List.take header.length) hb
    rwa [List.take_take, Nat.min_eq_left (Nat.le_add_right ..), List.take_left] at this
  constructor
  · rw [get, if_pos ⟨Nat.zero_le _, by omega⟩, List.drop_zero, hheader]
  · rw [get, if_pos ⟨Nat.le_add_right .., h⟩, hb, List.drop_left]

end Buffer

/-- Encoding at the start of the response buffer. -/
theorem Srv.encodeResponse_run {e : Emit} (hf : e.fault = none) (hN : e.size ≤ N)
    (s : Server σ π N) : ∃ response, encodeResponse e s = (.ok e.size, { s with response }) ∧
      response.bytes.take e.size = e.data := by
  unfold encodeResponse
  obtain ⟨w, hw⟩ := SliceWriter.emit_fits (w := SliceWriter.new s.response.bytes) hf
    (by simpa [s.response.length_eq] using hN)
  obtain ⟨-, hdata, hpos, hbuf⟩ := SliceWriter.emit_ok hw
  rw [SliceWriter.new_asSlice, List.nil_append] at hdata
  rw [SliceWriter.new_pos, Nat.zero_add] at hpos
  have hlen : w.buf.length = N := by rw [hbuf, SliceWriter.new_buf, s.response.length_eq]
  refine ⟨s.response.ofWriter w, ?_, ?_⟩
  · rw [hw]
    simp only [hpos]
    rfl
  · rw [Buffer.ofWriter, dif_pos hlen, ← hdata, SliceWriter.asSlice, hpos]

/-! ## The accesses of a run -/

instance (call : StoreCall) : Decidable call.IsAccess := by
  cases call <;> unfold StoreCall.IsAccess <;> infer_instance

/-- The call without the places of its values. -/
def StoreCall.unplaced : StoreCall → StoreCall
  | .getAttribute d access => .getAttribute d (access.map SelectiveAccess.unplaced)
  | .setAttribute d access value =>
    .setAttribute d (access.map SelectiveAccess.unplaced) value.unplaced
  | .invokeMethod d parameters => .invokeMethod d (parameters.map Data.unplaced)
  | call => call

/-- The access that an event records. -/
def Event.access : Event → Option StoreCall
  | .store call => if call.IsAccess then some call.unplaced else none
  | _ => none

/-- The accesses among these calls. -/
def StoreCall.accesses (calls : List StoreCall) : List StoreCall :=
  (calls.filter (·.IsAccess)).map unplaced

@[simp] theorem StoreCall.accesses_append (calls calls' : List StoreCall) :
    accesses (calls ++ calls') = accesses calls ++ accesses calls' := by
  simp [accesses]

namespace Server

/-- The reads, writes and invocations so far. -/
def accesses (s : Server σ π N) : List StoreCall := s.trace.filterMap Event.access

theorem accesses_append {s t : Server σ π N} {ev : List Event} (h : t.trace = s.trace ++ ev)
    (hev : ∀ call, Event.store call ∉ ev) : t.accesses = s.accesses := by
  have hnone : ev.filterMap Event.access = [] := by
    rw [List.filterMap_eq_nil_iff]
    intro e he
    cases e with
    | store call => exact absurd he (hev call)
    | _ => rfl
  rw [accesses, h, List.filterMap_append, hnone, List.append_nil, accesses]

theorem accesses_asked (s : Server σ π N) (st : σ) (calls : List StoreCall) :
    (s.asked st calls).accesses = s.accesses ++ StoreCall.accesses calls := by
  rw [accesses, asked, List.filterMap_append, accesses]
  congr 1
  induction calls with
  | nil => rfl
  | cons call calls ih =>
    rw [List.map_cons, List.filterMap_cons, ih]
    unfold Event.access StoreCall.accesses
    by_cases h : call.IsAccess <;> simp [h]

/-- The server goes on as it was, for what a service of its association sees: the association, the
store and what was asked of it. -/
structure Unaffected (s t : Server σ π N) : Prop where
  state : t.state = s.state
  negotiated : t.negotiated = s.negotiated
  store : t.store = s.store
  accesses : t.accesses = s.accesses

namespace Unaffected

variable {s t u : Server σ π N}

theorem refl (s : Server σ π N) : s.Unaffected s := ⟨rfl, rfl, rfl, rfl⟩

theorem trans (h : s.Unaffected t) (h' : t.Unaffected u) : s.Unaffected u :=
  ⟨h'.state.trans h.state, h'.negotiated.trans h.negotiated, h'.store.trans h.store,
    h'.accesses.trans h.accesses⟩

/-- The transfer and the buffer are the server's own. -/
theorem marked (h : s.Unaffected t) {transfer : Transfer} {response : Buffer N} :
    s.Unaffected { t with transfer, response } := ⟨h.state, h.negotiated, h.store, h.accesses⟩

theorem of_emitted (h : s.Emitted t) : s.Unaffected t := by
  obtain ⟨scratch, counter, ev, rfl, hev⟩ := h
  refine ⟨rfl, rfl, rfl, accesses_append rfl fun call hcall => ?_⟩
  exact hev _ hcall

theorem of_brings {C : CryptoProvider π} {apdu : Bytes} {req : Apdu} (h : s.Brings C apdu req t) :
    s.Unaffected t := by
  obtain ⟨w, ev, rfl, hev⟩ := h.after
  exact ⟨rfl, rfl, rfl, accesses_append rfl hev⟩

end Unaffected

end Server

/-! ## Delivery -/

/-- `R` sees nothing of a delivery: not the transfer and the buffers, nor the frames that are sealed. -/
structure Server.Delivering (R : Server σ π N → Server σ π N → Prop) : Prop where
  refl : ∀ s, R s s
  trans : ∀ s t u, R s t → R t u → R s u
  marked : ∀ {s t : Server σ π N} {transfer : Transfer} {response : Buffer N}, R s t →
    R s { t with transfer, response }
  emitted : ∀ {s t}, s.Emitted t → R s t

theorem Server.Unaffected.delivering :
    Server.Delivering (Server.Unaffected : Server σ π N → Server σ π N → Prop) where
  refl := .refl
  trans _ _ _ h h' := h.trans h'
  marked h := h.marked
  emitted := .of_emitted

namespace Server.Delivering

variable {α β : Type} {R : Server σ π N → Server σ π N → Prop} (hR : Server.Delivering R)
  (C : CryptoProvider π)
include hR

theorem pure (a : α) : Prog.Keeps R (Pure.pure a : Srv σ π N α) := Prog.Keeps.pure hR.refl a

theorem throw (e : Error) : Prog.Keeps R (Prog.throw e : Srv σ π N α) := Prog.Keeps.throw hR.refl e

theorem gets (f : Server σ π N → α) : Prog.Keeps R (Prog.gets f : Srv σ π N α) :=
  Prog.Keeps.gets hR.refl f

theorem ofExcept (r : Except Error α) : Prog.Keeps R (Prog.ofExcept r : Srv σ π N α) :=
  Prog.Keeps.ofExcept hR.refl r

theorem bind {m : Srv σ π N α} {f : α → Srv σ π N β} (hm : Prog.Keeps R m)
    (hf : ∀ a, Prog.Keeps R (f a)) : Prog.Keeps R (m >>= f) :=
  Prog.Keeps.bind hR.trans hm hf

theorem setTransfer (t : Transfer) : Prog.Keeps R (Srv.setTransfer t : Srv σ π N Unit) :=
  ⟨fun s => hR.marked (hR.refl s)⟩

theorem emit (e : Emit) (w : SliceWriter) :
    Prog.Keeps R (Srv.emit e w : Srv σ π N SliceWriter) := by
  refine ⟨fun s => ?_⟩
  obtain ⟨err, w', -, h⟩ | ⟨w', -, h⟩ := Srv.emit_run e w s
  all_goals rw [h]; exact hR.refl s

theorem putResponse (n : Nat) (bytes : Bytes) (needed : Nat) :
    Prog.Keeps R (Srv.putResponse n bytes needed : Srv σ π N Unit) := by
  refine ⟨fun s => ?_⟩
  unfold Srv.putResponse
  split
  · exact hR.marked (hR.refl s)
  · exact hR.refl s

theorem send (apdu : Apdu) (room : Nat) : Prog.Keeps R (Srv.send C apdu room : Srv σ π N Bytes) :=
  ⟨fun s => hR.emitted (Srv.send_emitted C apdu room s)⟩

theorem exception (a : StateError) (b : ServiceError) (room : Nat) :
    Prog.Keeps R (Srv.exception C a b room : Srv σ π N Bytes) := by
  refine hR.bind (hR.gets _) fun config => hR.bind (hR.gets _) fun negotiated => ?_
  split
  · exact hR.ofExcept _
  · exact hR.send ..

theorem readError (e : DataAccessResult) (room : Nat) :
    Prog.Keeps R (Srv.readError C e room : Srv σ π N Bytes) :=
  hR.bind (hR.emit ..) fun _ => hR.send ..

theorem transferError (i : InvokeId) (service : Outbound) (e : DataAccessResult) (f : ActionResult)
    (room : Nat) : Prog.Keeps R (Srv.transferError C i service e f room : Srv σ π N Bytes) := by
  cases service
  · exact hR.send ..
  · exact hR.send ..
  · exact hR.readError ..

theorem blockApdu (i : InvokeId) (service : Outbound) (last : Bool) (number : UInt32)
    (payload : Bytes) :
    Prog.Keeps R (Srv.blockApdu i service last number payload : Srv σ π N Apdu) := by
  cases service with
  | get => exact hR.pure _
  | action => exact hR.pure _
  | read =>
    dsimp only [Srv.blockApdu]
    split
    · exact hR.throw _
    · exact hR.bind (hR.emit ..) fun _ => hR.pure _

/-- A block of what is being sent. -/
theorem sendNextBlock (room : Nat) : Prog.Keeps R (Srv.sendNextBlock C room : Srv σ π N Bytes) := by
  refine hR.bind (hR.gets _) fun transfer => ?_
  split
  · refine hR.bind (hR.gets _) fun max => ?_
    split
    · exact hR.bind (hR.setTransfer _) fun _ => hR.transferError ..
    · dsimp only
      split
      · exact hR.throw _
      · refine hR.bind (hR.gets _) fun payload => hR.bind (hR.blockApdu ..) fun apdu => ?_
        exact hR.bind (hR.send ..) fun bytes => hR.bind (hR.setTransfer _) fun _ => hR.pure _
  · exact hR.exception ..

theorem deliverBlocked (i : InvokeId) (service : Outbound) (len room : Nat) :
    Prog.Keeps R (Srv.deliverBlocked C i service len room : Srv σ π N Bytes) := by
  refine hR.bind (hR.gets _) fun negotiated => ?_
  split
  · exact hR.bind (hR.setTransfer _) fun _ => hR.transferError ..
  · exact hR.bind (hR.setTransfer _) fun _ => hR.sendNextBlock ..

/-- The return value of a method. -/
theorem answerMethod (i : InvokeId) (outcome : Except ActionResult Bool) (value : Bytes)
    (room : Nat) : Prog.Keeps R (Srv.answerMethod C i outcome value room : Srv σ π N Bytes) := by
  unfold Srv.answerMethod
  split
  · exact hR.send ..
  · exact hR.send ..
  · split
    · exact hR.send ..
    · refine hR.bind (hR.gets _) fun fits => ?_
      split
      · exact hR.bind (hR.ofExcept _) fun _ => hR.send ..
      · exact hR.bind (hR.putResponse ..) fun _ => hR.deliverBlocked ..

end Server.Delivering

/-- The program has no effect that a service of the association sees. -/
abbrev Srv.Delivers {α : Type} (m : Srv σ π N α) : Prop := Prog.Keeps Server.Unaffected m

/-! ## What the blocks are for -/

/-- What a value in blocks is for, as its first block says. -/
inductive Purpose
  | set (descriptor : AttributeDescriptor) (access : Option SelectiveAccess)
  | setList (descriptors : WireList)
  | action (descriptor : MethodDescriptor)

namespace Purpose

/-- The request with the first block. -/
def first (p : Purpose) (i : InvokeId) (b : DataBlockSA) : Apdu :=
  match p with
  | set d access => .setRequest (.withFirstDataBlock i d access b)
  | setList descriptors => .setRequest (.withListAndFirstDataBlock i descriptors b)
  | action d => .actionRequest (.withFirstPblock i d b)

/-- The request with a later block. -/
def next (p : Purpose) (i : InvokeId) (b : DataBlockSA) : Apdu :=
  match p with
  | set _ _ | setList _ => .setRequest (.withDataBlock i b)
  | action _ => .actionRequest (.withPblock i b)

/-- What waits in front of the value. -/
def headerEmit : Purpose → Emit
  | set _ (some access) => access.encode
  | setList descriptors => descriptors.encode
  | set _ none | action _ => Emit.empty

def header (p : Purpose) : Bytes := p.headerEmit.data

/-- The transfer after `len` bytes in `n` blocks. -/
def transfer (p : Purpose) (i : InvokeId) (len : Nat) (n : UInt32) : Transfer :=
  match p with
  | set d _ => .receivingSet i d false p.header.length len n
  | setList _ => .receivingSet i ⟨0, ⟨0, 0, 0, 0, 0, 0⟩, 0⟩ true p.header.length len n
  | action d => .receivingAction i d len n

/-- The acknowledgement of a block. -/
def acknowledge (p : Purpose) (i : InvokeId) (n : UInt32) : Apdu :=
  match p with
  | set _ _ | setList _ => .setResponse (.dataBlock i n)
  | action _ => .actionResponse (.nextPblock i n)

section Programs

variable (C : CryptoProvider π) (S : ObjectStore σ)

/-- What a block is handed to. -/
def continued (p : Purpose) (i : InvokeId) (b : DataBlockSA) (room : Nat) : Srv σ π N Bytes :=
  match p with
  | set _ _ | setList _ => Srv.continueBlockedSet C S i b room
  | action _ => Srv.continueBlockedAction C S i b room

/-- What the value is handed to: the action decodes it itself. -/
def finish (p : Purpose) (i : InvokeId) (len : Nat) (n : UInt32) (room : Nat) : Srv σ π N Bytes :=
  match p with
  | set d _ => Srv.finishBlockedSet C S i d p.header.length len n room
  | setList _ => Srv.finishBlockedListSet C S i p.header.length len n room
  | action d => do
    let bytes ← Prog.gets fun s => s.response.get 0 len
    let parameters ← Prog.ofExcept (Read.fromBytes Data.decode bytes)
    Srv.invokeAndAnswer C S i d (some parameters) room

end Programs

end Purpose

/-- Between two blocks: `body` has come in `n` of them. -/
structure Server.Gathering (s : Server σ π N) (p : Purpose) (i : InvokeId) (body : Bytes) (n : Nat) :
    Prop where
  transfer : s.transfer = p.transfer i body.length (UInt32.ofNat n)
  fits : p.header.length + body.length ≤ N
  gathered : s.response.bytes.take (p.header.length + body.length) = p.header ++ body

theorem nextNumber_ofNat {n : Nat} (h : n + 1 < 2 ^ 32) :
    Srv.nextNumber (UInt32.ofNat n) = UInt32.ofNat (n + 1) := by
  have hne : UInt32.ofNat n ≠ 0xFFFFFFFF := by
    intro he
    have := congrArg UInt32.toNat he
    rw [UInt32.toNat_ofNat', Nat.mod_eq_of_lt (by omega)] at this
    change n = 4294967295 at this
    omega
  rw [Srv.nextNumber, if_neg hne]
  apply UInt32.toNat_inj.mp
  rw [UInt32.toNat_add, UInt32.toNat_ofNat', UInt32.toNat_ofNat', Nat.mod_eq_of_lt (a := n) (by omega)]
  rfl

namespace Server.Gathering

variable {C : CryptoProvider π} {S : ObjectStore σ} {s : Server σ π N} {p : Purpose} {i : InvokeId}
  {body raw : Bytes} {n : Nat}

/-- A block that is next in line is put behind those before it. -/
theorem continued (h : s.Gathering p i body n) (hn : n + 1 < 2 ^ 32)
    (hfit : p.header.length + (body ++ raw).length ≤ N) (last : Bool) (room : Nat) :
    ∃ response : Buffer N,
      response.bytes.take (p.header.length + (body ++ raw).length) = p.header ++ (body ++ raw) ∧
      p.continued C S i ⟨last, UInt32.ofNat (n + 1), raw⟩ room s =
        if last then p.finish C S i (body ++ raw).length (UInt32.ofNat (n + 1)) room
          { s with response, transfer := .idle }
        else Srv.send C (p.acknowledge i (UInt32.ofNat (n + 1))) room
          { s with response
                   transfer := p.transfer i (body ++ raw).length (UInt32.ofNat (n + 1)) } := by
  have hlen : (body ++ raw).length = body.length + raw.length := List.length_append
  have hroom : p.header.length + body.length + raw.length ≤ N := by omega
  obtain ⟨response, hcopy, htake⟩ := Buffer.copyAt_take (b := s.response) hroom
  have hnext := nextNumber_ofNat hn
  refine ⟨response, ?_, ?_⟩
  · rw [hlen, ← Nat.add_assoc, htake, h.gathered, List.append_assoc]
  · have hok : ¬ (i ≠ i ∨ UInt32.ofNat (n + 1) ≠ Srv.nextNumber (UInt32.ofNat n)) := by
      rw [hnext]
      simp
    have ht := h.transfer
    cases p with
    | set d access =>
      simp only [Purpose.continued, Srv.continueBlockedSet, Prog.gets_bind_run, ht, Purpose.transfer]
      rw [if_neg hok, Prog.gets_bind_run, hcopy]
      cases last <;> rw [hlen] <;> rfl
    | setList descriptors =>
      simp only [Purpose.continued, Srv.continueBlockedSet, Prog.gets_bind_run, ht, Purpose.transfer]
      rw [if_neg hok, Prog.gets_bind_run, hcopy]
      cases last <;> rw [hlen] <;> rfl
    | action d =>
      have hcopy' : s.response.copyAt body.length raw = some response := by
        rw [← hcopy]
        simp [Purpose.header, Purpose.headerEmit]
      simp only [Purpose.continued, Srv.continueBlockedAction, Prog.gets_bind_run, ht,
        Purpose.transfer]
      rw [if_neg hok, Prog.gets_bind_run, hcopy']
      cases last <;> rw [hlen] <;> rfl

end Server.Gathering

namespace Purpose

/-- The service that the requests belong to. -/
def service : Purpose → Conformance
  | set _ _ | setList _ => .set
  | action _ => .action

/-- The server takes the first block. -/
def Admitted (p : Purpose) (S : ObjectStore σ) (s : Server σ π N) : Prop :=
  s.state = .associated ∧ s.negotiated.contains p.service = true ∧
    match p with
    | set d _ => s.negotiated.contains .blockTransferWithSetOrWrite = true ∧
      (S.attributeAccess s.store d).1.canWrite = true
    | setList descriptors => s.negotiated.contains .multipleReferences = true ∧
      s.negotiated.contains .blockTransferWithSetOrWrite = true ∧ descriptors.count ≤ maxAccessItems
    | action _ => s.negotiated.contains .blockTransferWithAction = true

theorem Admitted.unaffected {p : Purpose} {S : ObjectStore σ} {s t : Server σ π N}
    (h : p.Admitted S s) (ht : s.Unaffected t) : p.Admitted S t := by
  unfold Admitted
  rw [ht.state, ht.negotiated, ht.store]
  exact h

/-- The first block, then the others. -/
def block (p : Purpose) (i : InvokeId) (last : Bool) (n : Nat) (raw : Bytes) : Apdu :=
  (if n = 0 then p.first i else p.next i) ⟨last, UInt32.ofNat (n + 1), raw⟩

/-- The requests that bring these blocks, after `n` others. More are to come. -/
def blocks (p : Purpose) (i : InvokeId) : Nat → List Bytes → List Apdu
  | _, [] => []
  | n, raw :: rest => p.block i false n raw :: p.blocks i (n + 1) rest

section Serve

variable {C : CryptoProvider π} {S : ObjectStore σ} {s : Server σ π N} {p : Purpose}

/-- The server where a transfer begins. -/
theorem begun {R : Server σ π N → Server σ π N → Prop} {u : Server σ π N} {i : InvokeId} (hu : R s u)
    (ht : u.transfer = p.transfer i 0 0) (hfit : p.header.length ≤ N)
    (hg : u.response.bytes.take p.header.length = p.header) : u.Gathering p i [] 0 ∧ R s u :=
  ⟨⟨ht, hfit, by rw [List.append_nil]; exact hg⟩, hu⟩

/-- A transfer of a list begins. The store is not asked. -/
theorem begins_list {R : Server σ π N → Server σ π N → Prop} (hR : Server.Delivering R)
    {descriptors : WireList} (ha : (setList descriptors).Admitted S s)
    (hf : (setList descriptors).headerEmit.fault = none)
    (hfit : (setList descriptors).header.length ≤ N) (i : InvokeId) (b : DataBlockSA) (room : Nat) :
    ∃ u, Srv.serveRequest C S ((setList descriptors).first i b) room s =
        (setList descriptors).continued C S i b room u ∧
      u.Gathering (setList descriptors) i [] 0 ∧ R s u := by
  obtain ⟨hstate, hservice, hrefs, hblocks, hmax⟩ := ha
  have hrun : Srv.serveRequest C S (first (.setList descriptors) i b) room s =
      Srv.beginBlockedListSet C S i descriptors b room s :=
    Srv.serving_run C room ⟨hstate, hservice⟩
  obtain ⟨response, hresponse, htake⟩ := Srv.encodeResponse_run (e := descriptors.encode) hf hfit
    ({ s with transfer := .idle } : Server σ π N)
  rw [hrun, Srv.beginBlockedListSet, Srv.setTransfer, Prog.modify_bind_run, Prog.gets_bind_run,
    if_neg (by simp [hrefs, hblocks]), if_neg (by omega), Prog.bind_run_ok hresponse]
  refine ⟨_, rfl, begun ?_ rfl hfit htake⟩
  exact hR.marked (s := s) (t := s) (hR.refl s)

/-- A transfer begins: what it is about is in the buffer, and nothing has come. -/
theorem begins (hS : S.AsksLeave) (ha : p.Admitted S s) (hf : p.headerEmit.fault = none)
    (hfit : p.header.length ≤ N) (i : InvokeId) (b : DataBlockSA) (room : Nat) :
    ∃ u, Srv.serveRequest C S (p.first i b) room s = p.continued C S i b room u ∧
      u.Gathering p i [] 0 ∧ s.Unaffected u := by
  obtain ⟨hstate, hservice, ha⟩ := ha
  cases p with
  | set d access =>
    have hrun : Srv.serveRequest C S (first (.set d access) i b) room s =
        Srv.beginBlockedSet C S i d access b room s := Srv.serving_run C room ⟨hstate, hservice⟩
    have hasked : s.Unaffected (({ s with transfer := .idle } : Server σ π N).asked
        (S.attributeAccess s.store d).2
        [.attributeAccess .gather d (S.attributeAccess s.store d).1]) :=
      ⟨rfl, rfl, hS.rights _ _, (Server.accesses_asked ..).trans (List.append_nil _)⟩
    rw [hrun]
    unfold Srv.beginBlockedSet
    rw [Srv.setTransfer, Prog.modify_bind_run, Prog.gets_bind_run, if_neg (by simpa using ha.1),
      Prog.bind_run_ok (Srv.attributeAccess_run ..), if_neg (by simpa using ha.2)]
    cases access with
    | none => exact ⟨_, rfl, begun hasked.marked rfl (Nat.zero_le _) rfl⟩
    | some access =>
      obtain ⟨response, hrun, htake⟩ := Srv.encodeResponse_run (e := access.encode) hf hfit
        (({ s with transfer := .idle } : Server σ π N).asked (S.attributeAccess s.store d).2
          [.attributeAccess .gather d (S.attributeAccess s.store d).1])
      dsimp only
      rw [Prog.bind_run_ok hrun]
      exact ⟨_, rfl, begun hasked.marked rfl hfit htake⟩
  | setList descriptors =>
    exact begins_list Server.Unaffected.delivering ⟨hstate, hservice, ha⟩ hf hfit i b room
  | action d =>
    have hrun : Srv.serveRequest C S (first (.action d) i b) room s =
        Srv.serveAction C S (.withFirstPblock i d b) room s := Srv.handleAction_run C S room hstate
    have hserve : s.state = .associated ∧ s.negotiated.contains .action = true := ⟨hstate, hservice⟩
    rw [hrun, Srv.serveAction, Srv.serving_run C room hserve, Srv.setTransfer, Prog.modify_bind_run,
      Prog.gets_bind_run, if_neg (by simpa using ha)]
    exact ⟨_, rfl, begun (Server.Unaffected.refl s).marked rfl (Nat.zero_le _) rfl⟩

/-- A later block goes to the transfer. -/
theorem later (ha : p.Admitted S s) (i : InvokeId) (b : DataBlockSA) (room : Nat) :
    Srv.serveRequest C S (p.next i b) room s = p.continued C S i b room s := by
  obtain ⟨hstate, hservice, -⟩ := ha
  cases p with
  | set d access => exact Srv.serving_run C room ⟨hstate, hservice⟩
  | setList descriptors => exact Srv.serving_run C room ⟨hstate, hservice⟩
  | action d =>
    have hrun : Srv.serveRequest C S (next (.action d) i b) room s =
        Srv.serveAction C S (.withPblock i b) room s := Srv.handleAction_run C S room hstate
    exact hrun.trans (Srv.serving_run C room ⟨hstate, hservice⟩)

end Serve

end Purpose

/-- `R` sees nothing of what comes before the last block of a transfer but what it sees of the way
that a block takes to the server. -/
structure Purpose.Hidden (p : Purpose) (C : CryptoProvider π) (S : ObjectStore σ)
    (R : Server σ π N → Server σ π N → Prop) : Prop extends Server.Delivering R where
  brings : ∀ {s t apdu req}, s.Brings C apdu req t → R s t
  admitted : ∀ {s t}, p.Admitted S s → R s t → p.Admitted S t
  begins : ∀ {s} i b room, p.Admitted S s → ∃ u, Srv.serveRequest C S (p.first i b) room s =
    p.continued C S i b room u ∧ u.Gathering p i [] 0 ∧ R s u

theorem Purpose.hidden_unaffected {C : CryptoProvider π} {S : ObjectStore σ} {p : Purpose}
    (hS : S.AsksLeave) (hf : p.headerEmit.fault = none) (hfit : p.header.length ≤ N) :
    p.Hidden C S (Server.Unaffected : Server σ π N → Server σ π N → Prop) where
  toDelivering := Server.Unaffected.delivering
  brings := .of_brings
  admitted h hu := h.unaffected hu
  begins i b room ha := p.begins hS ha hf hfit i b room

/-! ## A run of blocks -/

/-- The server is handed these requests in turn. -/
inductive Server.Receives (C : CryptoProvider π) (S : ObjectStore σ) :
    Server σ π N → List Apdu → Server σ π N → Prop
  | nil (s : Server σ π N) : Receives C S s [] s
  | cons {s s₁ t : Server σ π N} {apdu : Bytes} {req : Apdu} {reqs : List Apdu} (room : Nat)
    (rng : Entropy) : s.Brings C apdu req s₁ →
    Receives C S (Srv.handle C S apdu room rng s).2 reqs t → Receives C S s (req :: reqs) t

/-- `n` blocks have come, and the server waits for the next one. -/
def Server.Awaits (s : Server σ π N) (p : Purpose) (i : InvokeId) (body : Bytes) (n : Nat) : Prop :=
  if n = 0 then body = [] else s.Gathering p i body n

section Run

variable {C : CryptoProvider π} {S : ObjectStore σ} {s t : Server σ π N} {p : Purpose} {i : InvokeId}
  {body : Bytes} {n : Nat}

theorem Server.Gathering.brought {apdu : Bytes} {req : Apdu} (h : s.Gathering p i body n)
    (hb : s.Brings C apdu req t) : t.Gathering p i body n := by
  obtain ⟨w, ev, rfl, -⟩ := hb.after
  exact ⟨h.transfer, h.fits, h.gathered⟩

theorem Server.Gathering.emitted (h : s.Gathering p i body n) (ht : s.Emitted t) :
    t.Gathering p i body n := by
  obtain ⟨scratch, counter, ev, rfl, -⟩ := ht
  exact ⟨h.transfer, h.fits, h.gathered⟩

variable {R : Server σ π N → Server σ π N → Prop}

/-- Any block, the first one or a later one, goes to a transfer with what came before it. -/
theorem Purpose.block_served (hR : p.Hidden C S R) (ha : p.Admitted S s) (h : s.Awaits p i body n)
    (last : Bool) (raw : Bytes) (room : Nat) :
    ∃ u, Srv.serveRequest C S (p.block i last n raw) room s =
        p.continued C S i ⟨last, UInt32.ofNat (n + 1), raw⟩ room u ∧
      u.Gathering p i body n ∧ R s u := by
  unfold Server.Awaits at h
  unfold Purpose.block
  by_cases hn : n = 0
  · rw [if_pos hn] at h ⊢
    subst hn h
    exact hR.begins i _ room ha
  · rw [if_neg hn] at h ⊢
    exact ⟨s, Purpose.later ha i _ room, h, hR.refl s⟩

/-- A block in its turn is put behind those before it, and changes nothing else. -/
theorem Purpose.block_taken (hR : p.Hidden C S R) (ha : p.Admitted S s) (h : s.Awaits p i body n)
    (hn : n + 1 < 2 ^ 32) {raw : Bytes} (hfit : p.header.length + (body ++ raw).length ≤ N)
    (last : Bool) {apdu : Bytes} {s₁ : Server σ π N} (hb : s.Brings C apdu (p.block i last n raw) s₁)
    (room : Nat) (rng : Entropy) :
    ∃ u : Server σ π N, R s u ∧
      u.response.bytes.take (p.header.length + (body ++ raw).length) = p.header ++ (body ++ raw) ∧
      Srv.handle C S apdu room rng s =
        if last then p.finish C S i (body ++ raw).length (UInt32.ofNat (n + 1)) room
          { u with transfer := .idle }
        else Srv.send C (p.acknowledge i (UInt32.ofNat (n + 1))) room
          { u with transfer := p.transfer i (body ++ raw).length (UInt32.ofNat (n + 1)) } := by
  have h₁ : s₁.Awaits p i body n := by
    unfold Server.Awaits at h ⊢
    split_ifs at h ⊢
    · exact h
    · exact h.brought hb
  have hs₁ := hR.brings hb
  obtain ⟨u, hrun, hu, hsu⟩ := Purpose.block_served hR (hR.admitted ha hs₁) h₁ last raw room
  obtain ⟨response, htake, hcont⟩ := hu.continued (C := C) (S := S) hn hfit last room
  refine ⟨{ u with response }, hR.marked (hR.trans _ _ _ hs₁ hsu), htake, ?_⟩
  rw [hb.handle, hrun, hcont]

theorem Purpose.block_gathers (hR : p.Hidden C S R) (ha : p.Admitted S s) (h : s.Awaits p i body n)
    (hn : n + 1 < 2 ^ 32) {raw : Bytes} (hfit : p.header.length + (body ++ raw).length ≤ N)
    {apdu : Bytes} {s₁ : Server σ π N} (hb : s.Brings C apdu (p.block i false n raw) s₁) (room : Nat)
    (rng : Entropy) :
    (Srv.handle C S apdu room rng s).2.Awaits p i (body ++ raw) (n + 1) ∧
      R s (Srv.handle C S apdu room rng s).2 := by
  obtain ⟨u, hsu, htake, hrun⟩ := Purpose.block_taken hR ha h hn hfit false hb room rng
  rw [hrun, if_neg Bool.false_ne_true]
  have hem := Srv.send_emitted C (p.acknowledge i (UInt32.ofNat (n + 1))) room { u with
    transfer := p.transfer i (body ++ raw).length (UInt32.ofNat (n + 1)) }
  refine ⟨?_, hR.trans _ _ _ (hR.marked hsu) (hR.emitted hem)⟩
  rw [Server.Awaits, if_neg (Nat.succ_ne_zero n)]
  refine Server.Gathering.emitted ?_ hem
  exact ⟨rfl, hfit, htake⟩

/-- The blocks of a run gather. -/
theorem Purpose.blocks_gather (hR : p.Hidden C S R) {raws : List Bytes}
    (hfit : p.header.length + (body ++ raws.flatten).length ≤ N) (hn : n + raws.length < 2 ^ 32)
    (ha : p.Admitted S s) (h : s.Awaits p i body n) (hr : s.Receives C S (p.blocks i n raws) t) :
    t.Awaits p i (body ++ raws.flatten) (n + raws.length) ∧ R s t := by
  induction raws generalizing s body n with
  | nil =>
    cases hr
    rw [List.flatten_nil, List.append_nil]
    exact ⟨h, hR.refl _⟩
  | cons raw raws ih =>
    rw [List.flatten_cons, ← List.append_assoc] at hfit ⊢
    rw [List.length_cons] at hn ⊢
    rw [show n + (raws.length + 1) = n + 1 + raws.length by omega] at hn ⊢
    cases hr with
    | cons room rng hb hr =>
      have hfit₁ : p.header.length + (body ++ raw).length ≤ N := by
        rw [List.length_append] at hfit
        omega
      obtain ⟨h₁, hs₁⟩ := Purpose.block_gathers hR ha h (by omega) hfit₁ hb room rng
      obtain ⟨h₂, hs₂⟩ := ih hfit hn (hR.admitted ha hs₁) h₁ hr
      exact ⟨h₂, hR.trans _ _ _ hs₁ hs₂⟩

/-- The last block hands all that came to `finish`, and nothing was done before it. -/
theorem Purpose.blocks_finish (hR : p.Hidden C S R) {raws : List Bytes} {raw : Bytes}
    (hfit : p.header.length + (raws.flatten ++ raw).length ≤ N) (hn : raws.length + 1 < 2 ^ 32)
    (ha : p.Admitted S s) (hr : s.Receives C S (p.blocks i 0 raws) t) {apdu : Bytes}
    {t₁ : Server σ π N} (hb : t.Brings C apdu (p.block i true raws.length raw) t₁) (room : Nat)
    (rng : Entropy) :
    R s t ∧ ∃ u : Server σ π N, R s u ∧ u.transfer = .idle ∧
      u.response.bytes.take (p.header.length + (raws.flatten ++ raw).length) =
        p.header ++ (raws.flatten ++ raw) ∧
      Srv.handle C S apdu room rng t = p.finish C S i (raws.flatten ++ raw).length
        (UInt32.ofNat (raws.length + 1)) room u := by
  have h0 : s.Awaits p i [] 0 := rfl
  obtain ⟨h, hst⟩ := Purpose.blocks_gather hR
    (by rw [List.length_append] at hfit; rw [List.nil_append]; omega) (by omega) ha h0 hr
  rw [List.nil_append, Nat.zero_add] at h
  obtain ⟨u, hu, htake, hrun⟩ := Purpose.block_taken hR (hR.admitted ha hst) h hn hfit true hb room
    rng
  exact ⟨hst, { u with transfer := .idle }, hR.marked (hR.trans _ _ _ hst hu), rfl, htake, by
    rw [hrun, if_pos rfl]⟩

end Run

end Dlms
