import DlmsCosem.Client.Sendable
import DlmsCosem.Ends.Link
import DlmsCosem.Ends.Messages
import DlmsCosem.Server.Fragments
import DlmsCosem.Server.Transfers

/-!
# One exchange

A client asks for a `Single` operation, the server has its store perform it, and the client takes the
answer. Over ends that are `Linked` the response is what the operation came to, in the form that the
size of the server's APDUs allows (`Told.Heard`), and the ends stay linked.
-/

namespace Dlms

open Ber

variable {σ π : Type} {N M : Nat} {C : CryptoProvider π}

/-! ## What starts a message -/

instance (tag : ApduTag) : Decidable tag.bare := by
  unfold ApduTag.bare
  infer_instance

/-- The tag of a service, which neither opens nor closes an association. -/
def ApduTag.Serves (tag : ApduTag) : Prop := tag.bare ∧ tag ≠ .aarq ∧ tag ≠ .releaseRequest

theorem Outgoing.start_head {ctx : Outgoing} {tag : ApduTag} {start : Emit} (h : ctx.start tag = .ok start) :
    ∃ t : ApduTag, start.data.head? = some t.asU8 ∧ t ≠ .aarq ∧ t ≠ .releaseRequest := by
  have hcovered : ∀ p : Protection, p ≠ .none → ∀ t, tag.protectedAs p = some t →
      t ≠ .aarq ∧ t ≠ .releaseRequest := by
    intro p hp t ht
    cases p with
    | none => exact absurd rfl hp
    | global => cases tag <;> first | cases ht; decide | cases ht
    | dedicated => cases tag <;> first | cases ht; decide | cases ht
  have hp : ctx.protection ≠ .none := by
    unfold Outgoing.protection
    split <;> nofun
  unfold Outgoing.start at h
  cases ht : tag.protectedAs ctx.protection with
  | some t =>
    rw [ht] at h
    obtain rfl := Except.ok.inj h
    exact ⟨t, rfl, hcovered _ hp t ht⟩
  | none =>
    rw [ht] at h
    dsimp only at h
    split at h
    · cases h
    · obtain rfl := Except.ok.inj h
      refine ⟨_, Emit.head_u8 .., ?_⟩
      split <;> decide

namespace Protector.Sent

variable {p : Protector π} {own : Option SystemTitle} {last value : UInt32} {plain bytes : Bytes}

theorem payload_le (h : p.Sent C own last plain bytes value) : p.payloadLen plain ≤ bytes.length := by
  cases h with
  | bare hp =>
    have hauth : p.policy.authenticated = false := by
      unfold SecurityPolicy.isNone at hp
      rw [Bool.and_eq_true, Bool.not_eq_true'] at hp
      exact hp.1
    rw [payloadLen, hauth, if_neg Bool.false_ne_true, Nat.add_zero]
  | covered hp _ hsends => exact hsends.payload_le hp

theorem plain_le (h : p.Sent C own last plain bytes value) : plain.length ≤ bytes.length :=
  (Nat.le_add_right ..).trans h.payload_le

theorem rises (h : p.Sent C own last plain bytes value) : last.toNat ≤ value.toNat := by
  cases h with
  | bare => exact Nat.le_refl _
  | covered _ hlt => exact Nat.le_of_lt hlt

/-- What is sent does not look like the start or the end of an association. -/
theorem head (h : p.Sent C own last plain bytes value) {tag : ApduTag}
    (hplain : plain.head? = some tag.asU8) (htag : tag.Serves) (hshort : bytes.length < 2 ^ 31) :
    ∃ t, ApduTag.fromU8 (bytes.headD 0) = some t ∧ t ≠ .aarq ∧ t ≠ .releaseRequest := by
  have hfrom {bs : Bytes} {t : ApduTag} (hbs : bs.head? = some t.asU8) :
      ApduTag.fromU8 (bs.headD 0) = some t := by
    rw [List.headD_eq_head?_getD, hbs]
    exact ApduTag.fromU8_asU8 t
  have hpayload := h.payload_le
  cases h with
  | bare => exact ⟨tag, hfrom hplain, htag.2⟩
  | covered hp _ hsends =>
    obtain ⟨ctx, room, -, -, -, hpolicy, hprotect⟩ := hsends
    have hlen : ctx.payloadLen plain = p.payloadLen plain := by
      rw [Outgoing.payloadLen, Protector.payloadLen, hpolicy]
    have htagged : plain.head?.bind ApduTag.fromU8 = some tag := by
      rw [hplain]
      exact ApduTag.fromU8_asU8 tag
    obtain ⟨_, start, _, -, hstart, -, -, rfl⟩ := protectApdu_protects (by rw [hpolicy, hp]) htagged
      (by omega) hprotect
    obtain ⟨t, ht, hne⟩ := Outgoing.start_head hstart
    refine ⟨t, hfrom ?_, hne⟩
    rw [List.head?_append, ht]
    rfl

end Protector.Sent

/-! ## There and back -/

/-- The response is to the request that is outstanding, or says of none which request it is to. -/
def Apdu.Mine (a : Apdu) (outstanding : Option InvokeId) : Prop :=
  a.responseInvokeId = none ∨ a.responseInvokeId = outstanding

theorem Apdu.Mine.not_misdirected {a : Apdu} {outstanding : Option InvokeId} (h : a.Mine outstanding) :
    a.misdirected outstanding = false := by
  unfold Apdu.misdirected
  cases outstanding with
  | none => rfl
  | some i =>
    obtain hnone | hsome := h
    · rw [hnone]
    · rw [hsome]
      exact bne_self_eq_false' ..

/-- The client takes a reply of the server `t`, which `Q` describes, and stays linked to it. -/
def ClientSession.Hears (C : CryptoProvider π) (c : ClientSession π N) (bytes : Bytes) (size : Nat)
    (t : Server σ π M) (Q : Response → Prop) : Prop :=
  ∃ r w trace, Q r ∧ Cli.handleResponse C bytes size c = (.ok r, { c with peerReplay := w, trace }) ∧
    Linked (N := N) C { c with peerReplay := w, trace } t

theorem ClientSession.Hears.mono {c : ClientSession π N} {bytes : Bytes} {size : Nat} {t : Server σ π M}
    {Q Q' : Response → Prop} (h : c.Hears C bytes size t Q) (hq : ∀ r, Q r → Q' r) :
    c.Hears C bytes size t Q' := by
  obtain ⟨r, w, trace, hQ, hrun, hlinked⟩ := h
  exact ⟨r, w, trace, hq r hQ, hrun, hlinked⟩

/-- What is under way does not matter to the link. -/
theorem ClientSession.Hears.transfer {c : ClientSession π N} {bytes : Bytes} {size : Nat}
    {t : Server σ π M} {Q : Response → Prop} (h : c.Hears C bytes size t Q) (transfer : Transfer) :
    c.Hears C bytes size { t with transfer } Q := by
  obtain ⟨r, w, trace, hQ, hrun, hlinked⟩ := h
  exact ⟨r, w, trace, hQ, hrun, hlinked.of_server rfl rfl rfl rfl (Nat.le_refl _)⟩

namespace Linked

variable {c c' : ClientSession π N} {s s' : Server σ π M}

/-- What a client sends is brought, if it is no longer than what the server receives and has room for. -/
theorem brings (h : Linked C c s) {req : Apdu} {room : Nat} {bytes : Bytes}
    (hsend : Cli.send C req room c = (.ok bytes, c')) {tag : ApduTag}
    (hhead : req.encode.data.head? = some tag.asU8) (htag : tag.Serves) {P : Apdu → Prop}
    (hread : WellSized req.encode → RestoresAll Apdu.decode req.encode (fun _ => True) P)
    (hlive : s.state = .associated ∨ s.state = .awaitingHlsReply)
    (hshort : bytes.length ≤ s.config.maxPduSize.toNat) (hM : bytes.length ≤ M) :
    ∃ req' t, P req' ∧ s.Brings C bytes req' t ∧ Linked C c' t := by
  obtain ⟨hfault, value, trace, rfl, hsent⟩ := Cli.send_sent h.client hsend
  have hpdu := s.config.maxPduSize.toNat_lt
  have hpayload := hsent.payload_le
  have hplain := hsent.plain_le
  have hsized : WellSized req.encode := ⟨hfault, by rw [Emit.size]; omega⟩
  obtain ⟨req', hreq, hP⟩ := ((hread hsized).fromBytes hsized).mpr trivial
  obtain ⟨hover, -⟩ | ⟨-, frame, w, events, hrun, hlinked⟩ :=
    h.request_received hsent (fun _ => ⟨tag, hhead, htag.1⟩) (by omega)
  · omega
  · refine ⟨req', _, hP, ⟨hshort, hsent.head hhead htag (by omega), hlive,
      ⟨⟨req.encode.data, frame⟩, by rw [hrun], hreq, rfl⟩⟩, ?_⟩
    rw [hrun]
    exact ⟨hlinked.client, hlinked.server, hlinked.same, hlinked.requests, hlinked.answers⟩

/-- What a server sends is taken, if it fits the client's buffer and is meant for this client. -/
theorem takes_answer (h : Linked C c s) {apdu : Apdu} {room : Nat} {bytes : Bytes}
    (hsend : Srv.send C apdu room s = (.ok bytes, s')) {tag : ApduTag}
    (hhead : apdu.encode.data.head? = some tag.asU8) (htag : tag.bare) {P : Apdu → Prop}
    (hread : RestoresAll Apdu.decode apdu.encode (fun _ => True) P) {Q : Response → Prop}
    (hresponse : ∀ a, P a → a.misdirected c.outstanding = false ∧
      ∃ r, a.response = .ok r ∧ r ≠ .released ∧ Q r) {size : Nat} (hsize : bytes.length ≤ size) :
    c.Hears C bytes size s' Q := by
  obtain ⟨hfault, hfits, scratch, value, trace, rfl, hsent⟩ := Srv.send_sent h.server hsend
  have hpdu := s.clientMaxPduSize.toNat_lt
  have hpayload := hsent.payload_le
  have hplain := hsent.plain_le
  have hsized : WellSized apdu.encode := ⟨hfault, by rw [Emit.size]; omega⟩
  obtain ⟨a, ha, hP⟩ := (hread.fromBytes hsized).mpr trivial
  obtain ⟨hmine, r, hr, hopen, hQ⟩ := hresponse a hP
  obtain ⟨hover, -⟩ | ⟨-, w, hrun, hlinked⟩ :=
    h.answer_received hsent (fun _ => ⟨tag, hhead, htag⟩) (by omega) size
  · omega
  · refine ⟨r, w, c.trace ++ [.returned a r], hQ, ?_,
      ⟨hlinked.client, hlinked.server, hlinked.same, hlinked.requests, hlinked.answers⟩⟩
    have ha : Apdu.fromBytes apdu.encode.data = .ok a := ha
    unfold Cli.handleResponse
    rw [Prog.bind_run_ok hrun, ha, Prog.ofExcept_ok, Prog.pure_bind_run, Prog.gets_bind_run, hmine,
      if_neg Bool.false_ne_true, hr, Prog.ofExcept_ok, Prog.pure_bind_run, Prog.modify_bind_run,
      if_neg hopen]
    rfl

/-- A response of a service. -/
theorem hears_service (h : Linked C c s) (tag : ApduTag) (htag : tag.Service ∧ tag.bare) {α : Type}
    {m : Read α} {g : α → Apdu} (hplain : Apdu.decodePlain tag = m >>= fun a => pure (g a)) {e : Emit}
    {apdu : Apdu} (hencode : apdu.encode = Emit.u8 tag.asU8 ++ e) {P : α → Prop}
    (hread : Restores m e (fun _ => True) P) {room : Nat} {bytes : Bytes}
    (hsend : Srv.send C apdu room s = (.ok bytes, s'))
    {Q : Response → Prop}
    (hq : ∀ a, P a → Apdu.Mine (g a) c.outstanding ∧
      ∃ r, (g a).response = .ok r ∧ r ≠ .released ∧ Q r) {size : Nat} (hsize : bytes.length ≤ size) :
    c.Hears C bytes size s' Q := by
  have hall : RestoresAll (Apdu.decodePlain tag) e (fun _ => True) fun a => ∃ x, a = g x ∧ P x := by
    rw [hplain]
    exact Restores.all (.under hread fun x hx => ⟨x, rfl, hx⟩)
  refine h.takes_answer (P := fun a => ∃ x, a = g x ∧ P x) hsend
    (by rw [hencode]; exact Emit.head_u8 ..) htag.2
    (by rw [hencode]; exact Apdu.restores_service tag htag.1 hall) ?_ hsize
  rintro _ ⟨x, rfl, hx⟩
  obtain ⟨hmine, hr⟩ := hq x hx
  exact ⟨hmine.not_misdirected, hr⟩

end Linked

/-! ## Blocks -/

namespace Outbound

/-- The APDU of a block. -/
def carrier (i : InvokeId) (last : Bool) (number : UInt32) (raw : Bytes) : Outbound → Apdu
  | get => .getResponse (.withDataBlock i ⟨last, number, .ok raw⟩)
  | action => .actionResponse (.withPblock i ⟨last, number, raw⟩)
  | read => .readResponse
      ⟨.fromRaw 1 (ReadResult.block last (UInt16.ofNat number.toNat) raw).encode.data⟩

/-- The response that a block comes in. -/
def HearsBlock (last : Bool) (number : UInt32) (raw : Bytes) (r : Response) : Outbound → Prop
  | get | action => r = .block last number raw
  | read => ∃ l, r = .readResults l ∧
      l.iter ReadResult.decode = [.ok (.block last (UInt16.ofNat number.toNat) raw)]

theorem carrier_head (i : InvokeId) (last : Bool) (number : UInt32) (raw : Bytes) (service : Outbound) :
    (service.carrier i last number raw).encode.data.head? = some service.tag.asU8 := by
  cases service <;> exact Emit.head_u8 ..

theorem tag_bare (service : Outbound) : service.tag.bare := by
  cases service <;> exact ⟨nofun, nofun, nofun, nofun, rfl⟩

end Outbound

namespace Srv

/-- What a new writer holds. -/
theorem emit_new_ok {e : Emit} {n : Nat} {w : SliceWriter} {s t : Server σ π M}
    (h : emit e (SliceWriter.new (zeros n)) s = (.ok w, t)) :
    t = s ∧ e.fault = none ∧ w.asSlice = e.data := by
  obtain ⟨err, w', -, hrun⟩ | ⟨w', hw, hrun⟩ := emit_run e (SliceWriter.new (zeros n)) s
  · rw [hrun] at h
    cases h
  · obtain ⟨hww, rfl⟩ := Prod.mk.inj (hrun.symm.trans h)
    obtain rfl := Except.ok.inj hww
    obtain ⟨hfault, hslice, -, -⟩ := SliceWriter.emit_ok hw
    exact ⟨rfl, hfault, by rw [hslice, SliceWriter.new_asSlice, List.nil_append]⟩

theorem putResponse_ok {n needed : Nat} {bytes : Bytes} {s t : Server σ π M} {u : Unit}
    (h : putResponse n bytes needed s = (.ok u, t)) :
    ∃ b, s.response.copyAt n bytes = some b ∧ t = { s with response := b } := by
  unfold putResponse at h
  split at h
  · rename_i b hb
    exact ⟨b, hb, (Prod.mk.inj h).2.symm⟩
  · cases h

/-- What a block is made into. -/
theorem blockApdu_ok {i : InvokeId} {service : Outbound} {last : Bool} {number : UInt32} {raw : Bytes}
    {s t : Server σ π M} {apdu : Apdu} (h : blockApdu i service last number raw s = (.ok apdu, t)) :
    t = s ∧ apdu = service.carrier i last number raw ∧ (service = .read → number.toNat < 0x10000 ∧
      (ReadResult.block last (UInt16.ofNat number.toNat) raw).encode.fault = none) := by
  cases service with
  | get =>
    obtain ⟨happdu, rfl⟩ := Prod.mk.inj h
    exact ⟨rfl, (Except.ok.inj happdu).symm, nofun⟩
  | action =>
    obtain ⟨happdu, rfl⟩ := Prod.mk.inj h
    exact ⟨rfl, (Except.ok.inj happdu).symm, nofun⟩
  | read =>
    unfold blockApdu at h
    dsimp only at h
    by_cases hn : 0x10000 ≤ number.toNat
    · rw [if_pos hn] at h
      cases h
    · rw [if_neg hn] at h
      obtain ⟨w, s₁, hemit, h⟩ := Prog.bind_ok h
      obtain ⟨happdu, rfl⟩ := Prod.mk.inj h
      obtain ⟨rfl, hfault, hslice⟩ := emit_new_ok hemit
      rw [hslice] at happdu
      exact ⟨rfl, (Except.ok.inj happdu).symm, fun _ => ⟨by omega, hfault⟩⟩

/-- A block that goes out, and the server behind it. -/
theorem sendNextBlock_ok {s t : Server σ π M} {i : InvokeId} {service : Outbound} {len sent : Nat}
    {block : UInt32} {room : Nat} {bytes : Bytes} (ht : s.transfer = .sending i service len sent block)
    (hmax : 0 < s.maxFragment) (h : sendNextBlock C room s = (.ok bytes, t)) :
    let last := min (sent + s.maxFragment) len == len
    ∃ u, send C (service.carrier i last (nextNumber block) (s.nextFragment len sent)) room s = (.ok bytes, u) ∧
      t = { u with transfer := if last then .idle
        else .sending i service len (min (sent + s.maxFragment) len) (nextNumber block) } ∧
      (service = .read → (nextNumber block).toNat < 0x10000 ∧ (ReadResult.block last
        (UInt16.ofNat (nextNumber block).toNat) (s.nextFragment len sent)).encode.fault = none) := by
  have hN : s.maxFragment ≤ M := Nat.min_le_right ..
  unfold sendNextBlock at h
  rw [Prog.gets_bind_run, ht] at h
  dsimp only at h
  rw [Prog.gets_bind_run, if_neg (by omega), if_neg (by omega), Prog.gets_bind_run] at h
  obtain ⟨apdu, s₁, happdu, h⟩ := Prog.bind_ok h
  obtain ⟨rfl, rfl, hread⟩ := blockApdu_ok happdu
  obtain ⟨bytes', u, hsend, h⟩ := Prog.bind_ok h
  obtain ⟨_, u', hset, h⟩ := Prog.bind_ok h
  obtain ⟨hbytes, rfl⟩ := Prod.mk.inj h
  obtain rfl := Except.ok.inj hbytes
  obtain ⟨-, rfl⟩ := Prod.mk.inj hset
  exact ⟨u, hsend, rfl, hread⟩

end Srv

/-- A client takes a block that is sent under the id of its request. -/
theorem Linked.takes_block {c : ClientSession π N} {s s' : Server σ π M} (h : Linked C c s) {i : InvokeId}
    {service : Outbound} {last : Bool} {number : UInt32} {raw : Bytes} {room : Nat} {bytes : Bytes}
    (hsend : Srv.send C (service.carrier i last number raw) room s = (.ok bytes, s'))
    (hread : service = .read →
      (ReadResult.block last (UInt16.ofNat number.toNat) raw).encode.fault = none)
    (hraw : raw.length < 2 ^ 32) (hid : service ≠ .read → c.outstanding = some i) {size : Nat}
    (hsize : bytes.length ≤ size) :
    c.Hears C bytes size s' (service.HearsBlock last number raw) := by
  cases service with
  | get =>
    refine h.hears_service .getResponse ⟨⟨by decide, by decide⟩, by decide⟩ rfl rfl
      (GetResponse.restores_block i last number raw) hsend ?_ hsize
    rintro _ rfl
    exact ⟨.inr (hid nofun).symm, _, rfl, nofun, rfl⟩
  | action =>
    refine h.hears_service .actionResponse ⟨⟨by decide, by decide⟩, by decide⟩ rfl rfl
      (ActionResponse.restores_block i ⟨last, number, raw⟩) hsend ?_ hsize
    rintro _ rfl
    exact ⟨.inr (hid nofun).symm, _, rfl, nofun, rfl⟩
  | read =>
    have hsized : WellSized (ReadResult.block last (UInt16.ofNat number.toNat) raw).encode := by
      refine ⟨hread rfl, ?_⟩
      have hel := (((Emit.Sized.u8 2).append (.u8 last.toUInt8)).append
        (.u16 (UInt16.ofNat number.toNat))).append (Emit.lengthPrefixed_sized hraw)
      have hprefix := Emit.lengthSize_le raw.length
      change (((Emit.u8 2 ++ Emit.u8 last.toUInt8) ++ Emit.u16 (UInt16.ofNat number.toNat)) ++
        Emit.lengthPrefixed raw).size < _
      rw [hel.size]
      omega
    have hbody : Restores ReadResponse.decode (ReadResponse.encode ⟨.fromRaw 1
        (ReadResult.block last (UInt16.ofNat number.toNat) raw).encode.data⟩) (fun _ => True) fun q =>
        q.results.iter ReadResult.decode = [.ok (.block last (UInt16.ofNat number.toNat) raw)] := by
      refine .under (WireList.restores_one ReadResult.decode_echoes (ReadResult.restores_block ..) hsized) ?_
      rintro l ⟨_, hiter, rfl⟩
      exact hiter
    exact h.hears_service .readResponse ⟨⟨by decide, by decide⟩, by decide⟩ rfl rfl hbody hsend
      (fun q hq => ⟨.inl rfl, _, rfl, nofun, _, rfl, hq⟩) hsize

/-! ## Values -/

/-- The value `v` is on its way in blocks: so many bytes of it went out, in so many blocks. -/
structure Server.Sends (s : Server σ π M) (i : InvokeId) (service : Outbound) (v : Bytes) (sent : Nat)
    (block : UInt32) : Prop where
  transfer : s.transfer = .sending i service v.length sent block
  holds : s.response.bytes.take v.length = v
  fits : v.length ≤ M

namespace Server.Sends

variable {s : Server σ π M} {i : InvokeId} {service : Outbound} {v : Bytes} {sent : Nat} {block : UInt32}

/-- The next fragment is what follows. -/
theorem nextFragment (h : s.Sends i service v sent block) (hsent : sent ≤ v.length) :
    s.nextFragment v.length sent = (v.drop sent).take s.maxFragment := by
  have hfits := h.fits
  have htake : s.response.bytes.take (min (sent + s.maxFragment) v.length) =
      v.take (min (sent + s.maxFragment) v.length) := by
    have hmin := congrArg (List.take (min (sent + s.maxFragment) v.length)) h.holds
    rwa [List.take_take, Nat.min_eq_left (Nat.min_le_right ..)] at hmin
  rw [Server.nextFragment, Buffer.get, if_pos (by omega), htake, List.drop_take]
  by_cases hle : sent + s.maxFragment ≤ v.length
  · rw [Nat.min_eq_left hle, Nat.add_sub_cancel_left]
  · rw [Nat.min_eq_right (by omega), List.take_of_length_le (by rw [List.length_drop]),
      List.take_of_length_le (by rw [List.length_drop]; omega)]

end Server.Sends

/-- The refusal of a value that would have to go in blocks. -/
def Outbound.HearsRefusal (get : DataAccessResult) (action : ActionResult) (r : Response) : Outbound → Prop
  | .get => r = .dataError get
  | .action => r = .actionResult action none
  | .read => ∃ l, r = .readResults l ∧ l.iter ReadResult.decode = [.ok (.error get)]

/-- How the value `v`, in a body of `n` bytes, gets from `s` to a client, which leaves `t`. -/
inductive Server.Delivers (s t : Server σ π M) (i : InvokeId) (service : Outbound) (header n : Nat)
    (v : Bytes) (Whole : Response → Prop) (r : Response) : Prop
  /-- In one response. -/
  | whole : s.fitsOne header n = true → Whole r → Delivers s t i service header n v Whole r
  /-- In blocks, of which the first is there. -/
  | block : s.fitsOne header n = false → s.negotiated.contains (Srv.Outbound.required service) = true →
    0 < s.maxFragment →
    service.HearsBlock (decide (v.length ≤ s.maxFragment)) 1 (v.take s.maxFragment) r →
    (s.maxFragment < v.length → t.Sends i service v s.maxFragment 1) →
    Delivers s t i service header n v Whole r
  /-- Not at all: blocks were not agreed on. -/
  | refused : s.fitsOne header n = false → s.negotiated.contains (Srv.Outbound.required service) = false →
    service.HearsRefusal .dataBlockUnavailable .dataBlockUnavailable r →
    Delivers s t i service header n v Whole r
  /-- Not at all: a block has no room for a byte. -/
  | aborted : s.fitsOne header n = false → s.negotiated.contains (Srv.Outbound.required service) = true →
    s.maxFragment = 0 → service.HearsRefusal .longGetAborted .longActionAborted r →
    Delivers s t i service header n v Whole r

/-- The reply bears the id of the request. -/
def Told.placed : Told → Prop
  | .get _ | .set _ | .action _ => True
  | .read _ | .write _ => False

/-- What a client hears of an operation from the server `s`, which leaves `t`. -/
def Told.Heard (s t : Server σ π M) (i : InvokeId) (r : Response) : Told → Prop
  | .get (.error e) => r = .dataError (.fromU8 e.asU8)
  | .get (.ok v) => s.Delivers t i .get Srv.normalHeaderMax v.length v
      (fun r => ∃ d d', Read.fromBytes Data.decode v = .ok d ∧ d.Same d' ∧ r = .data d') r
  | .set result => r = (DataAccessResult.fromU8 result.asU8).response
  | .action (.error e) => r = .actionResult (.fromU8 e.asU8) none
  | .action (.ok none) => r = .actionResult .success none
  | .action (.ok (some v)) => s.Delivers t i .action Srv.actionHeaderMax v.length v
      (fun r => ∃ d d', Read.fromBytes Data.decode v = .ok d ∧ d.Same d' ∧
        r = .actionResult .success (some d')) r
  | .read outcome => s.Delivers t ⟨0⟩ .read Srv.normalHeaderMax (1 + (readSlot outcome).length)
      ((readSlot outcome).drop 1)
      (fun r => ∃ l x, r = .readResults l ∧ l.iter ReadResult.decode = [.ok x] ∧ x.Tells outcome) r
  | .write result => ∃ l, r = .writeResults l ∧ l.iter WriteResult.decode = [.ok result.written]

namespace Linked

variable {c : ClientSession π N} {s t : Server σ π M} {i : InvokeId} {room size : Nat} {bytes : Bytes}

/-- A block of a value that is on its way. -/
theorem hears_block (h : Linked C c s) {service : Outbound} {v : Bytes} {sent : Nat} {block : UInt32}
    (hs : s.Sends i service v sent block) (hsent : sent ≤ v.length) (hmax : 0 < s.maxFragment)
    (hid : service ≠ .read → c.outstanding = some i)
    (hrun : Srv.sendNextBlock C room s = (.ok bytes, t)) (hsize : bytes.length ≤ size) :
    c.Hears C bytes size t (service.HearsBlock (decide (v.length ≤ sent + s.maxFragment))
      (Srv.nextNumber block) ((v.drop sent).take s.maxFragment)) ∧
    (service = .read → (Srv.nextNumber block).toNat < 0x10000) ∧
    ∃ scratch counter trace, t = { s with
      scratch, invocationCounter := counter, trace
      transfer := if v.length ≤ sent + s.maxFragment then .idle
        else .sending i service v.length (sent + s.maxFragment) (Srv.nextNumber block) } := by
  obtain ⟨u, hsend, rfl, hread⟩ := Srv.sendNextBlock_ok hs.transfer hmax hrun
  have hlast : (min (sent + s.maxFragment) v.length == v.length) =
      decide (v.length ≤ sent + s.maxFragment) := by
    rw [Bool.eq_iff_iff, beq_iff_eq, decide_eq_true_iff]
    omega
  have hraw := s.nextFragment_lt v.length sent
  rw [hlast] at hsend hread ⊢
  rw [hs.nextFragment hsent] at hsend hread hraw
  obtain ⟨-, -, scratch, counter, trace, rfl, -⟩ := Srv.send_sent h.server hsend
  refine ⟨(h.takes_block hsend (fun hr => (hread hr).2) hraw hid hsize).transfer _,
    fun hr => (hread hr).1, scratch, counter, trace, ?_⟩
  by_cases hle : v.length ≤ sent + s.maxFragment
  · rw [decide_eq_true hle, if_pos rfl, if_pos hle]
  · rw [decide_eq_false hle, if_neg Bool.false_ne_true, if_neg hle, Nat.min_eq_left (by omega)]

/-- The first block of a value that has just been put into the buffer. -/
theorem hears_first (h : Linked C c s) {service : Outbound} {v : Bytes} (hmax : 0 < s.maxFragment)
    (hid : service ≠ .read → c.outstanding = some i)
    (hrun : (do
      Srv.putResponse 0 v v.length
      Srv.setTransfer (.sending i service v.length 0 0)
      Srv.sendNextBlock C room : Srv σ π M Bytes) s = (.ok bytes, t)) (hsize : bytes.length ≤ size) :
    c.Hears C bytes size t
      (service.HearsBlock (decide (v.length ≤ s.maxFragment)) 1 (v.take s.maxFragment)) ∧
    (s.maxFragment < v.length → t.Sends i service v s.maxFragment 1) := by
  obtain ⟨_, s₁, hput, hrun⟩ := Prog.bind_ok hrun
  obtain ⟨response, hcopy, rfl⟩ := Srv.putResponse_ok hput
  have hfits : v.length ≤ M := by
    have := Buffer.copyAt_fits hcopy
    omega
  have hholds : response.bytes.take v.length = v := by
    have hroom : 0 + v.length ≤ M := by omega
    obtain ⟨b, hb, htake⟩ := Buffer.copyAt_take (b := s.response) hroom
    obtain rfl := Option.some.inj (hcopy.symm.trans hb)
    rwa [Nat.zero_add, List.take_zero, List.nil_append] at htake
  rw [Srv.setTransfer, Prog.modify_bind_run] at hrun
  have hsends : Server.Sends ({ s with response, transfer := .sending i service v.length 0 0 } :
      Server σ π M) i service v 0 0 := ⟨rfl, hholds, hfits⟩
  have hlinked : Linked C c ({ s with response, transfer := .sending i service v.length 0 0 } :
      Server σ π M) := h.of_server rfl rfl rfl rfl (Nat.le_refl _)
  obtain ⟨hhears, -, scratch, counter, trace, rfl⟩ :=
    hlinked.hears_block hsends (Nat.zero_le _) hmax hid hrun hsize
  have hzero : 0 + ({ s with response, transfer := .sending i service v.length 0 0 } :
      Server σ π M).maxFragment = s.maxFragment := Nat.zero_add _
  rw [hzero] at hhears ⊢
  refine ⟨hhears, fun hlt => ⟨?_, hholds, hfits⟩⟩
  rw [if_neg (by omega)]
  rfl

/-- The response to a short-name read of one entry. -/
theorem hears_results (h : Linked C c s) {outcome : Except DataAccessResult Bytes} {w : SliceWriter}
    (hvalue : ∀ v, outcome = .ok v → v.length < 2 ^ 32 ∧ ∃ d, Read.fromBytes Data.decode v = .ok d)
    (hslice : w.asSlice = readSlot outcome)
    (hsend : Srv.send C (.readResponse ⟨.fromRaw 1 w.asSlice⟩) room s = (.ok bytes, t))
    (hsize : bytes.length ≤ size) : c.Hears C bytes size t fun r => ∃ l x, r = .readResults l ∧
      l.iter ReadResult.decode = [.ok x] ∧ x.Tells outcome := by
  rw [hslice] at hsend
  have hsized : WellSized (Emit.bytes (readSlot outcome)) := by
    refine ⟨rfl, ?_⟩
    rw [Emit.size, Emit.bytes_data]
    cases outcome with
    | ok v =>
      have := (hvalue v rfl).1
      rw [readSlot, List.length_cons]
      omega
    | error e => exact Nat.lt_of_le_of_lt (Nat.le_refl 2) (by norm_num)
  have hbody : Restores ReadResponse.decode
      (ReadResponse.encode ⟨.fromRaw 1 (Emit.bytes (readSlot outcome)).data⟩) (fun _ => True) fun q =>
      ∃ x, q.results.iter ReadResult.decode = [.ok x] ∧ x.Tells outcome :=
    .under (WireList.restores_one ReadResult.decode_echoes
      (ReadResult.restores_slot fun v hv => (hvalue v hv).2) hsized) fun _ h => h
  rw [Emit.bytes_data] at hbody
  refine h.hears_service .readResponse ⟨⟨by decide, by decide⟩, by decide⟩ rfl rfl hbody hsend ?_ hsize
  rintro q ⟨x, hiter, hx⟩
  exact ⟨.inl rfl, _, rfl, by simp, _, x, rfl, hiter, hx⟩

/-- A refusal in the service of the request. -/
theorem hears_refusal (h : Linked C c s) {service : Outbound} {get : DataAccessResult}
    {action : ActionResult} (hid : service ≠ .read → c.outstanding = some i)
    (hrun : Srv.transferError C i service get action room s = (.ok bytes, t)) (hsize : bytes.length ≤ size)
    (hcodes : get.Canonical ∧ action.Canonical) :
    c.Hears C bytes size t (service.HearsRefusal get action) := by
  obtain ⟨hget, haction⟩ := hcodes
  cases service with
  | get =>
    refine h.hears_service .getResponse ⟨⟨by decide, by decide⟩, by decide⟩ rfl rfl
      (GetResponse.restores_error i get) hrun ?_ hsize
    rintro _ rfl
    rw [show DataAccessResult.fromU8 get.asU8 = get from hget]
    exact ⟨.inr (hid nofun).symm, _, rfl, nofun, rfl⟩
  | action =>
    refine h.hears_service .actionResponse ⟨⟨by decide, by decide⟩, by decide⟩ rfl rfl
      (ActionResponse.restores_result i action) hrun ?_ hsize
    rintro _ rfl
    rw [show ActionResult.fromU8 action.asU8 = action from haction]
    exact ⟨.inr (hid nofun).symm, _, rfl, nofun, rfl⟩
  | read =>
    obtain ⟨w, s₁, hemit, hsend⟩ := Prog.bind_ok hrun
    obtain ⟨rfl, -, hslice⟩ := Srv.emit_new_ok hemit
    have hslot : w.asSlice = readSlot (.error get) := hslice
    refine (h.hears_results (fun v hv => by cases hv) hslot hsend hsize).mono ?_
    rintro _ ⟨l, x, rfl, hiter, hx⟩
    rw [show x = .error get from hx.trans (congrArg _ hget)] at hiter
    exact ⟨l, rfl, hiter⟩

/-- A value that is put into the buffer, to go in blocks. -/
theorem hears_long (h : Linked C c s) {service : Outbound} {v : Bytes} {header n : Nat}
    {Whole : Response → Prop} (hlong : s.fitsOne header n = false)
    (hagreed : s.negotiated.contains (Srv.Outbound.required service) = true)
    (hid : service ≠ .read → c.outstanding = some i)
    (hrun : (do
      Srv.putResponse 0 v v.length
      Srv.setTransfer (.sending i service v.length 0 0)
      Srv.sendNextBlock C room : Srv σ π M Bytes) s = (.ok bytes, t)) (hsize : bytes.length ≤ size) :
    c.Hears C bytes size t (s.Delivers t i service header n v Whole) := by
  by_cases hmax : s.maxFragment = 0
  · obtain ⟨_, s₁, hput, hrun⟩ := Prog.bind_ok hrun
    obtain ⟨response, -, rfl⟩ := Srv.putResponse_ok hput
    rw [Srv.setTransfer, Prog.modify_bind_run] at hrun
    unfold Srv.sendNextBlock at hrun
    rw [Prog.gets_bind_run] at hrun
    dsimp only at hrun
    rw [Prog.gets_bind_run, if_pos (by exact hmax), Srv.setTransfer, Prog.modify_bind_run] at hrun
    have hlinked : Linked C c ({ s with response, transfer := .idle } : Server σ π M) :=
      h.of_server rfl rfl rfl rfl (Nat.le_refl _)
    exact (hlinked.hears_refusal hid hrun hsize ⟨rfl, rfl⟩).mono fun r hr => .aborted hlong hagreed hmax hr
  · obtain ⟨hhears, hnext⟩ := h.hears_first (Nat.pos_of_ne_zero hmax) hid hrun hsize
    exact hhears.mono fun r hr => .block hlong hagreed (Nat.pos_of_ne_zero hmax) hr hnext

theorem hears_reportGet (h : Linked C c s) (hid : c.outstanding = some i)
    {outcome : Except DataAccessResult Bytes} (hrun : Srv.reportGet C i outcome room s = (.ok bytes, t))
    (hsize : bytes.length ≤ size) : c.Hears C bytes size t fun r => (Told.get outcome).Heard s t i r := by
  cases outcome with
  | error e =>
    refine h.hears_service .getResponse ⟨⟨by decide, by decide⟩, by decide⟩ rfl rfl
      (GetResponse.restores_error i e) hrun ?_ hsize
    rintro _ rfl
    exact ⟨.inr hid.symm, _, rfl, nofun, rfl⟩
  | ok v =>
    unfold Srv.reportGet at hrun
    dsimp only at hrun
    rw [Prog.gets_bind_run] at hrun
    cases hfits : s.fitsOne Srv.normalHeaderMax v.length with
    | true =>
      rw [hfits, if_pos rfl] at hrun
      obtain ⟨d, hd, hsend⟩ := Prog.ofExcept_bind_ok hrun
      obtain ⟨r, hr, -⟩ := Read.fromBytes_ok hd
      refine h.hears_service .getResponse ⟨⟨by decide, by decide⟩, by decide⟩ rfl rfl
        (GetResponse.restores_data i (Data.whole_of_decode hr)) hsend ?_ hsize
      rintro _ ⟨d', rfl, hd'⟩
      exact ⟨.inr hid.symm, _, rfl, nofun, .whole hfits ⟨d, d', hd, hd', rfl⟩⟩
    | false =>
      rw [hfits, if_neg Bool.false_ne_true, Prog.gets_bind_run] at hrun
      cases hagreed : s.negotiated.contains .blockTransferWithGetOrRead with
      | false =>
        rw [hagreed] at hrun
        have hrefused : Srv.transferError C i .get .dataBlockUnavailable .dataBlockUnavailable room s =
            (.ok bytes, t) := hrun
        exact (h.hears_refusal (fun _ => hid) hrefused hsize ⟨rfl, rfl⟩).mono fun r hr =>
          .refused hfits hagreed hr
      | true =>
        rw [hagreed] at hrun
        exact h.hears_long hfits hagreed (fun _ => hid) hrun hsize

theorem hears_reportAction (h : Linked C c s) (hid : c.outstanding = some i)
    {outcome : Except ActionResult (Option Bytes)}
    (hrun : Srv.reportAction C i outcome room s = (.ok bytes, t)) (hsize : bytes.length ≤ size) :
    c.Hears C bytes size t fun r => (Told.action outcome).Heard s t i r := by
  have hresult {e : ActionResult} (hsend : Srv.actionError C i e room s = (.ok bytes, t)) :
      c.Hears C bytes size t fun r => r = .actionResult (.fromU8 e.asU8) none := by
    refine h.hears_service .actionResponse ⟨⟨by decide, by decide⟩, by decide⟩ rfl rfl
      (ActionResponse.restores_result i e) hsend ?_ hsize
    rintro _ rfl
    exact ⟨.inr hid.symm, _, rfl, nofun, rfl⟩
  match outcome, hrun with
  | .error e, hrun => exact hresult hrun
  | .ok none, hrun => exact hresult (e := .success) hrun
  | .ok (some v), hrun =>
    unfold Srv.reportAction at hrun
    dsimp only at hrun
    rw [Prog.gets_bind_run] at hrun
    cases hfits : s.fitsOne Srv.actionHeaderMax v.length with
    | true =>
      rw [hfits, if_pos rfl] at hrun
      obtain ⟨d, hd, hsend⟩ := Prog.ofExcept_bind_ok hrun
      obtain ⟨r, hr, -⟩ := Read.fromBytes_ok hd
      refine h.hears_service .actionResponse ⟨⟨by decide, by decide⟩, by decide⟩ rfl rfl
        (ActionResponse.restores_data i (Data.whole_of_decode hr)) hsend ?_ hsize
      rintro _ ⟨d', rfl, hd'⟩
      exact ⟨.inr hid.symm, _, rfl, nofun, .whole hfits ⟨d, d', hd, hd', rfl⟩⟩
    | false =>
      rw [hfits, if_neg Bool.false_ne_true] at hrun
      cases hagreed : s.negotiated.contains .blockTransferWithAction with
      | false =>
        obtain ⟨_, s₁, hput, hrun⟩ := Prog.bind_ok hrun
        obtain ⟨response, -, rfl⟩ := Srv.putResponse_ok hput
        rw [Srv.deliverBlocked, Prog.gets_bind_run, if_pos (by rw [Bool.not_eq_true']; exact hagreed),
          Srv.setTransfer, Prog.modify_bind_run] at hrun
        have hlinked : Linked C c ({ s with response, transfer := .idle } : Server σ π M) :=
          h.of_server rfl rfl rfl rfl (Nat.le_refl _)
        exact (hlinked.hears_refusal (fun _ => hid) hrun hsize ⟨rfl, rfl⟩).mono fun r hr =>
          .refused hfits hagreed hr
      | true =>
        obtain ⟨_, s₁, hput, hrun⟩ := Prog.bind_ok hrun
        obtain ⟨response, -, rfl⟩ := Srv.putResponse_ok hput
        rw [Srv.deliverBlocked, Prog.gets_bind_run,
          if_neg (by rw [Bool.not_eq_true', Bool.not_eq_false]; exact hagreed)] at hrun
        exact h.hears_long hfits hagreed (fun _ => hid) ((Prog.bind_run_ok hput).trans hrun) hsize

theorem hears_reportRead (h : Linked C c s) {outcome : Except DataAccessResult Bytes} {w : SliceWriter}
    (hvalue : ∀ v, outcome = .ok v → ∃ d, Read.fromBytes Data.decode v = .ok d)
    (hslice : w.asSlice = readSlot outcome) (hrun : Srv.answerRead C 1 room w s = (.ok bytes, t))
    (hsize : bytes.length ≤ size) :
    c.Hears C bytes size t fun r => (Told.read outcome).Heard s t i r := by
  obtain ⟨counted, s₁, hcount, hanswer⟩ := Prog.bind_ok hrun
  obtain ⟨_, s₂, hemit, hpure⟩ := Prog.bind_ok hcount
  obtain ⟨hcounted, rfl⟩ := Prod.mk.inj hpure
  obtain rfl := Except.ok.inj hcounted
  obtain ⟨rfl, -, hone⟩ := Srv.emit_new_ok hemit
  have hlen : w.pos = (readSlot outcome).length := by rw [← SliceWriter.length_asSlice, hslice]
  have hbody : (Emit.length 1).data.length = 1 := rfl
  dsimp only at hanswer
  rw [hone, hbody, hlen, Prog.gets_bind_run] at hanswer
  cases hfits : s₂.fitsOne Srv.normalHeaderMax (1 + (readSlot outcome).length) with
  | true =>
    rw [hfits, if_pos rfl] at hanswer
    have hpdu := s₂.clientMaxPduSize.toNat_lt
    have hshort : (readSlot outcome).length < 2 ^ 16 := by
      have := of_decide_eq_true hfits
      omega
    refine (h.hears_results (fun v hv => ⟨?_, hvalue v hv⟩) hslice hanswer hsize).mono fun r hr =>
      .whole hfits hr
    rw [hv, readSlot, List.length_cons] at hshort
    omega
  | false =>
    rw [hfits, if_neg Bool.false_ne_true, Prog.gets_bind_run] at hanswer
    cases hagreed : s₂.negotiated.contains .blockTransferWithGetOrRead with
    | false =>
      rw [hagreed, if_pos (by simp)] at hanswer
      have hrefused : Srv.transferError C ⟨0⟩ .read .dataBlockUnavailable .dataBlockUnavailable room s₂ =
          (.ok bytes, t) := hanswer
      exact (h.hears_refusal (fun hne => absurd rfl hne) hrefused hsize ⟨rfl, rfl⟩).mono fun r hr =>
        .refused hfits hagreed hr
    | true =>
      rw [hagreed, if_neg (by simp), hslice] at hanswer
      exact h.hears_long hfits hagreed (fun hne => absurd rfl hne) hanswer hsize

end Linked

/-- The client hears what the server has to report. The id matters where the service has one. -/
theorem DataAccessResult.response_ne_released (result : DataAccessResult) :
    result.response ≠ .released := by
  unfold response
  split <;> exact Response.noConfusion

theorem Told.Reported.heard {c : ClientSession π N} {s t : Server σ π M} {i : InvokeId} {room size : Nat}
    {bytes : Bytes} {told : Told} {m : Srv σ π M Bytes} (hm : told.Reported C i room m) (h : Linked C c s)
    (hid : told.placed → c.outstanding = some i)
    (hvalue : ∀ v, told = .read (.ok v) → ∃ d, Read.fromBytes Data.decode v = .ok d)
    (hrun : m s = (.ok bytes, t)) (hsize : bytes.length ≤ size) :
    c.Hears C bytes size t fun r => told.Heard s t i r := by
  cases hm with
  | get => exact h.hears_reportGet (hid trivial) hrun hsize
  | set result =>
    refine h.hears_service .setResponse ⟨⟨by decide, by decide⟩, by decide⟩ rfl rfl
      (SetResponse.restores_normal i result) hrun ?_ hsize
    rintro _ rfl
    exact ⟨.inr (hid trivial).symm, _, rfl, DataAccessResult.response_ne_released _, rfl⟩
  | action => exact h.hears_reportAction (hid trivial) hrun hsize
  | read hslice => exact h.hears_reportRead (fun v hv => hvalue v (by rw [hv])) hslice hrun hsize
  | write result =>
    have hbody : Restores WriteResponse.decode (WriteResponse.encode
        ⟨.fromRaw 1 (Emit.bytes (writeSlot result)).data⟩) (fun _ => True) fun q =>
        q.results.iter WriteResult.decode = [.ok result.written] := by
      have hsized : WellSized (Emit.bytes (writeSlot result)) := by
        refine ⟨rfl, ?_⟩
        rw [Emit.size, Emit.bytes_data]
        unfold writeSlot
        split <;> norm_num
      refine .under (WireList.restores_one WriteResult.decode_echoes (WriteResult.restores_slot result)
        hsized) ?_
      rintro l ⟨_, hiter, rfl⟩
      exact hiter
    rw [Emit.bytes_data] at hbody
    refine h.hears_service .writeResponse ⟨⟨by decide, by decide⟩, by decide⟩ rfl rfl hbody hrun ?_ hsize
    intro q hq
    exact ⟨.inl rfl, _, rfl, Response.noConfusion, _, rfl, hq⟩

end Dlms
