import DlmsCosem.Ends.Exchange
import DlmsCosem.Server.Batches
import DlmsCosem.Server.Nonces

/-!
# Calls

A client that asks for operations, a server that serves them, and a wire that may lose requests and
replies: `Calls`. What the server's store comes to is what the operations that reached it come to one
after another, each once, and what the client hears is what they came to (`calls_perform`).
-/

namespace Dlms

open Ber

variable {σ π : Type} {N M : Nat} {C : CryptoProvider π} {S : ObjectStore σ}

/-! ## Asking -/

theorem Emit.concat_one (e : Emit) (he : e.fault = none) : (concat [e]).data = e.data := by
  change (e ++ empty).data = e.data
  rw [append_data he]
  exact List.append_nil _

namespace Cli

/-- What only looks is passed over. -/
theorem Looks.skip {m : Cli π N Unit} {k : Cli π N Bytes} {s t : ClientSession π N} {bytes : Bytes}
    (hm : Looks m) (h : (m >>= fun _ => k) s = (.ok bytes, t)) : k s = (.ok bytes, t) := by
  obtain ⟨_, s₁, hreq, h⟩ := Prog.bind_ok h
  rwa [BlockTransfer.required hm hreq] at h

/-- A list of one entry is encoded as that entry. -/
theorem encode_one {e : Emit} {n : Nat} {c t : ClientSession π N} {raw : Bytes}
    (h : encode (Emit.concat [e]) n c = (.ok raw, t)) : t = c ∧ e.fault = none ∧ raw = e.data := by
  rw [encode_run] at h
  obtain ⟨hraw, rfl⟩ := Prod.mk.inj h
  obtain ⟨hfault, rfl, -⟩ := SliceWriter.encodeInto_ok hraw
  have he := (Emit.append_fault_eq_none.mp hfault).1
  exact ⟨rfl, he, Emit.concat_one e he⟩

/-- The lists of a write of one entry. -/
theorem encodeWrite_one {entry : VariableAccess} {value : Data} {req : WriteRequest}
    {c t : ClientSession π N} (h : encodeWrite [entry] [value] c = (.ok req, t)) :
    t = c ∧ entry.encode.fault = none ∧ value.encode.fault = none ∧
      req = ⟨.fromRaw 1 entry.encode.data, .fromRaw 1 value.encode.data⟩ := by
  obtain ⟨⟨front, back⟩, c₂, htwo, hpure⟩ := Prog.bind_ok h
  obtain ⟨hreq, rfl⟩ := Prod.mk.inj hpure
  obtain ⟨raw, c₃, hraw, hrest⟩ := Prog.bind_ok htwo
  obtain ⟨rfl, hentry, rfl⟩ := encode_one hraw
  obtain ⟨both, c₄, hboth, hpure'⟩ := Prog.bind_ok hrest
  obtain ⟨hparts, rfl⟩ := Prod.mk.inj hpure'
  obtain ⟨rfl, rfl⟩ := Prod.mk.inj (Except.ok.inj hparts)
  rw [encode_run] at hboth
  obtain ⟨hwritten, rfl⟩ := Prod.mk.inj hboth
  obtain ⟨hfault, rfl, -⟩ := SliceWriter.encodeInto_ok hwritten
  obtain ⟨hfront, hback⟩ := Emit.append_fault_eq_none.mp hfault
  have hvalue := (Emit.append_fault_eq_none.mp hback).1
  have hdrop : (encodeAll VariableAccess.encode [entry] ++ encodeAll Data.encode [value]).data.drop
      entry.encode.data.length = value.encode.data := by
    have hentries : (encodeAll VariableAccess.encode [entry]).data = _ := Emit.concat_one _ hentry
    have hvalues : (encodeAll Data.encode [value]).data = _ := Emit.concat_one _ hvalue
    rw [Emit.append_data hfront, hentries, hvalues, List.drop_left]
  rw [hdrop] at hreq
  exact ⟨rfl, hentry, hvalue, (Except.ok.inj hreq).symm⟩

end Cli

theorem Cli.nextInvokeId_run (c : ClientSession π N) : ∃ i invokeId, Cli.nextInvokeId c =
    (.ok i, { c with invokeId, outstanding := some i }) :=
  ⟨_, _, rfl⟩

namespace Single

/-- The client asks for the operation. -/
def ask (C : CryptoProvider π) (room : Nat) : Single → Cli π N Bytes
  | get d access => Cli.getRequest C d access room
  | set d access value => Cli.setRequest C d access value room
  | action d parameters => Cli.actionRequest C d parameters room
  | read entry => Cli.readRequest C [entry] room
  | write entry value => Cli.writeRequest C [entry] [value] room

/-- The response bears the id of the request. -/
def Placed : Single → Prop
  | get _ _ | set _ _ _ | action _ _ => True
  | read _ | write _ _ => False

/-- What the request holds in encoded form has an encoding. -/
def Encodes : Single → Prop
  | read entry => entry.encode.fault = none
  | write entry value => entry.encode.fault = none ∧ value.encode.fault = none
  | _ => True

theorem written {x : Single} {i : InvokeId} (hx : x.Encodes) (h : WellSized (x.request i).encode) :
    x.Written := by
  have hraw {e : Emit} (hl : WellSized (WireList.fromRaw 1 e.data).encode) (he : e.fault = none) :
      WellSized e := by
    have hsize := hl.append.2.2
    rw [Emit.size, Emit.bytes_data] at hsize
    exact ⟨he, hsize⟩
  cases x with
  | read entry => exact hraw h.append.2 hx
  | write entry value =>
    have hbody : WellSized (WriteRequest.encode _) := h.append.2
    exact ⟨hraw hbody.append.1 hx.1, hraw hbody.append.2 hx.2⟩
  | _ => trivial

/-- A request that goes out is the one for the operation, under the id that is outstanding then. -/
theorem ask_ok {x : Single} {room : Nat} {c c' : ClientSession π N} {bytes : Bytes}
    (h : x.ask C room c = (.ok bytes, c')) :
    ∃ i invokeId outstanding, Cli.send C (x.request i) room { c with invokeId, outstanding } =
      (.ok bytes, c') ∧ (x.Placed → outstanding = some i) ∧ x.Encodes := by
  have rules : Cli.LookRules (fun _ _ (m : Cli π N _) => Cli.Looks m) := Cli.Looks.rules
  have hassociated := rules.requireAssociated (P := fun _ => True)
  have hconformance := rules.requireConformance (P := fun _ => True)
  have hselection := rules.requireSelection (P := fun _ => True)
  have hshort := rules.requireShortName (P := fun _ => True)
  have hargs := rules.requireArguments (P := fun _ => True)
  have placed (hx : x.Encodes) (h : (do
      let i ← Cli.nextInvokeId
      Cli.send C (x.request i) room) c = (.ok bytes, c')) : ∃ i invokeId outstanding,
      Cli.send C (x.request i) room { c with invokeId, outstanding } = (.ok bytes, c') ∧
        (x.Placed → outstanding = some i) ∧ x.Encodes := by
    obtain ⟨i, invokeId, hnext⟩ := Cli.nextInvokeId_run c
    rw [Prog.bind_run_ok hnext] at h
    exact ⟨i, invokeId, some i, h, fun _ => rfl, hx⟩
  cases x with
  | get d access =>
    exact placed trivial (Cli.Looks.skip (hselection _) (Cli.Looks.skip (hconformance _) (Cli.Looks.skip hassociated h)))
  | set d access value =>
    exact placed trivial (Cli.Looks.skip (hselection _) (Cli.Looks.skip (hconformance _) (Cli.Looks.skip hassociated h)))
  | action d parameters =>
    exact placed trivial (Cli.Looks.skip (hconformance _) (Cli.Looks.skip hassociated h))
  | read entry =>
    have h := Cli.Looks.skip (hargs _) (Cli.Looks.skip (hconformance _) (Cli.Looks.skip hshort (Cli.Looks.skip hassociated h)))
    obtain ⟨raw, c₁, hraw, h⟩ := Prog.bind_ok h
    obtain ⟨rfl, hfault, rfl⟩ := Cli.encode_one hraw
    exact ⟨⟨0⟩, _, none, h, nofun, hfault⟩
  | write entry value =>
    have h := Cli.Looks.skip (rules.requireShortNameWrite (P := fun _ => True) _ _) h
    obtain ⟨req, c₁, hreq, h⟩ := Prog.bind_ok h
    obtain ⟨rfl, hentry, hvalue, rfl⟩ := Cli.encodeWrite_one hreq
    exact ⟨⟨0⟩, _, none, h, nofun, hentry, hvalue⟩

end Single

/-- The tag of the request. -/
def Single.requestTag : Single → ApduTag
  | .get _ _ => .getRequest
  | .set _ _ _ => .setRequest
  | .action _ _ => .actionRequest
  | .read _ => .readRequest
  | .write _ _ => .writeRequest

theorem Single.request_head (x : Single) (i : InvokeId) :
    (x.request i).encode.data.head? = some x.requestTag.asU8 := by
  cases x <;> exact Emit.head_u8 ..

theorem Single.requestTag_serves (x : Single) : x.requestTag.Serves := by
  cases x <;> exact ⟨⟨nofun, nofun, nofun, nofun, rfl⟩, nofun, nofun⟩

/-! ## One call -/

/-- How a value is delivered goes by the terms of the association. -/
theorem Told.Heard.of_terms {s s' t : Server σ π M} {i : InvokeId} {r : Response} {told : Told}
    (h : told.Heard s t i r) (hconfig : s.config = s'.config)
    (hpdu : s.clientMaxPduSize = s'.clientMaxPduSize) (hneg : s.negotiated = s'.negotiated) :
    told.Heard s' t i r := by
  have hover : s.protectionOverhead = s'.protectionOverhead := by
    unfold Server.protectionOverhead
    rw [hconfig]
  have hfits : s.fitsOne = s'.fitsOne := by
    unfold Server.fitsOne
    rw [hover, hpdu]
  have hmax : s.maxFragment = s'.maxFragment := by
    unfold Server.maxFragment
    rw [hover, hpdu]
  have delivers {i : InvokeId} {service : Outbound} {header n : Nat} {v : Bytes} {Whole : Response → Prop}
      (h : s.Delivers t i service header n v Whole r) : s'.Delivers t i service header n v Whole r := by
    cases h with
    | whole h₁ h₂ => exact .whole (hfits ▸ h₁) h₂
    | block h₁ h₂ h₃ h₄ h₅ =>
      exact .block (hfits ▸ h₁) (hneg ▸ h₂) (hmax ▸ h₃) (hmax ▸ h₄) (hmax ▸ h₅)
    | refused h₁ h₂ h₃ => exact .refused (hfits ▸ h₁) (hneg ▸ h₂) h₃
    | aborted h₁ h₂ h₃ h₄ => exact .aborted (hfits ▸ h₁) (hneg ▸ h₂) (hmax ▸ h₃) h₄
  match told with
  | .get (.ok _) | .action (.ok (some _)) | .read _ => exact delivers h
  | .get (.error _) | .set _ | .action (.error _) | .action (.ok none) | .write _ => exact h

/-- The store writes what is a value. -/
def ObjectStore.WritesValues (S : ObjectStore σ) (N : Nat) : Prop :=
  ∀ st entry v, (S.perform N st (.read entry)).outcome = .read (.ok v) →
    ∃ d, Read.fromBytes Data.decode v = .ok d

/-- The server stays where it is for the other end. -/
structure Server.Holds (s t : Server σ π M) : Prop where
  config : t.config = s.config
  protector : t.protector = s.protector
  clientSystemTitle : t.clientSystemTitle = s.clientSystemTitle
  peerReplay : t.peerReplay = s.peerReplay
  clientMaxPduSize : t.clientMaxPduSize = s.clientMaxPduSize

theorem Server.Holds.delivering :
    Server.Delivering (Server.Holds : Server σ π M → Server σ π M → Prop) where
  refl _ := ⟨rfl, rfl, rfl, rfl, rfl⟩
  trans _ _ _ h h' := ⟨h'.config.trans h.config, h'.protector.trans h.protector,
    h'.clientSystemTitle.trans h.clientSystemTitle, h'.peerReplay.trans h.peerReplay,
    h'.clientMaxPduSize.trans h.clientMaxPduSize⟩
  marked h := ⟨h.config, h.protector, h.clientSystemTitle, h.peerReplay, h.clientMaxPduSize⟩
  emitted h := by
    obtain ⟨scratch, counter, ev, rfl, -⟩ := h
    exact ⟨rfl, rfl, rfl, rfl, rfl⟩

/-- What a session asks of a server that it is linked to: an operation with values of its own, under a
service that was agreed on. A read needs room for the byte that says whether there is a value. -/
structure Server.Offers (s : Server σ π M) (x : Single) : Prop where
  whole : x.Whole
  agreed : s.negotiated.contains x.required = true
  room : ∀ entry, x = .read entry → 2 ≤ M

/-- The request is no longer than the server takes. -/
def Server.Takes (s : Server σ π M) (bytes : Bytes) : Prop :=
  bytes.length ≤ s.config.maxPduSize.toNat ∧ bytes.length ≤ M

/-- A request that arrives has the operation performed, and its reply tells the client of it. -/
theorem Linked.call {c c' : ClientSession π N} {s : Server σ π M} (h : Linked C c s)
    (hS : S.SeesRequests) (hvalues : S.WritesValues M) (hstate : s.state = .associated)
    (hidle : s.Agreed) {x : Single} (hx : s.Offers x) {room : Nat} {bytes : Bytes}
    (hask : x.ask C room c = (.ok bytes, c')) (htakes : s.Takes bytes) (room' : Nat) (rng : Entropy) :
    let r := S.perform M s.store x
    let after := Srv.handle C S bytes room' rng s
    Linked C c' after.2 ∧ after.2.Agreed ∧ after.2.state = s.state ∧
      after.2.negotiated = s.negotiated ∧ after.2.config = s.config ∧
      after.2.clientMaxPduSize = s.clientMaxPduSize ∧ after.2.store = r.store ∧
      after.2.calls = s.calls ++ r.calls.map StoreCall.unplaced ∧
      ∀ reply size, after.1 = .ok reply → reply.length ≤ size →
        c'.Hears C reply size after.2 fun resp =>
          ∃ i, (r.outcome.placed → c'.outstanding = some i) ∧ r.outcome.Heard s after.2 i resp := by
  intro r after
  obtain ⟨i, invokeId, outstanding, hsend, hid, hencodes⟩ := Single.ask_ok hask
  have hasked : Linked C { c with invokeId, outstanding } s :=
    h.of_client rfl rfl rfl rfl (Nat.le_refl _)
  obtain ⟨req, s₁, ⟨x', hasks, hunplaced⟩, hbrings, hlinked⟩ := hasked.brings hsend (x.request_head i)
    x.requestTag_serves (fun hw => x.request_restores i hx.whole (Single.written hencodes hw))
    (.inl hstate) htakes.1 htakes.2
  have houtstanding : c'.outstanding = outstanding := by
    obtain ⟨-, counter, trace, rfl, -⟩ := Cli.send_sent hasked.client hsend
    rfl
  have hplaced : r.outcome.placed → c'.outstanding = some i := by
    rw [houtstanding]
    cases x with
    | read | write => exact False.elim
    | _ => exact fun _ => hid trivial
  have hrequired : x'.required = x.required := by
    cases x <;> cases x' <;> first | rfl | cases hunplaced
  have hread : ∀ entry, x' = .read entry → 2 ≤ M := by
    rintro entry rfl
    cases x with
    | read entry' => exact hx.room entry' rfl
    | _ => cases hunplaced
  have hs₁ := Server.Untouched.of_brings hbrings
  obtain ⟨m, hreport, hrun⟩ := hasks.served (C := C) (S := S) (hs₁.state.trans hstate)
    (by rw [hs₁.negotiated, hrequired]; exact hx.agreed) hread room'
  have hlike : (S.perform M s₁.store x').Like r := by
    rw [hs₁.store]
    exact hS.perform_like s.store hunplaced
  generalize hu : ({ s₁ with transfer := .idle } : Server σ π M).asked (S.perform M s₁.store x').store
    (S.perform M s₁.store x').calls = u at hrun
  rw [hlike.outcome] at hreport
  have hserved : after = m u := (hbrings.handle S room' rng).trans hrun
  have hkeeps : Server.Untouched u after.2 := hserved ▸ (hreport.keeps Server.Untouched.delivering).run u
  have hholds : Server.Holds u after.2 := hserved ▸ (hreport.keeps Server.Holds.delivering).run u
  obtain ⟨huntouched, hconfig, hpdu, hulinked, hrises⟩ : (u.state = s.state ∧ u.negotiated = s.negotiated ∧
      u.store = r.store ∧ u.calls = s.calls ++ r.calls.map StoreCall.unplaced) ∧ u.config = s.config ∧
      u.clientMaxPduSize = s.clientMaxPduSize ∧ Linked C c' u ∧
      u.invocationCounter.last.toNat ≤ after.2.invocationCounter.last.toNat := by
    have hrises := (Server.step_rises C S (.handle bytes room' rng) hidle).le
    obtain ⟨w, ev, rfl, -⟩ := hbrings.after
    subst hu
    refine ⟨⟨hs₁.state, hs₁.negotiated, hlike.store, ?_⟩, rfl, rfl,
      hlinked.of_server rfl rfl rfl rfl (Nat.le_refl _), hrises⟩
    rw [Server.calls_asked, hlike.calls]
    exact congrArg (· ++ _) hs₁.calls
  obtain ⟨hust, huneg, hustore, hucalls⟩ := huntouched
  refine ⟨?_, Server.step_agreed C S (.handle bytes room' rng) hidle, hkeeps.state.trans hust,
    hkeeps.negotiated.trans huneg, hholds.config.trans hconfig, hholds.clientMaxPduSize.trans hpdu,
    hkeeps.store.trans hustore, hkeeps.calls.trans hucalls, ?_⟩
  · exact hulinked.of_server hholds.config hholds.protector hholds.clientSystemTitle hholds.peerReplay hrises
  · intro reply size hreply hsize
    have hsent : m u = (.ok reply, after.2) := hserved.symm.trans (Prod.ext hreply rfl)
    refine (hreport.heard hulinked hplaced (fun v hv => ?_) hsent hsize).mono
      fun resp hresp => ⟨i, hplaced, hresp.of_terms hconfig hpdu huneg⟩
    cases x with
    | read entry => exact hvalues s.store entry v hv
    | _ => cases hv

/-! ## Calls one after another -/

/-- Calls of a client, over a wire that may lose messages. What is kept of them are the operations whose
requests reached the server, and what the client made of each reply that reached it. -/
inductive Calls (C : CryptoProvider π) (S : ObjectStore σ) (size : Nat) :
    ClientSession π N → Server σ π M → List (Single × Option (Result Response)) → ClientSession π N →
      Server σ π M → Prop
  | done (c : ClientSession π N) (s : Server σ π M) : Calls C S size c s [] c s
  | lost {c c₁ c' : ClientSession π N} {s s' : Server σ π M} {x : Single} {room : Nat} {bytes : Bytes}
    {log : List (Single × Option (Result Response))} : x.ask C room c = (.ok bytes, c₁) →
    Calls C S size c₁ s log c' s' → Calls C S size c s log c' s'
  | unheard {c c₁ c' : ClientSession π N} {s s' : Server σ π M} {x : Single} {room : Nat} {bytes : Bytes}
    {log : List (Single × Option (Result Response))} (room' : Nat) (rng : Entropy) :
    x.ask C room c = (.ok bytes, c₁) → s.Takes bytes →
    Calls C S size c₁ (Srv.handle C S bytes room' rng s).2 log c' s' →
    Calls C S size c s ((x, none) :: log) c' s'
  | heard {c c₁ c' : ClientSession π N} {s s' : Server σ π M} {x : Single} {room : Nat}
    {bytes reply : Bytes} {log : List (Single × Option (Result Response))} (room' : Nat) (rng : Entropy) :
    x.ask C room c = (.ok bytes, c₁) → s.Takes bytes →
    (Srv.handle C S bytes room' rng s).1 = .ok reply → reply.length ≤ size →
    Calls C S size (Cli.handleResponse C reply size c₁).2 (Srv.handle C S bytes room' rng s).2 log c' s' →
    Calls C S size c s ((x, some (Cli.handleResponse C reply size c₁).1) :: log) c' s'

/-- The client heard what the operation came to, if it heard anything. -/
def Told.HeardBy (s : Server σ π M) (call : Single × Option (Result Response)) (told : Told) : Prop :=
  ∀ resp, call.2 = some resp → ∃ r t i, resp = .ok r ∧ told.Heard s t i r

theorem Linked.lost {c c' : ClientSession π N} {s : Server σ π M} (h : Linked C c s) {x : Single}
    {room : Nat} {bytes : Bytes} (hask : x.ask C room c = (.ok bytes, c')) : Linked C c' s := by
  obtain ⟨i, invokeId, outstanding, hsend, -⟩ := Single.ask_ok hask
  have hasked : Linked C { c with invokeId, outstanding } s :=
    h.of_client rfl rfl rfl rfl (Nat.le_refl _)
  obtain ⟨-, counter, trace, rfl, hsent⟩ := Cli.send_sent hasked.client hsend
  exact hasked.of_client rfl rfl rfl rfl hsent.rises

/-- Over ends that are linked, a store that goes by what it is asked is left as the operations that
reached it leave it, each performed once and in the order in which they were asked for, and the client
hears of each what it came to, or nothing. The ends stay linked. -/
theorem calls_perform (hS : S.SeesRequests) (hvalues : S.WritesValues M) {size : Nat}
    {c c' : ClientSession π N} {s s' : Server σ π M} {log : List (Single × Option (Result Response))}
    (hl : Linked C c s) (hstate : s.state = .associated) (hs : s.Agreed)
    (hlog : ∀ call ∈ log, s.Offers call.1) (hcalls : Calls C S size c s log c' s') :
    let each := S.each M s.store (log.map Prod.fst)
    Linked C c' s' ∧ s'.state = .associated ∧ s'.store = each.store ∧
      s'.calls = s.calls ++ each.calls.map StoreCall.unplaced ∧
      List.Forall₂ (Told.HeardBy s) log each.outcome := by
  induction hcalls with
  | done c s => exact ⟨hl, hstate, rfl, (List.append_nil _).symm, .nil⟩
  | lost hask _ ih => exact ih (hl.lost hask) hstate hs hlog
  | @unheard c c₁ c' s s' x room bytes log room' rng hask htakes _ ih =>
    obtain ⟨hlinked, hagreed, hst, hneg, hconfig, hpdu, hstore, hcalls, -⟩ := hl.call hS hvalues hstate hs
      (hlog _ List.mem_cons_self) hask htakes room' rng
    obtain ⟨hlinked', hst', hstore', hcalls', hheard⟩ := ih hlinked (hst.trans hstate) hagreed
      fun call hcall => by
        obtain ⟨hw, ha, hr⟩ := hlog call (List.mem_cons_of_mem _ hcall)
        exact ⟨hw, by rw [hneg]; exact ha, hr⟩
    rw [hstore] at hstore' hcalls' hheard
    refine ⟨hlinked', hst', hstore', ?_, .cons nofun (hheard.imp fun _ _ h resp hresp => ?_)⟩
    · rw [hcalls', hcalls, List.append_assoc, ← List.map_append]
      rfl
    · obtain ⟨r, t, i, hr, hh⟩ := h resp hresp
      exact ⟨r, t, i, hr, hh.of_terms hconfig hpdu hneg⟩
  | @heard c c₁ c' s s' x room bytes reply log room' rng hask htakes hreply hsize _ ih =>
    obtain ⟨-, hagreed, hst, hneg, hconfig, hpdu, hstore, hcalls, hears⟩ := hl.call hS hvalues hstate hs
      (hlog _ List.mem_cons_self) hask htakes room' rng
    obtain ⟨r, w, trace, ⟨i, -, hr⟩, hrun, hlinked⟩ := hears reply size hreply hsize
    rw [hrun] at ih
    obtain ⟨hlinked', hst', hstore', hcalls', hheard⟩ := ih hlinked (hst.trans hstate) hagreed
      fun call hcall => by
        obtain ⟨hw, ha, hr⟩ := hlog call (List.mem_cons_of_mem _ hcall)
        exact ⟨hw, by rw [hneg]; exact ha, hr⟩
    rw [hstore] at hstore' hcalls' hheard
    refine ⟨hlinked', hst', hstore', ?_, .cons ?_ (hheard.imp fun _ _ h resp hresp => ?_)⟩
    · rw [hcalls', hcalls, List.append_assoc, ← List.map_append]
      rfl
    · intro resp hresp
      obtain rfl := Option.some.inj hresp
      exact ⟨r, _, i, congrArg Prod.fst hrun, hr⟩
    · obtain ⟨r, t, i, hr, hh⟩ := h resp hresp
      exact ⟨r, t, i, hr, hh.of_terms hconfig hpdu hneg⟩

/-! ## A protected association -/

def calledTitle : SystemTitle := ⟨[0x4D, 0x4D, 0x4D, 0, 0, 0, 0, 2], rfl⟩

/-- A client that authenticates and encrypts. -/
def callingSession : ClientSession SampleKeys 64 :=
  { ClientSession.new 64 { systemTitle := some sampleTitle, security := samplePolicy } .involutive with
    state := .associated
    serverSystemTitle := some calledTitle }

/-- Its server. -/
def calledServer : Server Unit SampleKeys 64 :=
  { Server.new 64 { systemTitle := some calledTitle, security := samplePolicy } () .involutive with
    state := .associated
    negotiated := .serverDefault
    clientSystemTitle := some sampleTitle }

theorem calling_linked : Linked sampleProvider callingSession calledServer where
  client := rfl
  server := rfl
  same := rfl
  requests _ := ⟨rfl, rfl, sampleProvider_inverts _ rfl, fun _ h => h, nofun⟩
  answers _ := ⟨rfl, rfl, sampleProvider_inverts _ rfl, fun _ h => h, nofun⟩

/-- It has no short names. -/
theorem stubbornStore_writesValues (N : Nat) : stubbornStore.WritesValues N := by
  intro st entry v h
  cases entry <;> cases h

/-- The clock is read twice, and the first reply is lost. -/
theorem calls_perform_clocks : ∃ c' s',
    Calls sampleProvider stubbornStore 64 callingSession calledServer
      [(.get clockTime none, none), (.get clockTime none, some (.ok (.data .null)))] c' s' ∧
    Linked sampleProvider c' s' ∧ s'.calls.length = 6 := by
  let clock := Single.get clockTime none
  let log : List (Single × Option (Result Response)) := [(clock, none), (clock, some (.ok (.data .null)))]
  let first : Bytes := [0xC8, 0x1E, 0x30, 0x00, 0x00, 0x00, 0x01, 0x40, 0x81, 0xC1, 0x80, 0x88, 0x80, 0x80,
    0x81, 0x80, 0x80, 0x7F, 0x82, 0x80, 0xCD, 0x7C, 0x9F, 0xD5, 0x16, 0x11, 0x40, 0x43, 0x66, 0xBC, 0x1F, 0x41]
  let second : Bytes := [0xC8, 0x1E, 0x30, 0x00, 0x00, 0x00, 0x02, 0x40, 0x81, 0xC2, 0x80, 0x88, 0x80, 0x80,
    0x81, 0x80, 0x80, 0x7F, 0x82, 0x80, 0x2E, 0x4C, 0x50, 0x3E, 0xC5, 0x7C, 0xFD, 0x6C, 0xA6, 0x52, 0x38, 0x43]
  let reply : Bytes := [0xCC, 0x16, 0x30, 0x00, 0x00, 0x00, 0x02, 0x44, 0x81, 0xC2, 0x80, 0x80, 0x88, 0x16,
    0x01, 0x6C, 0x23, 0x2F, 0x58, 0x70, 0xD2, 0xBC, 0x66, 0x36]
  let c₁ := (clock.ask sampleProvider 64 callingSession).2
  let s₁ := (Srv.handle sampleProvider stubbornStore first 64 .zeros calledServer).2
  let c₂ := (clock.ask sampleProvider 64 c₁).2
  let s₂ := (Srv.handle sampleProvider stubbornStore second 64 .zeros s₁).2
  have run {c : ClientSession SampleKeys 64} {bytes : Bytes}
      (h : (clock.ask sampleProvider 64 c).1 = .ok bytes) :
      clock.ask sampleProvider 64 c = (.ok bytes, (clock.ask sampleProvider 64 c).2) := by rw [← h]
  have hfirst : clock.ask sampleProvider 64 callingSession = (.ok first, c₁) := run (by decide +kernel)
  have hsecond : clock.ask sampleProvider 64 c₁ = (.ok second, c₂) := run (by decide +kernel)
  have hresp : (Cli.handleResponse sampleProvider reply 64 c₂).1 = .ok (.data .null) := by decide +kernel
  have hcalls : Calls sampleProvider stubbornStore 64 callingSession calledServer log
      (Cli.handleResponse sampleProvider reply 64 c₂).2 s₂ := by
    change Calls _ _ _ _ _ [(clock, none), (clock, some (.ok (.data .null)))] _ _
    rw [← hresp]
    exact .unheard 64 .zeros hfirst ⟨by decide +kernel, by decide⟩ (.heard 64 .zeros hsecond
      ⟨by decide +kernel, by decide⟩ (by decide +kernel) (by decide) (.done _ _))
  have hlog : ∀ call ∈ log, calledServer.Offers call.1 := by
    intro call hcall
    have hclock : call.1 = clock := by
      simp only [log, List.mem_cons, List.not_mem_nil, or_false] at hcall
      obtain rfl | rfl := hcall <;> rfl
    rw [hclock]
    exact ⟨nofun, by decide +kernel, nofun⟩
  obtain ⟨hlinked, -, -, hsent, -⟩ := calls_perform stubbornStore_seesRequests
    (stubbornStore_writesValues 64) calling_linked (by decide +kernel) trivial hlog hcalls
  exact ⟨_, _, hcalls, hlinked, by rw [hsent]; decide +kernel⟩

end Dlms
