import DlmsCosem.Client.Blocks
import DlmsCosem.Client.Walks

/-!
# Answers and what was asked

A client asks one thing at a time. From the trace of a session one can tell which request is pending:
the last that went out, until its final answer is returned. `Matched` says what is to be of a trace:
every answer that was returned is one to the request that was pending then, and a GET was continued
only while one was.

`handleResponse` compares the short ids, where the session has one outstanding and the response has
one, and nothing else; and nothing takes back what is outstanding. So a trace is matched where each
response is `Awaited`.
-/

namespace Dlms

/-! ## Requests and answers -/

/-- The services that are asked for and answered. -/
inductive Service
  | get
  | set
  | action
  | access
  | read
  | write
  deriving Repr, DecidableEq

/-- The service has a short invoke id. -/
def Service.hasId : Service → Bool
  | get | set | action => true
  | access | read | write => false

namespace Apdu

/-- The service that a request asks for an answer of. -/
def asks : Apdu → Option Service
  | getRequest _ => some .get
  | setRequest _ => some .set
  | actionRequest _ => some .action
  | accessRequest _ => some .access
  | readRequest _ => some .read
  | writeRequest _ => some .write
  | _ => none

/-- The service that a response answers for. -/
def answers : Apdu → Option Service
  | getResponse _ => some .get
  | setResponse _ => some .set
  | actionResponse _ => some .action
  | accessResponse _ => some .access
  | readResponse _ => some .read
  | writeResponse _ => some .write
  | _ => none

/-- The short id of a request. -/
def requestInvokeId : Apdu → Option InvokeId
  | getRequest (.normal i _ _) | getRequest (.next i _) | getRequest (.withList i _) => some i
  | setRequest (.normal i _ _ _) | setRequest (.withFirstDataBlock i _ _ _)
  | setRequest (.withDataBlock i _) | setRequest (.withList i _ _)
  | setRequest (.withListAndFirstDataBlock i _ _) => some i
  | actionRequest (.normal i _ _) | actionRequest (.nextPblock i _) | actionRequest (.withList i _ _)
  | actionRequest (.withFirstPblock i _ _) | actionRequest (.withListAndFirstPblock i _ _)
  | actionRequest (.withPblock i _) => some i
  | _ => none

/-- The long id of an ACCESS request or response. -/
def longInvokeId : Apdu → Option LongInvokeId
  | accessRequest q => some q.longInvokeId
  | accessResponse q => some q.longInvokeId
  | _ => none

/-- The response is not the last to its request: a block that more follow, or one that more may
follow. -/
def more : Apdu → Bool
  | getResponse (.withDataBlock _ b) => !b.lastBlock
  | actionResponse (.withPblock _ b) => !b.lastBlock
  | setResponse (.dataBlock _ _) => true
  | actionResponse (.nextPblock _ _) => true
  | _ => false

theorem requestInvokeId_isSome {q : Apdu} {service : Service} (h : q.asks = some service) :
    q.requestInvokeId.isSome = service.hasId := by
  cases q with
  | getRequest r => obtain rfl := Option.some.inj h; cases r <;> rfl
  | setRequest r => obtain rfl := Option.some.inj h; cases r <;> rfl
  | actionRequest r => obtain rfl := Option.some.inj h; cases r <;> rfl
  | accessRequest r => obtain rfl := Option.some.inj h; rfl
  | readRequest r => obtain rfl := Option.some.inj h; rfl
  | writeRequest r => obtain rfl := Option.some.inj h; rfl
  | _ => cases h

theorem responseInvokeId_isSome {d : Apdu} {service : Service} (h : d.answers = some service) :
    d.responseInvokeId.isSome = service.hasId := by
  cases d with
  | getResponse r => obtain rfl := Option.some.inj h; cases r <;> rfl
  | setResponse r => obtain rfl := Option.some.inj h; cases r <;> rfl
  | actionResponse r => obtain rfl := Option.some.inj h; cases r <;> rfl
  | accessResponse r => obtain rfl := Option.some.inj h; rfl
  | readResponse r => obtain rfl := Option.some.inj h; rfl
  | writeResponse r => obtain rfl := Option.some.inj h; rfl
  | _ => cases h

end Apdu

/-- `d` answers `q`: it is of its service, and has its id where the service has one. -/
structure Answers (q d : Apdu) : Prop where
  service : d.answers = q.asks
  id : d.responseInvokeId.map InvokeId.id = q.requestInvokeId.map InvokeId.id
  longId : d.longInvokeId.map LongInvokeId.id = q.longInvokeId.map LongInvokeId.id

/-! ## What is pending -/

/-- The request that is pending after an event. -/
def ClientEvent.pendingAfter (pending : Option Apdu) : ClientEvent → Option Apdu
  | .sent q _ => if q.asks.isSome then some q else pending
  | .returned d _ => if d.answers.isSome && !d.more then none else pending
  | .authenticated _ => none
  | .protecting _ _ => pending

/-- The request whose final answer is still to come. -/
def pending (trace : List ClientEvent) : Option Apdu := trace.foldl ClientEvent.pendingAfter none

/-- What an event has to be where `q` is pending. -/
def ClientEvent.Fits (q : Option Apdu) : ClientEvent → Prop
  | .returned d _ => d.answers.isSome = true → ∃ request, q = some request ∧ Answers request d
  | .sent (.getRequest (.next _ _)) _ => q ≠ none
  | _ => True

/-- Every answer is one to the request that was pending, and a GET was continued only while one was. -/
def Matched (trace : List ClientEvent) : Prop :=
  ∀ past e rest, trace = past ++ e :: rest → e.Fits (pending past)

theorem Matched.nil : Matched [] := fun past e rest h => by simp at h

theorem Matched.concat {trace : List ClientEvent} {e : ClientEvent} (h : Matched trace)
    (he : e.Fits (pending trace)) : Matched (trace ++ [e]) := by
  intro past e' rest heq
  cases rest using List.reverseRecOn with
  | nil =>
    obtain ⟨rfl, hlast⟩ := List.append_inj' heq rfl
    obtain rfl := List.singleton_inj.mp hlast
    exact he
  | append_singleton rest last =>
    rw [← List.cons_append, ← List.append_assoc] at heq
    exact h past e' rest (List.append_inj' heq rfl).1

theorem Matched.last {trace : List ClientEvent} {e : ClientEvent} (h : Matched trace)
    (he : trace.getLast? = some e) : e.Fits (pending trace.dropLast) :=
  h trace.dropLast e [] (List.dropLast_append_getLast? e he).symm

/-- Events that fit whatever is pending. -/
theorem Matched.append {trace es : List ClientEvent} (h : Matched trace)
    (hes : ∀ e ∈ es, ∀ q, e.Fits q) : Matched (trace ++ es) := by
  induction es using List.reverseRecOn with
  | nil => rwa [List.append_nil]
  | append_singleton es e ih =>
    rw [← List.append_assoc]
    exact (ih fun e' he' => hes e' (List.mem_append_left _ he')).concat (hes e (by simp) _)

namespace ClientSession

variable {π : Type} {N : Nat}

/-- What was added to the trace fits whatever is pending. -/
def Unasked (s t : ClientSession π N) : Prop :=
  ∃ es, t.trace = s.trace ++ es ∧ ∀ e ∈ es, ∀ q, e.Fits q

theorem Unasked.refl (s : ClientSession π N) : s.Unasked s := ⟨[], by simp, by simp⟩

theorem Unasked.matched {s t : ClientSession π N} (h : s.Unasked t) (hs : Matched s.trace) :
    Matched t.trace := by
  obtain ⟨es, htrace, hes⟩ := h
  rw [htrace]
  exact hs.append hes

theorem Unasked.log {s : ClientSession π N} {e : ClientEvent} (h : ∀ q, e.Fits q) :
    s.Unasked (s.log e) := by
  refine ⟨[e], rfl, fun e' he' => ?_⟩
  rw [List.mem_singleton.mp he']
  exact h

theorem Unasked.stable : Stable (Unasked : ClientSession π N → ClientSession π N → Prop) where
  trans s t u h h' := by
    obtain ⟨es, ht, hes⟩ := h
    obtain ⟨es', hu, hes'⟩ := h'
    refine ⟨es ++ es', by rw [hu, ht, List.append_assoc], fun e he => ?_⟩
    obtain he | he := List.mem_append.mp he
    · exact hes e he
    · exact hes' e he
  same s t ht _ _ := ⟨[], by rw [ht, List.append_nil], by simp⟩
  guarded s t h := by
    cases h with
    | refused | spent => exact Unasked.refl _
    | taken => exact Unasked.log (s := { s with invocationCounter := _ }) fun _ => trivial
  sent s a bytes ha := by
    refine Unasked.log fun q => ?_
    unfold ClientEvent.Fits
    split
    · rename_i heq
      cases heq
    · rename_i i n bytes' heq
      obtain ⟨rfl, -⟩ := ClientEvent.sent.inj heq
      exact ha.elim
    · trivial
  authenticated s a := Unasked.log fun _ => trivial

/-! ## What a response has to be -/

variable (C : CryptoProvider π)

/-- The APDU in what came in, its protection taken off. -/
def opened (s : ClientSession π N) (apdu : Bytes) (size : Nat) : Result Apdu :=
  ((do Prog.ofExcept (Apdu.fromBytes (← Cli.unprotectInto C apdu size)) : Cli π N Apdu) s).1

/-- A request is pending that `d` is of the service of, and of the long id where it has one; and the
session still has the short id of that request outstanding. -/
def Expects (s : ClientSession π N) (d : Apdu) : Prop :=
  ∃ q, pending s.trace = some q ∧ d.answers = q.asks ∧
    d.longInvokeId.map LongInvokeId.id = q.longInvokeId.map LongInvokeId.id ∧
    s.outstanding.map InvokeId.id = q.requestInvokeId.map InvokeId.id

/-- A response comes while it is expected, or has a short id that shows that it is not; a GET is
continued while a request is pending, or where no id shows that one ever was. -/
def Awaits (s : ClientSession π N) : ClientOp → Prop
  | .handleResponse apdu size => ∀ d, s.opened C apdu size = .ok d → d.answers.isSome = true →
    s.Expects d ∨ d.misdirected s.outstanding = true
  | .getNextBlockRequest _ _ => pending s.trace ≠ none ∨ s.outstanding = none
  | _ => True

variable {C}

/-- An expected response that is not misdirected answers the pending request. -/
theorem Expects.answers {s : ClientSession π N} {d : Apdu} (h : s.Expects d)
    (hd : d.answers.isSome = true) (hid : d.misdirected s.outstanding = false) :
    ∃ q, pending s.trace = some q ∧ Answers q d := by
  obtain ⟨q, hq, hservice, hlong, hout⟩ := h
  obtain ⟨service, hs⟩ := Option.isSome_iff_exists.mp hd
  refine ⟨q, hq, hservice, ?_, hlong⟩
  rw [← hout]
  have hr := Apdu.responseInvokeId_isSome hs
  have hqs := Apdu.requestInvokeId_isSome (hservice ▸ hs)
  rw [← Option.isSome_map (f := InvokeId.id), ← hout, Option.isSome_map] at hqs
  unfold Apdu.misdirected at hid
  cases ho : s.outstanding with
  | none =>
    rw [ho] at hqs
    rw [← hqs] at hr
    rw [Option.isSome_eq_false_iff.mp hr |> Option.isNone_iff_eq_none.mp]
  | some asked =>
    rw [ho] at hqs hid
    rw [← hqs] at hr
    obtain ⟨got, hgot⟩ := Option.isSome_iff_exists.mp hr
    rw [hgot] at hid ⊢
    simpa using hid

/-- What `handleResponse` may do: it refuses, or it returns a response that is not misdirected. -/
theorem handleResponse_run (C : CryptoProvider π) (apdu : Bytes) (size : Nat) (s : ClientSession π N) :
    (∃ e t, Cli.handleResponse C apdu size s = (.error e, t) ∧ t.trace = s.trace) ∨
    ∃ d r t, Cli.handleResponse C apdu size s = (.ok r, t) ∧ s.opened C apdu size = .ok d ∧
      d.misdirected s.outstanding = false ∧ t.trace = s.trace ++ [.returned d r] := by
  unfold Cli.handleResponse opened
  have hsame : (Cli.unprotectInto C apdu size s).2.trace = s.trace ∧
      (Cli.unprotectInto C apdu size s).2.outstanding = s.outstanding := ⟨rfl, rfl⟩
  match hu : Cli.unprotectInto C apdu size s with
  | (.error e, t) =>
    rw [hu] at hsame
    exact .inl ⟨e, t, Prog.bind_run_error hu, hsame.1⟩
  | (.ok plain, t) =>
    rw [hu] at hsame
    rw [Prog.bind_run_ok hu, Prog.bind_run_ok hu]
    simp only [Prog.ofExcept_run]
    cases hd : Apdu.fromBytes plain with
    | error e => exact .inl ⟨e, t, rfl, hsame.1⟩
    | ok d =>
      simp only [Prog.ofExcept_ok, Prog.pure_bind_run, Prog.gets_bind_run]
      rw [hsame.2]
      cases hm : d.misdirected s.outstanding with
      | true => exact .inl ⟨_, t, rfl, hsame.1⟩
      | false =>
        simp only [Bool.false_eq_true, if_false]
        cases hr : d.response with
        | error e => exact .inl ⟨e, t, rfl, hsame.1⟩
        | ok r =>
          refine .inr ⟨d, r, _, rfl, rfl, hm, ?_⟩
          change (if r = .released then ({ t with state := .closed } : ClientSession π N) else t).trace ++
            [ClientEvent.returned d r] = _
          split <;> rw [← hsame.1]

theorem Protected.unasked {s t : ClientSession π N} (h : s.Protected t) :
    s.Unasked t ∧ pending t.trace = pending s.trace := by
  refine ⟨Unasked.stable.guarded s t h, ?_⟩
  cases h with
  | refused | spent => rfl
  | taken => simp [ClientSession.log, pending, ClientEvent.pendingAfter]

/-- A GET is continued under the outstanding id, where there is one. -/
theorem getNextBlockRequest_run (C : CryptoProvider π) (n : UInt32) (room : Nat)
    (s : ClientSession π N) :
    (∃ e t, Cli.getNextBlockRequest C n room s = (.error e, t) ∧ s.Protected t) ∨
    ∃ i t bytes, s.outstanding = some i ∧ s.Protected t ∧
      Cli.getNextBlockRequest C n room s =
        (.ok bytes, t.log (.sent (.getRequest (.next i n)) bytes)) := by
  unfold Cli.getNextBlockRequest
  obtain ⟨-, hreq⟩ | hreq := Cli.requireAssociated_run s
  · rw [Prog.bind_run_ok hreq]
    unfold Cli.outstandingId
    obtain ⟨i, hi, hneed⟩ | ⟨-, hneed⟩ := Cli.need_run s.outstanding .unexpectedMessage s
    · rw [Prog.bind_run_ok (m := Prog.gets ClientSession.outstanding >>= fun o => Cli.need o _) hneed]
      obtain ⟨t, ht, ⟨bytes, hsend⟩ | ⟨e, hsend⟩⟩ := Cli.send_run C (.getRequest (.next i n)) room s
      · exact .inr ⟨i, t, bytes, hi, ht, hsend⟩
      · exact .inl ⟨e, t, hsend, ht⟩
    · rw [Prog.bind_run_error (m := Prog.gets ClientSession.outstanding >>= fun o => Cli.need o _) hneed]
      exact .inl ⟨_, s, rfl, .refused⟩
  · rw [Prog.bind_run_error hreq]
    exact .inl ⟨_, s, rfl, .refused⟩

/-- One step under the condition. -/
theorem step_matched (C : CryptoProvider π) {s : ClientSession π N} {op : ClientOp}
    (h : Matched s.trace) (hop : s.Awaits C op) : Matched (s.step C op).trace := by
  by_cases hresp : ∃ apdu size, op = .handleResponse apdu size
  · obtain ⟨apdu, size, rfl⟩ := hresp
    obtain ⟨e, t, hrun, ht⟩ | ⟨d, r, t, hrun, hd, hid, ht⟩ := handleResponse_run C apdu size s
    · rw [step, hrun, ht]
      exact h
    · rw [step, hrun, ht]
      refine h.concat fun hservice => ?_
      obtain hexp | hmis := hop d hd hservice
      · exact hexp.answers hservice hid
      · rw [hid] at hmis
        cases hmis
  · by_cases hnext : ∃ n room, op = .getNextBlockRequest n room
    · obtain ⟨n, room, rfl⟩ := hnext
      obtain ⟨e, t, hrun, ht⟩ | ⟨i, t, bytes, hi, ht, hrun⟩ := getNextBlockRequest_run C n room s
      · rw [step, hrun]
        exact ht.unasked.1.matched h
      · rw [step, hrun]
        refine (ht.unasked.1.matched h).concat ?_
        rw [ht.unasked.2]
        obtain hp | hout := hop
        · exact hp
        · rw [hi] at hout
          cases hout
    · by_cases hset : ∃ value, op = .setInvocationCounter value
      · obtain ⟨value, rfl⟩ := hset
        exact h
      · exact (Unasked.stable.step C s op (fun n room he => hnext ⟨n, room, he⟩)
          (fun apdu size he => hresp ⟨apdu, size, he⟩) fun v he => hset ⟨v, he⟩).matched h

/-- In a run whose responses come while they are awaited, every answer that is returned is one to the
request that was pending. Once its final answer is returned, a copy of it is refused, and there is
nothing to continue. -/
theorem answers_matched (C : CryptoProvider π) (config : ClientConfig) (provider : π)
    (ops : List ClientOp)
    (hops : Run.Meeting (ClientSession.step C) (Awaits C) (.new N config provider) ops) :
    Matched (Run.after (ClientSession.step C) (.new N config provider) ops).trace ∧
    ∀ s, s = Run.after (ClientSession.step C) (.new N config provider) ops →
      pending s.trace = none →
      (∀ apdu size d, s.Awaits C (.handleResponse apdu size) → s.opened C apdu size = .ok d →
        d.answers.isSome = true → ∃ e, (Cli.handleResponse C apdu size s).1 = .error e) ∧
      ∀ n room, s.Awaits C (.getNextBlockRequest n room) →
        ∃ e, (Cli.getNextBlockRequest C n room s).1 = .error e := by
  have hstep : ∀ (s : ClientSession π N) op, Matched s.trace → s.Awaits C op →
      Matched (s.step C op).trace := fun _ _ => step_matched C
  refine ⟨hops.invariant hstep Matched.nil, ?_⟩
  rintro s - hnone
  refine ⟨fun apdu size d hop hd hservice => ?_, fun n room hop => ?_⟩
  · obtain ⟨e, t, hrun, -⟩ | ⟨d', r, t, hrun, hd', hid, -⟩ := handleResponse_run C apdu size s
    · exact ⟨e, by rw [hrun]⟩
    · obtain rfl := Except.ok.inj (hd.symm.trans hd')
      obtain ⟨q, hq, -⟩ | hmis := hop d hd hservice
      · rw [hnone] at hq
        cases hq
      · rw [hid] at hmis
        cases hmis
  · obtain ⟨e, t, hrun, -⟩ | ⟨i, t, bytes, hi, -, hrun⟩ := getNextBlockRequest_run C n room s
    · exact ⟨e, by rw [hrun]⟩
    · obtain hp | hout := hop
      · exact absurd hnone hp
      · rw [hi] at hout
        cases hout

/-! ### One GET -/

/-- The session after an association without protection, and then `ops`. -/
def sampleRun (ops : List ClientOp) : ClientSession SampleKeys 64 :=
  Run.after (ClientSession.step sampleProvider) (.new 64 {} .plain)
    ([.associateRequest 100 .zeros, .handleAssociateResponse BlockTransfer.sampleAare] ++ ops)

/-- A GET, and its answer. -/
def sampleGet : ClientOp := .getRequest BlockTransfer.sampleAttribute none 64

def sampleAnswer : ClientOp := .handleResponse [0xC4, 0x01, 0x41, 0x00, 0x00] 64

theorem answers_matched_sample : Matched (sampleRun [sampleGet, sampleAnswer]).trace := by
  refine (answers_matched sampleProvider {} .plain _ ?_).1
  have h2 : Run.Meeting (ClientSession.step sampleProvider) (Awaits sampleProvider)
      (.new 64 {} .plain) [.associateRequest 100 .zeros,
        .handleAssociateResponse BlockTransfer.sampleAare, sampleGet] :=
    ((Run.Meeting.nil.concat (ClientOp.associateRequest 100 .zeros) trivial).concat
      (ClientOp.handleAssociateResponse BlockTransfer.sampleAare) trivial).concat sampleGet trivial
  refine h2.concat sampleAnswer fun d hd _ => .inl ?_
  have hopened : (sampleRun [sampleGet]).opened sampleProvider [0xC4, 0x01, 0x41, 0x00, 0x00] 64 =
      .ok (.getResponse (.normal ⟨0x41⟩ (.data .null))) := by decide +kernel
  obtain rfl := Except.ok.inj (hopened.symm.trans hd)
  have hpending : pending (sampleRun [sampleGet]).trace =
      some (.getRequest (.normal ⟨0x41⟩ BlockTransfer.sampleAttribute none)) := by decide +kernel
  have hout : (sampleRun [sampleGet]).outstanding = some ⟨0x41⟩ := by decide +kernel
  exact ⟨_, hpending, rfl, rfl, congrArg (Option.map InvokeId.id) hout⟩

/-- A second copy of the answer, a continuation after it, an answer to a SET in its place, and an
answer to nothing at all. -/
theorem late_answers_returned :
    ¬ Matched (sampleRun [sampleGet, sampleAnswer, sampleAnswer]).trace ∧
    ¬ Matched (sampleRun [sampleGet, sampleAnswer, .getNextBlockRequest 1 64]).trace ∧
    ¬ Matched (sampleRun [sampleGet, .handleResponse [0xC5, 0x01, 0x41, 0x00] 64]).trace ∧
    ¬ Matched (sampleRun [sampleAnswer]).trace := by
  have returned {ops : List ClientOp} {d : Apdu} {r : Response}
      (hlast : (sampleRun ops).trace.getLast? = some (.returned d r)) (hd : d.answers.isSome = true)
      (hp : ∀ q, pending (sampleRun ops).trace.dropLast = some q → d.answers ≠ q.asks) :
      ¬ Matched (sampleRun ops).trace := by
    intro h
    obtain ⟨q, hq, hanswers⟩ := h.last hlast hd
    exact hp q hq hanswers.service
  refine ⟨returned (d := .getResponse (.normal ⟨0x41⟩ (.data .null))) (r := .data .null)
      (by decide +kernel) rfl ?_, ?_, returned (d := .setResponse (.normal ⟨0x41⟩ .success)) (r := .ok)
      (by decide +kernel) rfl ?_,
    returned (d := .getResponse (.normal ⟨0x41⟩ (.data .null))) (r := .data .null)
      (by decide +kernel) rfl ?_⟩
  · have hnone : pending (sampleRun [sampleGet, sampleAnswer, sampleAnswer]).trace.dropLast = none := by
      decide +kernel
    rw [hnone]
    rintro q hq
    cases hq
  · intro h
    have hlast : ((sampleRun [sampleGet, sampleAnswer, .getNextBlockRequest 1 64]).trace.getLast?.bind
        ClientEvent.request) = some (.getRequest (.next ⟨0x41⟩ 1)) := by decide +kernel
    obtain ⟨e, he, hreq⟩ := Option.bind_eq_some_iff.mp hlast
    cases e with
    | sent a bytes =>
      obtain rfl := Option.some.inj hreq
      have hfits : pending (sampleRun [sampleGet, sampleAnswer, .getNextBlockRequest 1 64]).trace.dropLast ≠
        none := h.last he
      exact hfits (by decide +kernel)
    | _ => cases hreq
  · have hget : pending (sampleRun [sampleGet, .handleResponse [0xC5, 0x01, 0x41, 0x00] 64]).trace.dropLast =
        some (.getRequest (.normal ⟨0x41⟩ BlockTransfer.sampleAttribute none)) := by decide +kernel
    rw [hget]
    rintro q hq
    obtain rfl := Option.some.inj hq
    decide
  · have hnone : pending (sampleRun [sampleAnswer]).trace.dropLast = none := by decide +kernel
    rw [hnone]
    rintro q hq
    cases hq

end ClientSession

end Dlms
