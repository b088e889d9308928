import DlmsCosem.Client.Session

/-!
# What the parts of a session's methods do

The parts that the methods share, each with all it may do to a session: taking a number, protecting a
message (`ClientSession.Protected`), sending a request (`Cli.send_run`).
-/

namespace Dlms

/-- The request of an event. -/
def ClientEvent.request : ClientEvent → Option Apdu
  | sent a _ => some a
  | _ => none

/-- The invoke id and the block of a request that carries one. -/
def Apdu.sentBlock : Apdu → Option (InvokeId × DataBlockSA)
  | setRequest (.withFirstDataBlock i _ _ b) | setRequest (.withDataBlock i b)
  | setRequest (.withListAndFirstDataBlock i _ b) => some (i, b)
  | actionRequest (.withFirstPblock i _ b) | actionRequest (.withPblock i b)
  | actionRequest (.withListAndFirstPblock i _ b) => some (i, b)
  | _ => none

/-- A sender's request carries its next block. -/
@[simp] theorem BlockSender.sentBlock_request (b : BlockSender) (i : InvokeId) :
    (b.request i).sentBlock = some (i, b.nextBlock) := by
  unfold BlockSender.request
  cases b.target <;> cases b.block == 0 <;> rfl

namespace ClientSession

variable {π : Type} {N : Nat}

/-- The requests that went out. -/
def requests (s : ClientSession π N) : List Apdu := s.trace.filterMap ClientEvent.request

/-- What protecting a message leaves of a session: nothing but a number is gone, where it got so far
with a message or without one. -/
inductive Protected (s : ClientSession π N) : ClientSession π N → Prop
  | refused : Protected s s
  | spent (value : UInt32) (c : InvocationCounter) : s.invocationCounter.next = .ok (value, c) →
    Protected s { s with invocationCounter := c }
  | taken (title : SystemTitle) (value : UInt32) (c : InvocationCounter) :
    s.config.systemTitle = some title → s.invocationCounter.next = .ok (value, c) →
    Protected s ({ s with invocationCounter := c }.log (.protecting title value))

theorem Protected.requests {s t : ClientSession π N} (h : s.Protected t) : t.requests = s.requests := by
  cases h with
  | refused | spent => rfl
  | taken => simp [ClientSession.requests, log, ClientEvent.request]

theorem Protected.config {s t : ClientSession π N} (h : s.Protected t) : t.config = s.config := by
  cases h <;> rfl

theorem Protected.outstanding {s t : ClientSession π N} (h : s.Protected t) :
    t.outstanding = s.outstanding := by
  cases h <;> rfl

end ClientSession

/-- A method of the session comes first. -/
theorem Sending.inSession_bind {π : Type} {N : Nat} {α β : Type} (m : Cli π N α)
    (f : α → Sending π N β) (b : BlockSender) :
    (onSession m >>= f).inSession b = m >>= fun a => (f a).inSession b := by
  funext s
  rw [Prog.bind_run]
  unfold inSession
  rw [Prog.bind_run]
  unfold onSession
  dsimp only
  match m s with
  | (.ok _, _) => rfl
  | (.error _, _) => rfl

theorem Sending.inSession_sender {π : Type} {N : Nat} {α : Type} (f : BlockSender → Sending π N α)
    (b : BlockSender) : inSession (Prog.gets Prod.snd >>= f) b = (f b).inSession b := rfl

namespace Cli

variable {π : Type} {N : Nat} (C : CryptoProvider π)

theorem encode_run (e : Emit) (room : Nat) (s : ClientSession π N) :
    encode e room s = (SliceWriter.encodeInto e (zeros room), s) := Prog.ofExcept_run ..

theorem need_run {α : Type} (a : Option α) (kind : ErrorKind) (s : ClientSession π N) :
    (∃ x, a = some x ∧ need a kind s = (.ok x, s)) ∨
      a = none ∧ need a kind s = (.error ⟨kind, 0⟩, s) := by
  cases a with
  | some x => exact .inl ⟨x, rfl, rfl⟩
  | none => exact .inr ⟨rfl, rfl⟩

theorem authKey_run (s : ClientSession π N) :
    (∃ key, authKey C s = (.ok key, s)) ∨ ∃ e, authKey C s = (.error e, s) := by
  obtain ⟨key, -, hrun⟩ | ⟨-, hrun⟩ :=
    need_run (C.authenticationKey s.protector.provider) .unsupported s
  · exact .inl ⟨key, hrun⟩
  · exact .inr ⟨_, hrun⟩

/-- A number is taken, or there is none. -/
theorem nextCounter_run (s : ClientSession π N) :
    (∃ value c, s.invocationCounter.next = .ok (value, c) ∧
      nextCounter s = (.ok value, { s with invocationCounter := c })) ∨
    ∃ e, s.invocationCounter.next = .error e ∧ nextCounter s = (.error e, s) := by
  unfold nextCounter
  rw [Prog.gets_bind_run]
  cases s.invocationCounter.next with
  | ok r => exact .inl ⟨r.1, r.2, rfl, rfl⟩
  | error e => exact .inr ⟨e, rfl, rfl⟩

theorem sendPlain_protected (plain : Bytes) (room : Nat) (s : ClientSession π N) :
    s.Protected (sendPlain C plain room s).2 := by
  unfold sendPlain
  rw [Prog.gets_bind_run]
  split
  · rw [encode_run]
    exact .refused
  · obtain ⟨title, htitle, hneed⟩ | ⟨-, hneed⟩ := need_run s.config.systemTitle .unexpectedMessage s
    · rw [Prog.bind_run_ok hneed]
      obtain ⟨value, c, hc, hnext⟩ | ⟨e, -, hnext⟩ := nextCounter_run s
      · rw [Prog.bind_run_ok hnext]
        simp only [log, Prog.gets_bind_run, Prog.modify_bind_run, Prog.ofExcept_run]
        exact .taken title value c htitle hc
      · rw [Prog.bind_run_error hnext]
        exact .refused
    · rw [Prog.bind_run_error hneed]
      exact .refused

/-- What `send` may do: the request goes out, or nothing does. -/
theorem send_run (apdu : Apdu) (room : Nat) (s : ClientSession π N) : ∃ t, s.Protected t ∧
    ((∃ bytes, send C apdu room s = (.ok bytes, t.log (.sent apdu bytes))) ∨
      ∃ e, send C apdu room s = (.error e, t)) := by
  unfold send
  match hplain : encode apdu.encode N s with
  | (.error e, s₁) =>
    rw [encode_run] at hplain
    obtain ⟨-, rfl⟩ := Prod.mk.inj hplain
    exact ⟨s, .refused, .inr ⟨e, by rw [Prog.bind_run_error]; rw [encode_run, hplain]⟩⟩
  | (.ok plain, s₁) =>
    rw [Prog.bind_run_ok hplain]
    rw [encode_run] at hplain
    obtain ⟨-, rfl⟩ := Prod.mk.inj hplain
    have hprot := sendPlain_protected C plain room s
    match hsend : sendPlain C plain room s with
    | (.error e, t) =>
      rw [hsend] at hprot
      exact ⟨t, hprot, .inr ⟨e, Prog.bind_run_error hsend⟩⟩
    | (.ok bytes, t) =>
      rw [hsend] at hprot
      exact ⟨t, hprot, .inl ⟨bytes, Prog.bind_run_ok hsend⟩⟩

/-- A block, as a method of the session: the sender is the caller's. -/
theorem nextBlockRequest_inSession (room : Nat) (b : BlockSender) :
    ((nextBlockRequest C room).inSession b : Cli π N Bytes) = (do
      requireAssociated
      if b.isDone then Prog.throw ⟨.unexpectedMessage, 0⟩
      else do
        let invokeId ← (if b.block = 0 then nextInvokeId else outstandingId)
        send C (b.request invokeId) room) := by
  unfold nextBlockRequest
  rw [Sending.inSession_bind]
  refine congrArg (requireAssociated >>= ·) (funext fun _ => ?_)
  rw [Sending.inSession_sender]
  split
  · rfl
  · rw [Sending.inSession_bind]
    refine congrArg (_ >>= ·) (funext fun invokeId => ?_)
    rw [Sending.inSession_bind]
    funext s
    rw [Prog.bind_run]
    match send C (b.request invokeId) room s with
    | (.ok _, _) => rfl
    | (.error _, _) => rfl

/-- `requireAssociated` changes nothing. -/
theorem requireAssociated_run (s : ClientSession π N) :
    (s.state = .associated ∧ requireAssociated s = (.ok (), s)) ∨
      requireAssociated s = (.error ⟨.unexpectedMessage, 0⟩, s) := by
  unfold requireAssociated
  rw [Prog.gets_bind_run]
  split
  · exact .inl ⟨by assumption, rfl⟩
  · exact .inr rfl

/-! ## What changes nothing -/

/-- A session with another counter. -/
abbrev rewound (s : ClientSession π N) (c : InvocationCounter) : ClientSession π N :=
  { s with invocationCounter := c }

/-- `W` holds of what looks at a session, but not at its counter. `W P m` is about a program `m` of a
session whose configuration satisfies `P`. -/
structure LookRules (W : (ClientConfig → Prop) → ∀ {α : Type}, Cli π N α → Prop) : Prop where
  pure : ∀ {P} {α : Type} (a : α), W P (Pure.pure a)
  throw : ∀ {P} {α : Type} (e : Error), W P (Prog.throw e : Cli π N α)
  bind : ∀ {P} {α β : Type} {m : Cli π N α} {f : α → Cli π N β}, W P m → (∀ a, W P (f a)) →
    W P (m >>= f)
  gets : ∀ {P} {α : Type} {f : ClientSession π N → α}, (∀ s c, f (rewound s c) = f s) →
    W P (Prog.gets f)

namespace LookRules

variable {W : (ClientConfig → Prop) → ∀ {α : Type}, Cli π N α → Prop} {P : ClientConfig → Prop}
  {α : Type} (hW : LookRules W)
include hW

theorem ofExcept (r : Result α) : W P (Prog.ofExcept r : Cli π N α) := by
  cases r with
  | ok a => exact hW.pure a
  | error e => exact hW.throw e

theorem need (a : Option α) (kind : ErrorKind) : W P (need a kind : Cli π N α) := by
  cases a with
  | some a => exact hW.pure a
  | none => exact hW.throw _

theorem authKey (C : CryptoProvider π) : W P (authKey C : Cli π N Bytes) :=
  hW.bind (hW.gets fun _ _ => rfl) fun _ => hW.need ..

theorem encode (e : Emit) (room : Nat) : W P (encode e room : Cli π N Bytes) := hW.ofExcept _

theorem encodeTwo (a b : Emit) (room : Nat) : W P (encodeTwo a b room : Cli π N (Bytes × Bytes)) :=
  hW.bind (hW.encode a room) fun _ => hW.bind (hW.encode _ room) fun _ => hW.pure _

theorem requireAssociated : W P (requireAssociated : Cli π N Unit) := by
  refine hW.bind (hW.gets fun _ _ => rfl) fun state => ?_
  split
  · exact hW.pure ()
  · exact hW.throw _

theorem requireConformance (required : Conformance) :
    W P (requireConformance required : Cli π N Unit) := by
  refine hW.bind (hW.gets fun _ _ => rfl) fun negotiated => ?_
  cases negotiated with
  | some n => exact hW.ofExcept _
  | none => exact hW.pure ()

theorem requireShortName : W P (requireShortName : Cli π N Unit) := by
  refine hW.bind (hW.gets fun _ _ => rfl) fun referencing => ?_
  split
  · exact hW.pure ()
  · exact hW.throw _

theorem requireSelection (used : Bool) : W P (requireSelection used : Cli π N Unit) := by
  cases used with
  | true => exact hW.requireConformance .selectiveAccess
  | false => exact hW.pure ()

theorem requireArguments (valid : Bool) : W P (requireArguments valid : Cli π N Unit) := by
  cases valid with
  | true => exact hW.pure ()
  | false => exact hW.throw _

theorem requireShortNameWrite (items : List VariableAccess) (values : List Data) :
    W P (requireShortNameWrite items values : Cli π N Unit) :=
  hW.bind hW.requireAssociated fun _ => hW.bind hW.requireShortName fun _ =>
    hW.bind (hW.requireConformance _) fun _ => hW.requireArguments _

theorem encodeWrite (items : List VariableAccess) (values : List Data) :
    W P (encodeWrite items values : Cli π N WriteRequest) :=
  hW.bind (hW.encodeTwo _ _ N) fun _ => hW.pure _

end LookRules

/-- The method leaves the session as it is. -/
abbrev Looks {α : Type} (m : Cli π N α) : Prop := Prog.Keeps (fun s t => t = s) m

namespace Looks

variable {α β : Type}

theorem bind {m : Cli π N α} {f : α → Cli π N β} (hm : Looks m) (hf : ∀ a, Looks (f a)) :
    Looks (m >>= f) := Prog.Keeps.bind (fun _ _ _ h h' => h'.trans h) hm hf

theorem rules : LookRules (fun _ _ (m : Cli π N _) => Looks m) where
  pure _ := ⟨fun _ => rfl⟩
  throw _ := ⟨fun _ => rfl⟩
  bind := bind
  gets _ := ⟨fun _ => rfl⟩

/-- Starting a transfer only looks. -/
theorem setTransfer (d : AttributeDescriptor) (access : Option SelectiveAccess) (value : Bytes) :
    Looks (setTransfer d access value : Cli π N BlockSender) := by
  have any : ClientConfig → Prop := fun _ => True
  have look : LookRules (fun _ _ (m : Cli π N _) => Looks m) := rules
  refine (look.requireAssociated (P := any)).bind fun _ => ?_
  refine (look.requireConformance (P := any) _).bind fun _ => ?_
  refine (look.requireConformance (P := any) _).bind fun _ => ?_
  refine bind ⟨fun _ => rfl⟩ fun _ => (look.ofExcept (P := any) _).bind fun _ => ⟨fun _ => rfl⟩

end Looks

end Cli

end Dlms
