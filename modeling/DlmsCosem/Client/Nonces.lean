import DlmsCosem.Client.Walks
import DlmsCosem.Lib.Meter
import DlmsCosem.Security.Counter

/-!
# The numbers that a session protects with

A request, the user information of an AARQ and a proof each take a number of their own from the
session's counter. `ClientSession.meter` reads the uses off the trace. Only `setInvocationCounter` can
take the counter back.
-/

namespace Dlms

/-- The title and the number that the protector was given. -/
def ClientEvent.use : ClientEvent → Option (SystemTitle × Nat)
  | protecting title value => some (title, value.toNat)
  | _ => none

variable {π : Type} {N : Nat}

namespace ClientSession

/-- The titles and numbers that the protector was given. -/
def uses (s : ClientSession π N) : List (SystemTitle × Nat) := s.trace.filterMap ClientEvent.use

/-- The counter of a session, and what it was used for. -/
def meter : Meter (ClientSession π N) SystemTitle InvocationCounter where
  last s := s.invocationCounter.last.toNat
  top := 0xFFFFFFFF
  wind c s := { s with invocationCounter := c }
  uses := uses
  owner s := s.config.systemTitle
  le_top s := by have := s.invocationCounter.last.toNat_lt; omega
  uses_wind _ _ := rfl

/-- The event is not the use of a number. -/
theorem rests_log {e : ClientEvent} (he : e.use = none) (s : ClientSession π N) :
    meter.Rests s (s.log e) := ⟨rfl, rfl, by simp [meter, uses, log, he]⟩

/-- Protecting a message uses the number that it takes, or none. -/
theorem Protected.rises {s t : ClientSession π N} (h : s.Protected t) : meter.Rises s t := by
  cases h with
  | refused => exact .refl s
  | spent value c hc =>
    obtain ⟨rfl, hvalue⟩ := InvocationCounter.next_ok hc
    refine ⟨rfl, ?_, [], by simp [meter, uses], .nil, by simp⟩
    change s.invocationCounter.last.toNat ≤ value.toNat
    omega
  | taken title value c htitle hc =>
    obtain ⟨rfl, hvalue⟩ := InvocationCounter.next_ok hc
    refine .use (n := value.toNat) rfl htitle ?_ rfl ?_
    · change s.invocationCounter.last.toNat < value.toNat
      omega
    · simp [meter, uses, log, ClientEvent.use]

end ClientSession

namespace Cli

open ClientSession

/-- The error of a counter at its end. -/
def Spent (e : Error) : Prop := e = ⟨.unsupported, 0⟩

/-- A run of the method uses numbers as it should, and keeps the configuration. -/
structure Numbered (P : ClientConfig → Prop) {α : Type} (m : Cli π N α) : Prop where
  run : ∀ s, P s.config → meter.Metered Spent m s
  config : ∀ s, P s.config → (m s).2.config = s.config

/-- A number is taken, and what follows uses no other before it. -/
theorem metered_take {α : Type} {k : UInt32 → Cli π N α} {s : ClientSession π N}
    (hk : ∀ value c, s.invocationCounter.next = .ok (value, c) →
      meter.Rises s (k value (rewound s c)).2) : meter.Metered Spent (nextCounter >>= k) s := by
  refine .take ?_
  obtain ⟨value, c, hc, hnext⟩ | ⟨e, he, hnext⟩ := nextCounter_run s
  · refine .inr ⟨value, _, ?_, hnext, hk value c hc⟩
    obtain ⟨-, hvalue⟩ := InvocationCounter.next_ok hc
    change s.invocationCounter.last.toNat < 0xFFFFFFFF
    have := value.toNat_lt
    omega
  · exact .inl ⟨e, InvocationCounter.next_error he, hnext⟩

namespace Numbered

variable {P : ClientConfig → Prop} {α β : Type}

/-- What has nothing to do with the counter. -/
theorem of_blind {m : Cli π N α} (h : ∀ s, meter.Blind m s) (hc : ∀ s, (m s).2.config = s.config) :
    Numbered P m := ⟨fun s _ => (h s).metered, fun s _ => hc s⟩

theorem bind {m : Cli π N α} {f : α → Cli π N β} (hm : Numbered P m) (hf : ∀ a, Numbered P (f a)) :
    Numbered P (m >>= f) := by
  refine ⟨fun s hP => (hm.run s hP).bind fun a t ht => (hf a).run t ?_, fun s hP => ?_⟩
  · have hconfig := hm.config s hP
    rw [ht] at hconfig
    exact hconfig ▸ hP
  · have hconfig := hm.config s hP
    match hs : m s with
    | (.error e, t) =>
      rw [hs] at hconfig
      rw [Prog.bind_run_error hs]
      exact hconfig
    | (.ok a, t) =>
      rw [hs] at hconfig
      rw [Prog.bind_run_ok hs]
      exact ((hf a).config t (hconfig ▸ hP)).trans hconfig

theorem modify {f : ClientSession π N → ClientSession π N} (ht : ∀ s, (f s).trace = s.trace)
    (hf : ∀ s, (f s).config = s.config) (hc : ∀ s c, f (rewound s c) = rewound (f s) c) :
    Numbered P (Prog.modify f : Cli π N Unit) := by
  refine of_blind (fun s => .modify ⟨?_, ?_, ?_⟩ (hc s)) hf
  · exact congrArg ClientConfig.systemTitle (hf s)
  · have h : f s = rewound (f s) s.invocationCounter := hc s s.invocationCounter
    change (f s).invocationCounter.last.toNat = _
    rw [h]
    rfl
  · exact congrArg (List.filterMap ClientEvent.use) (ht s)

theorem log {e : ClientEvent} (he : e.use = none) : Numbered P (Cli.log e : Cli π N Unit) :=
  of_blind (fun s => .modify (rests_log he s) fun _ => rfl) fun _ => rfl

theorem nextCounter : Numbered P (Cli.nextCounter : Cli π N UInt32) := by
  refine ⟨fun s _ => ?_, fun s _ => ?_⟩
  · have hbind : (Cli.nextCounter : Cli π N UInt32) = Cli.nextCounter >>= Pure.pure := by
      funext s
      rw [Prog.bind_run]
      match Cli.nextCounter s with
      | (.ok _, _) => rfl
      | (.error _, _) => rfl
    rw [hbind]
    exact metered_take fun value c hc => (Protected.spent value c hc).rises
  · obtain ⟨value, c, -, hnext⟩ | ⟨e, -, hnext⟩ := nextCounter_run s <;> rw [hnext]

theorem taking (C : CryptoProvider π) {title : SystemTitle} {k : UInt32 → Bytes → Cli π N α}
    (htitle : ∀ c, P c → c.systemTitle = some title) (hk : ∀ value key, Numbered P (k value key)) :
    Numbered P (Cli.nextCounter >>= fun value => Cli.authKey C >>= fun key =>
      Cli.log (.protecting title value) >>= fun _ => k value key) := by
  refine ⟨fun s hP => metered_take fun value c hc => ?_, fun s hP => ?_⟩
  · obtain ⟨key, hkey⟩ | ⟨e, hkey⟩ := authKey_run C (rewound s c)
    · rw [Prog.bind_run_ok hkey]
      refine (Protected.taken title value c (htitle _ hP) hc).rises.trans ?_
      exact ((hk value key).run ((rewound s c).log (.protecting title value)) hP).rises
    · rw [Prog.bind_run_error hkey]
      exact (Protected.spent value c hc).rises
  · obtain ⟨value, c, hc, hnext⟩ | ⟨e, -, hnext⟩ := nextCounter_run s
    · rw [Prog.bind_run_ok hnext]
      obtain ⟨key, hkey⟩ | ⟨e, hkey⟩ := authKey_run C (rewound s c)
      · rw [Prog.bind_run_ok hkey]
        exact (hk value key).config ((rewound s c).log (.protecting title value)) hP
      · rw [Prog.bind_run_error hkey]
    · rw [Prog.bind_run_error hnext]

theorem sendPlain (C : CryptoProvider π) (plain : Bytes) (room : Nat) :
    Numbered P (Cli.sendPlain C plain room : Cli π N Bytes) := by
  refine ⟨fun s _ => .gets_bind (fun _ => rfl) ?_, fun s _ => (sendPlain_protected C plain room s).config⟩
  split
  · exact (Meter.Blind.ofExcept _).metered
  · cases htitle : s.config.systemTitle with
    | none => exact (Meter.Blind.throw _).metered
    | some title =>
      refine metered_take fun value c hc => ?_
      refine (Protected.taken title value c htitle hc).rises.trans ?_
      exact Meter.Rests.rises (Meter.Blind.ofExcept _).rests

theorem send (C : CryptoProvider π) (a : Apdu) (room : Nat) :
    Numbered P (Cli.send C a room : Cli π N Bytes) :=
  bind (of_blind (fun _ => .ofExcept _) fun s => by rw [encode_run]) fun _ =>
    bind (sendPlain C _ room) fun _ => bind (log rfl) fun _ =>
    of_blind (fun _ => .pure _) fun _ => rfl

theorem rules (C : CryptoProvider π) :
    SessionRules C (fun P _ (m : Cli π N _) => Numbered P m) where
  pure _ := of_blind (fun _ => .pure _) fun _ => rfl
  throw _ := of_blind (fun _ => .throw _) fun _ => rfl
  bind := bind
  gets h := of_blind (fun s => .gets (h s)) fun _ => rfl
  gets_config h := ⟨fun s hP => .gets_bind (fun _ => rfl) ((h _ hP).run s rfl),
    fun s hP => (h _ hP).config s rfl⟩
  modify := modify
  unprotect _ _ _ _ := of_blind (fun _ => ⟨⟨rfl, rfl, rfl⟩, fun _ => rfl⟩) fun _ => rfl
  nextCounter := nextCounter
  taking := taking C
  send _ _ := send C _ _
  authenticated _ := log rfl

/-- Every method but the one that sets the counter uses numbers as it should. -/
theorem method (C : CryptoProvider π) (op : ClientOp) (hset : ∀ value, op ≠ .setInvocationCounter value) :
    Numbered P (op.method C : Cli π N Unit) := by
  have hW : SessionRules C (fun P _ (m : Cli π N _) => Numbered P m) := rules C
  cases op with
  | setInvocationCounter value => exact absurd rfl (hset value)
  | getNextBlockRequest n room =>
    exact hW.drop (hW.bind hW.requireAssociated fun _ => hW.bind hW.outstandingId fun _ => send C _ room)
  | handleResponse apdu size =>
    refine hW.drop (hW.bind (hW.unprotectInto apdu size) fun plain => hW.bind (hW.ofExcept _) fun d => ?_)
    refine hW.bind (hW.gets fun _ _ => rfl) fun outstanding => ?_
    split
    · exact hW.throw _
    · refine hW.bind (hW.ofExcept _) fun response => hW.bind (hW.modify (fun _ => ?_) (fun _ => ?_)
        fun _ _ => ?_) fun _ => hW.bind (log rfl) fun _ => hW.pure _
      · split <;> rfl
      · split <;> rfl
      · split <;> rfl
  | _ => exact hW.method _ nofun nofun nofun

end Numbered

end Cli

/-! ## Runs -/

namespace ClientSession

variable (C : CryptoProvider π)

/-- In a run that does not set the counter the numbers rise. -/
theorem run_rises (s : ClientSession π N) {ops : List ClientOp}
    (hset : ∀ value, ClientOp.setInvocationCounter value ∉ ops) :
    meter.Rises s (Run.after (fun s op => s.step C op) s ops) := by
  have hok : ∀ op ∈ ops, ∀ value, op ≠ .setInvocationCounter value := by
    rintro op hop value rfl
    exact hset value hop
  refine .run (fun s op hop => ?_) s ops hok
  rw [step_eq]
  exact ((Cli.Numbered.method (P := fun _ => True) C op hop).run s trivial).rises

end ClientSession

end Dlms
