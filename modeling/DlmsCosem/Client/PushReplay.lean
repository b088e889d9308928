import DlmsCosem.Client.Listener

/-!
# What a listener takes

A frame that is refused leaves the meters as they were, and so does a plain one. A protected frame goes
through where its tag verifies under the keys of the meter it names, and its number is spent then: the
window of that meter refuses it from there on, whatever else is heard (`replay_refused`).
-/

namespace Dlms

/-- A lookup that keeps the window it is given, and nothing else of it changes. -/
structure PushKeyLookup.Lawful {σ π : Type} (L : PushKeyLookup σ π) : Prop where
  window_set : ∀ s title w w', L.window s title = some w → L.window (L.setWindow s title w') title = some w'
  window_other : ∀ s title title' w, title' ≠ title →
    L.window (L.setWindow s title w) title' = L.window s title'
  keysFor_set : ∀ s title title' w, L.keysFor (L.setWindow s title w) title' = L.keysFor s title'

namespace NotificationListener

variable {σ π : Type} (C : CryptoProvider π) (L : PushKeyLookup σ π) (required : SecurityPolicy)

/-- Who a protected frame says it is from, and its body. -/
def claimed (sender : Option SystemTitle) (apdu : Bytes) : Option (SystemTitle × CipheredService) :=
  match ApduTag.fromU8 (apdu.headD 0) with
  | none => none
  | some tag =>
    match ((do Read.skip 1; unwrap sender tag : Read _) (Reader.new apdu)).1 with
    | .ok (some title, some c) => some (title, c)
    | _ => none

/-- The tag of a body verifies under the keys of the meter, and its text is `plain`. -/
def Verifies (s : σ) (title : SystemTitle) (c : CipheredService) (plain : Bytes) : Prop :=
  ∃ tag suite keys key, keysOf C L title s = .ok (keys, key) ∧
    (Protector.unprotectAs C ⟨keys, openingPolicy required tag suite⟩ (openingPolicy required tag suite)
      c.securityControl title c.invocationCounter key c.payload).1 = .ok plain

variable {C L required} {s t : σ} {sender : Option SystemTitle} {apdu : Bytes} {size : Nat}

/-! ## One frame -/

theorem decipher_atomic (tag : ApduTag) (title : Option SystemTitle) (c : CipheredService) (size : Nat) :
    Prog.Atomic (decipher C L required tag title c size) := by
  have heq : ∀ s : σ, s = s := fun _ => rfl
  unfold decipher
  refine .bind (.ofExcept heq _) fun _ => ?_
  cases title with
  | none => exact .throw _
  | some title =>
    refine .bind (.gets heq _) fun _ => .bind (.ofExcept heq _) fun _ => ?_
    refine .bind (.gets heq _) fun _ => .bind (.ofExcept heq _) fun _ => .bind (.ofExcept heq _) fun _ => ?_
    split
    · exact .throw _
    · refine .bind (.ofExcept heq _) fun _ => .bind (.ofExcept heq _) fun _ => .bind (.gets heq _) fun _ => ?_
      refine .bind (.ofExcept heq _) fun _ => .bind (.ofExcept heq _) fun _ => ?_
      exact .of_total fun s => ⟨_, _, rfl⟩

/-- A frame that is refused leaves the meters as they were. -/
theorem open_atomic (apdu : Bytes) (sender : Option SystemTitle) (size : Nat) :
    Prog.Atomic (open' C L required apdu sender size) := by
  unfold open'
  cases ApduTag.fromU8 (apdu.headD 0) with
  | none => exact .throw _
  | some tag =>
    refine .bind (.ofExcept (fun _ => rfl) _) fun found => ?_
    obtain ⟨title, _ | c⟩ := found
    · exact .map (.ofExcept _)
    · exact .map (decipher_atomic ..)

/-- A body that is opened verifies, and its number is spent. -/
theorem decipher_ok {tag : ApduTag} {title : Option SystemTitle} {c : CipheredService} {plain : Bytes}
    (h : decipher C L required tag title c size s = (.ok plain, t)) :
    ∃ from' w, title = some from' ∧ Verifies C L required s from' c plain ∧ L.window s from' = some w ∧
      w.check c.invocationCounter = .ok () ∧ t = L.setWindow s from' (w.record c.invocationCounter) := by
  obtain ⟨_, -, h⟩ := Prog.ofExcept_bind_ok h
  cases title with
  | none => cases h
  | some title =>
    dsimp only at h
    rw [Prog.gets_bind_run] at h
    obtain ⟨⟨keys, key⟩, hkeys, h⟩ := Prog.ofExcept_bind_ok h
    dsimp only at h
    rw [Prog.gets_bind_run] at h
    obtain ⟨w, hwindow, h⟩ := Prog.ofExcept_bind_ok h
    obtain ⟨_, hcheck, h⟩ := Prog.ofExcept_bind_ok h
    split at h
    · cases h
    · obtain ⟨suite, -, h⟩ := Prog.ofExcept_bind_ok h
      obtain ⟨plain', hopen, h⟩ := Prog.ofExcept_bind_ok h
      rw [Prog.gets_bind_run] at h
      obtain ⟨w', hwindow', h⟩ := Prog.ofExcept_bind_ok h
      obtain ⟨w'', haccept, h⟩ := Prog.ofExcept_bind_ok h
      rw [Prog.modify_bind_run] at h
      obtain ⟨hplain, rfl⟩ := Prod.mk.inj h
      obtain rfl := Except.ok.inj hplain
      obtain rfl := Except.ok.inj (hwindow.symm.trans hwindow')
      have hw : L.window s title = some w := by
        unfold windowOf at hwindow
        split at hwindow
        · cases hwindow
        · rename_i hw
          exact hw.trans (congrArg some (Except.ok.inj hwindow))
      unfold ReplayWindow.accept at haccept
      rw [hcheck] at haccept
      obtain rfl := Except.ok.inj haccept
      exact ⟨title, w, rfl, ⟨tag, suite, keys, key, hkeys, hopen⟩, hw, hcheck, rfl⟩

/-- A frame that is opened is a plain one, or its tag verifies and its number is spent. -/
theorem open_ok {heard : Heard} (h : open' C L required apdu sender size s = (.ok heard, t)) :
    claimed sender apdu = none ∧ heard.invocationCounter = none ∧ t = s ∨
    ∃ title c w, claimed sender apdu = some (title, c) ∧ heard.systemTitle = some title ∧
      heard.invocationCounter = some c.invocationCounter ∧ Verifies C L required s title c heard.plain ∧
      L.window s title = some w ∧ w.check c.invocationCounter = .ok () ∧
      t = L.setWindow s title (w.record c.invocationCounter) := by
  unfold open' at h
  cases htag : ApduTag.fromU8 (apdu.headD 0) with
  | none =>
    rw [htag] at h
    cases h
  | some tag =>
    rw [htag] at h
    obtain ⟨⟨title, c⟩, hread, h⟩ := Prog.ofExcept_bind_ok h
    cases c with
    | none =>
      obtain ⟨plain, -, h⟩ := Prog.ofExcept_bind_ok h
      obtain ⟨hheard, rfl⟩ := Prod.mk.inj h
      refine .inl ⟨?_, by rw [← Except.ok.inj hheard], rfl⟩
      unfold claimed
      rw [htag]
      dsimp only
      rw [hread]
      cases title <;> rfl
    | some c =>
      obtain ⟨plain, s₁, hdecipher, h⟩ := Prog.bind_ok h
      obtain ⟨hheard, rfl⟩ := Prod.mk.inj h
      obtain rfl := Except.ok.inj hheard
      obtain ⟨from', w, rfl, hverifies, hw, hcheck, ht⟩ := decipher_ok hdecipher
      refine .inr ⟨from', c, w, ?_, rfl, rfl, hverifies, hw, hcheck, ht⟩
      unfold claimed
      rw [htag]
      dsimp only
      rw [hread]

/-- What is read afterwards does not touch the meters. -/
theorem handleInner_snd (apdu : Bytes) (sender : Option SystemTitle) (size : Nat) (s : σ) :
    (handleInner C L required apdu sender size s).2 = (open' C L required apdu sender size s).2 := by
  unfold handleInner
  rw [Prog.bind_run]
  match open' C L required apdu sender size s with
  | (.error e, t) => rfl
  | (.ok heard, t) =>
    dsimp only
    rw [Prog.bind_run, Prog.ofExcept_run]
    cases readNotification heard.plain <;> rfl

/-- A frame leaves the meters as they were, or spends the number that it has, after its tag verified. -/
theorem handleInner_step (apdu : Bytes) (sender : Option SystemTitle) (size : Nat) (s : σ) :
    (handleInner C L required apdu sender size s).2 = s ∨
    ∃ title c plain w, claimed sender apdu = some (title, c) ∧ Verifies C L required s title c plain ∧
      L.window s title = some w ∧ (handleInner C L required apdu sender size s).2 =
        L.setWindow s title (w.record c.invocationCounter) := by
  rw [handleInner_snd]
  match hopen : open' C L required apdu sender size s with
  | (.error e, t) => exact .inl ((open_atomic apdu sender size).run s e t hopen)
  | (.ok heard, t) =>
    obtain ⟨-, -, ht⟩ | ⟨title, c, w, hclaimed, -, -, hverifies, hw, -, ht⟩ := open_ok hopen
    · exact .inl ht
    · exact .inr ⟨title, c, heard.plain, w, hclaimed, hverifies, hw, ht⟩

/-! ## Runs -/

/-- A frame that a listener is given, the meter that its link is of, and how long the buffer is. -/
structure Arrival where
  apdu : Bytes
  sender : Option SystemTitle
  size : Nat

variable (C L required) in
/-- The meters after some frames. -/
def listen (arrivals : List Arrival) (s : σ) : σ :=
  arrivals.foldl (fun s a => (handleInner C L required a.apdu a.sender a.size s).2) s

variable (L) in
/-- The window of the meter refuses the number. -/
def Spent (title : SystemTitle) (value : UInt32) (s : σ) : Prop :=
  ∃ w, L.window s title = some w ∧ w.Refuses value

variable {title : SystemTitle} {value : UInt32}

/-- A number that is spent stays so, whatever is heard. -/
theorem Spent.step (hL : L.Lawful) (h : Spent L title value s) (apdu : Bytes) (sender : Option SystemTitle)
    (size : Nat) : Spent L title value (handleInner C L required apdu sender size s).2 := by
  obtain ⟨w, hw, hrefuses⟩ := h
  have hstep : (handleInner C L required apdu sender size s).2 = s ∨ _ := handleInner_step apdu sender size s
  obtain ht | ⟨title', c, plain, w', -, -, hw', ht⟩ := hstep
  · rw [ht]
    exact ⟨w, hw, hrefuses⟩
  · rw [ht]
    obtain rfl | hne := eq_or_ne title title'
    · obtain rfl := Option.some.inj (hw.symm.trans hw')
      exact ⟨_, hL.window_set s title w _ hw, hrefuses.record _⟩
    · exact ⟨w, (hL.window_other s title' title _ hne).trans hw, hrefuses⟩

theorem Spent.listen (hL : L.Lawful) (h : Spent L title value s) (arrivals : List Arrival) :
    Spent L title value (listen C L required arrivals s) := by
  induction arrivals generalizing s with
  | nil => exact h
  | cons a arrivals ih => exact ih (h.step hL ..)

/-- A frame with a spent number is refused. -/
theorem Spent.refuses (h : Spent L title value s) {c : CipheredService}
    (hclaimed : claimed sender apdu = some (title, c)) (hc : c.invocationCounter = value) :
    ∃ e, (handleInner C L required apdu sender size s).1 = .error e := by
  obtain ⟨w, hw, hrefuses⟩ := h
  match hrun : handleInner C L required apdu sender size s with
  | (.error e, t) => exact ⟨e, rfl⟩
  | (.ok n, t) =>
    obtain ⟨heard, s₁, hopen, -⟩ := Prog.bind_ok hrun
    obtain ⟨hnone, -⟩ | ⟨title', c', w', hclaimed', -, -, -, hw', hcheck, -⟩ := open_ok hopen
    · rw [hnone] at hclaimed
      cases hclaimed
    · obtain ⟨rfl, rfl⟩ := Prod.mk.inj (Option.some.inj (hclaimed.symm.trans hclaimed'))
      obtain rfl := Option.some.inj (hw.symm.trans hw')
      rw [← hc] at hrefuses
      exact absurd hcheck (ReplayWindow.check_ne_ok_iff.mpr hrefuses)

/-- A frame that is taken with a number spends it: no frame of that meter with that number is taken
afterwards. -/
theorem taken_spends (hL : L.Lawful) {n : ReceivedNotification}
    (h : handleInner C L required apdu sender size s = (.ok n, t))
    (hn : n.invocationCounter = some value) : ∃ title c, claimed sender apdu = some (title, c) ∧
      c.invocationCounter = value ∧ n.systemTitle = some title ∧ Spent L title value t := by
  obtain ⟨heard, s₁, hopen, h⟩ := Prog.bind_ok h
  obtain ⟨q, hread, h⟩ := Prog.ofExcept_bind_ok h
  obtain ⟨hsame, rfl⟩ := Prod.mk.inj h
  obtain rfl := Except.ok.inj hsame
  obtain ⟨-, hnone, -⟩ | ⟨title, c, w, hclaimed, htitle, hvalue, -, hw, -, rfl⟩ := open_ok hopen
  · cases hnone.symm.trans hn
  · obtain rfl := Option.some.inj (hvalue.symm.trans hn)
    exact ⟨title, c, hclaimed, rfl, htitle, _, hL.window_set s title w _ hw, w.record_refuses _⟩

end NotificationListener

namespace SingleMeterKeys

theorem lawful (π : Type) : (lookup π).Lawful where
  window_set s title w w' h := by
    simp only [lookup] at h ⊢
    split at h
    · rename_i ht
      rw [if_pos ht, if_pos ht]
    · cases h
  window_other s title title' w hne := by
    simp only [lookup]
    split
    · rename_i ht
      rw [← ht, if_neg hne, if_neg hne]
    · rfl
  keysFor_set s title title' w := by
    simp only [lookup]
    split <;> rfl

end SingleMeterKeys

end Dlms
