import Mathlib.Logic.Relation

/-!
# Programs with a state and an error

`Prog ε S α` runs on a state `S` and ends with an error `ε` or a value `α`. The state survives an
error, as it does in code that mutates through a reference and returns early.

Three ways to state what a program does, each with one rule per construct:

* `Holds m s Q`: the result and the state after `m` from `s` satisfy `Q`.
* `Keeps R m`: from every state, `R` relates the state before `m` to the state after it. `R` is
  reflexive and transitive in every use, so `Keeps R` is closed under sequencing.
* `Sim R A m₁ m₂`: from states related by `R` both programs end the same way, with values related
  by `A` and states related by `R`.
-/

/-- A program over the state `S` with errors `ε`. -/
def Prog (ε S α : Type) : Type := S → Except ε α × S

namespace Prog

variable {ε S S₁ S₂ α β α₁ α₂ β₁ β₂ : Type}

instance : Monad (Prog ε S) where
  pure a := fun s => (.ok a, s)
  bind m f := fun s =>
    match m s with
    | (.ok a, s') => f a s'
    | (.error e, s') => (.error e, s')

/-- End with an error. -/
def throw (e : ε) : Prog ε S α := fun s => (.error e, s)

/-- Read a part of the state. -/
def gets (f : S → α) : Prog ε S α := fun s => (.ok (f s), s)

/-- Change the state. -/
def modify (g : S → S) : Prog ε S Unit := fun s => (.ok (), g s)

/-- A result that needs no state. -/
def ofExcept : Except ε α → Prog ε S α
  | .ok a => pure a
  | .error e => throw e

/-- Run `m` and give its result as a value, so that the program goes on after an error. -/
def try' (m : Prog ε S α) : Prog ε S (Except ε α) := fun s =>
  ((.ok (m s).1), (m s).2)

/-- Run `m` for what it does to the state and for its error. -/
def drop (m : Prog ε S α) : Prog ε S Unit := m >>= fun _ => pure ()

/-- `n` runs of `m`, up to the first error. -/
def times : Nat → Prog ε S Unit → Prog ε S Unit
  | 0, _ => pure ()
  | n + 1, m => m >>= fun _ => times n m

/-- A fold over a list, up to the first error. -/
def fold (f : β → α → Prog ε S β) : β → List α → Prog ε S β
  | b, [] => pure b
  | b, x :: xs => f b x >>= fun b' => fold f b' xs

/-- What the steps of a fold start from: the entry, and the value and the state before it, up to the
first error. -/
def met (f : β → α → Prog ε S β) : β → List α → S → List (β × α × S)
  | _, [], _ => []
  | b, x :: xs, s => (b, x, s) :: match f b x s with
    | (.ok b', s') => met f b' xs s'
    | (.error _, _) => []

@[simp] theorem pure_run (a : α) (s : S) : (pure a : Prog ε S α) s = (.ok a, s) := rfl

@[simp] theorem throw_run (e : ε) (s : S) : (throw e : Prog ε S α) s = (.error e, s) := rfl

@[simp] theorem gets_run (f : S → α) (s : S) : (gets f : Prog ε S α) s = (.ok (f s), s) := rfl

@[simp] theorem modify_run (g : S → S) (s : S) : (modify g : Prog ε S Unit) s = (.ok (), g s) := rfl

@[simp] theorem ofExcept_ok (a : α) : (ofExcept (.ok a) : Prog ε S α) = pure a := rfl

@[simp] theorem ofExcept_error (e : ε) : (ofExcept (.error e) : Prog ε S α) = throw e := rfl

@[simp] theorem ofExcept_run (r : Except ε α) (s : S) : (ofExcept r : Prog ε S α) s = (r, s) := by
  cases r <;> rfl

@[simp] theorem try'_run (m : Prog ε S α) (s : S) : try' m s = (.ok (m s).1, (m s).2) := rfl

theorem bind_run (m : Prog ε S α) (f : α → Prog ε S β) (s : S) :
    (m >>= f) s = match m s with
      | (.ok a, s') => f a s'
      | (.error e, s') => (.error e, s') := rfl

theorem bind_run_ok {m : Prog ε S α} {f : α → Prog ε S β} {s s' : S} {a : α}
    (h : m s = (.ok a, s')) : (m >>= f) s = f a s' := by
  rw [bind_run, h]

/-- A fold over one entry is its step. -/
theorem fold_one_ok {f : β → α → Prog ε S β} {b b' : β} {x : α} {s s' : S}
    (h : f b x s = (.ok b', s')) : fold f b [x] s = (.ok b', s') := by
  rw [fold, bind_run_ok h]
  rfl

theorem bind_run_error {m : Prog ε S α} {f : α → Prog ε S β} {s s' : S} {e : ε}
    (h : m s = (.error e, s')) : (m >>= f) s = (.error e, s') := by
  rw [bind_run, h]

theorem bind_assoc {γ : Type} (m : Prog ε S α) (f : α → Prog ε S β) (g : β → Prog ε S γ) :
    (m >>= f) >>= g = m >>= fun a => f a >>= g := by
  funext s
  rw [bind_run, bind_run, bind_run]
  rcases m s with ⟨_ | _, _⟩ <;> rfl

theorem drop_snd (m : Prog ε S α) (s : S) : (drop m s).2 = (m s).2 := by
  unfold drop
  rw [bind_run]
  match m s with
  | (.ok _, _) => rfl
  | (.error _, _) => rfl

/-- A run of a sequence that ends well, taken apart. -/
theorem bind_ok {m : Prog ε S α} {f : α → Prog ε S β} {s t : S} {b : β}
    (h : (m >>= f) s = (.ok b, t)) : ∃ a s', m s = (.ok a, s') ∧ f a s' = (.ok b, t) := by
  rw [bind_run] at h
  match hm : m s with
  | (.ok a, s') => rw [hm] at h; exact ⟨a, s', rfl, h⟩
  | (.error e, s') => rw [hm] at h; cases h

/-- A sequence that gives a value, taken apart. -/
theorem bind_fst_ok {m : Prog ε S α} {f : α → Prog ε S β} {s : S} {b : β}
    (h : ((m >>= f) s).1 = .ok b) : ∃ a s', m s = (.ok a, s') ∧ (f a s').1 = .ok b := by
  obtain ⟨a, s', hm, hf⟩ := bind_ok (t := ((m >>= f) s).2) (Prod.ext h rfl)
  exact ⟨a, s', hm, by rw [hf]⟩

/-- A sequence that starts with a result and ends well. -/
theorem ofExcept_bind_ok {r : Except ε α} {f : α → Prog ε S β} {s t : S} {b : β}
    (h : (ofExcept r >>= f) s = (.ok b, t)) : ∃ a, r = .ok a ∧ f a s = (.ok b, t) := by
  cases r with
  | ok a => exact ⟨a, rfl, h⟩
  | error e => cases h

@[simp] theorem gets_bind_run (f : S → α) (k : α → Prog ε S β) (s : S) :
    (gets f >>= k) s = k (f s) s := rfl

@[simp] theorem modify_bind_run (g : S → S) (k : Unit → Prog ε S β) (s : S) :
    (modify g >>= k) s = k () (g s) := rfl

@[simp] theorem pure_bind_run (a : α) (k : α → Prog ε S β) (s : S) :
    ((pure a : Prog ε S α) >>= k) s = k a s := rfl

@[simp] theorem try'_bind_run (m : Prog ε S α) (k : Except ε α → Prog ε S β) (s : S) :
    (try' m >>= k) s = k (m s).1 (m s).2 := rfl

@[simp] theorem throw_bind_run (e : ε) (k : α → Prog ε S β) (s : S) :
    ((throw e : Prog ε S α) >>= k) s = (.error e, s) := rfl

/-! ## One run -/

/-- The result and the state after `m` from `s` satisfy `Q`. -/
def Holds (m : Prog ε S α) (s : S) (Q : Except ε α → S → Prop) : Prop := Q (m s).1 (m s).2

namespace Holds

variable {s : S} {Q Q' : Except ε α → S → Prop}

theorem mono {m : Prog ε S α} (h : Holds m s Q) (hq : ∀ r s', Q r s' → Q' r s') :
    Holds m s Q' := hq _ _ h

theorem pure {a : α} (h : Q (.ok a) s) : Holds (pure a) s Q := h

theorem throw {e : ε} (h : Q (.error e) s) : Holds (throw e) s Q := h

theorem bind {m : Prog ε S β} {f : β → Prog ε S α}
    (h : Holds m s fun r s' => match r with
      | .ok b => Holds (f b) s' Q
      | .error e => Q (.error e) s') : Holds (m >>= f) s Q := by
  unfold Holds at h ⊢
  rw [bind_run]
  match hm : m s with
  | (.ok b, s') => rw [hm] at h; exact h
  | (.error e, s') => rw [hm] at h; exact h

end Holds

/-! ## The value from every state -/

/-- From every state, `m` ends with `a`. -/
def Always (m : Prog ε S α) (a : α) : Prop := ∀ s, ∃ s', m s = (.ok a, s')

namespace Always

theorem pure (a : α) : Always (pure a : Prog ε S α) a := fun s => ⟨s, rfl⟩

theorem bind {m : Prog ε S α} {f : α → Prog ε S β} {a : α} {b : β} (hm : Always m a)
    (hf : Always (f a) b) : Always (m >>= f) b := by
  intro s
  obtain ⟨s₁, h₁⟩ := hm s
  obtain ⟨s₂, h₂⟩ := hf s₁
  exact ⟨s₂, (bind_run_ok h₁).trans h₂⟩

theorem unique {m : Prog ε S α} {a b : α} {s s' : S} (h : Always m a) (hm : m s = (.ok b, s')) :
    a = b := by
  obtain ⟨s₁, h₁⟩ := h s
  rw [h₁] at hm
  exact Except.ok.inj (Prod.mk.inj hm).1

end Always

/-! ## The steps of a fold -/

section Fold

variable {f : β → α → Prog ε S β}

theorem met_nil (b : β) (s : S) : met f b [] s = [] := rfl

theorem met_cons_ok {b b' : β} {x : α} {s s' : S} (h : f b x s = (.ok b', s')) (xs : List α) :
    met f b (x :: xs) s = (b, x, s) :: met f b' xs s' := by
  rw [met, h]

/-- What holds before the first step and is handed on by each holds before every step. `P` sees how
many entries are left. -/
theorem met_forall {P : Nat → β → S → Prop} (xs : List α) {b : β} {s : S} (h : P xs.length b s)
    (hstep : ∀ n b s x b' s', x ∈ xs → P (n + 1) b s → f b x s = (.ok b', s') → P n b' s')
    {m : β × α × S} (hm : m ∈ met f b xs s) : m.2.1 ∈ xs ∧ ∃ n, P (n + 1) m.1 m.2.2 := by
  induction xs generalizing b s with
  | nil => cases hm
  | cons x xs ih =>
    rw [met, List.mem_cons] at hm
    obtain rfl | hm := hm
    · exact ⟨List.mem_cons_self .., xs.length, h⟩
    · match hx : f b x s with
      | (.error e, s') => rw [hx] at hm; cases hm
      | (.ok b', s') =>
        rw [hx] at hm
        obtain ⟨hmem, hn⟩ := ih (hstep _ _ _ _ _ _ (List.mem_cons_self ..) h hx)
          (fun n b s y b' s' hy => hstep n b s y b' s' (List.mem_cons_of_mem x hy)) hm
        exact ⟨List.mem_cons_of_mem x hmem, hn⟩

/-- What no step lowers is no higher before a step than at the end. -/
theorem met_le (p : β → Nat) (xs : List α) {b b' : β} {s t : S}
    (hstep : ∀ m ∈ met f b xs s, ∀ b' s', f m.1 m.2.1 m.2.2 = (.ok b', s') → p m.1 ≤ p b')
    (hrun : fold f b xs s = (.ok b', t)) : p b ≤ p b' ∧ ∀ m ∈ met f b xs s, p m.1 ≤ p b' := by
  induction xs generalizing b s with
  | nil =>
    obtain ⟨rfl, -⟩ : b = b' ∧ s = t := by simpa [fold] using hrun
    exact ⟨Nat.le_refl _, by simp [met]⟩
  | cons x xs ih =>
    obtain ⟨b₁, s₁, hx, hrun⟩ := bind_ok hrun
    rw [met_cons_ok hx] at hstep ⊢
    obtain ⟨hle, hall⟩ := ih (fun m hm => hstep m (List.mem_cons_of_mem _ hm)) hrun
    have hfirst := Nat.le_trans (hstep _ (List.mem_cons_self ..) _ _ hx) hle
    refine ⟨hfirst, fun m hm => ?_⟩
    obtain rfl | hm := List.mem_cons.mp hm
    · exact hfirst
    · exact hall m hm

end Fold

/-! ## The value of every run -/

/-- Every value that `m` ends with satisfies `P`. -/
def Yields (m : Prog ε S α) (P : α → Prop) : Prop := ∀ s, Holds m s fun r _ => ∀ a, r = .ok a → P a

/-- `m` ends with `a` somewhere. -/
def Gives (m : Prog ε S α) (a : α) : Prop := ∃ s s', m s = (.ok a, s')

namespace Yields

variable {P : α → Prop} {Q : β → Prop}

theorem pure {a : α} (h : P a) : Yields (pure a : Prog ε S α) P := fun _ =>
  Holds.pure fun _ h' => Except.ok.inj h' ▸ h

theorem map {m : Prog ε S α} {g : α → β} (hm : Yields m P) (hg : ∀ a, P a → Q (g a)) :
    Yields (m >>= fun a => Pure.pure (g a)) Q := fun s =>
  Holds.bind ((hm s).mono fun r _ h => by
    cases r with
    | ok b => exact fun _ h' => Except.ok.inj h' ▸ hg b (h b rfl)
    | error e => exact nofun)

theorem throw {e : ε} : Yields (throw e : Prog ε S α) P := fun _ => Holds.throw nofun

theorem bind {m : Prog ε S α} {f : α → Prog ε S β} (hm : Yields m P)
    (hf : ∀ a, P a → Yields (f a) Q) : Yields (m >>= f) Q := fun s =>
  Holds.bind ((hm s).mono fun r s' h => by
    cases r with
    | ok b => exact hf b (h b rfl) s'
    | error e => exact nofun)

theorem mono {P' : α → Prop} {m : Prog ε S α} (h : Yields m P) (hp : ∀ a, P a → P' a) : Yields m P' :=
  fun s a ha => hp a (h s a ha)

/-- A value is one that its program ends with. -/
theorem self (m : Prog ε S α) : Yields m m.Gives :=
  fun s _ h => ⟨s, (m s).2, Prod.ext h rfl⟩

theorem any (m : Prog ε S α) : Yields m fun _ => True := fun _ _ _ => trivial

theorem of_ok {m : Prog ε S α} (h : ∀ {s s' : S} {a : α}, m s = (.ok a, s') → P a) : Yields m P :=
  fun _ _ ha => h (Prod.ext ha rfl)

theorem of_run {m : Prog ε S α} (h : Yields m P) {s s' : S} {a : α} (hm : m s = (.ok a, s')) : P a :=
  h s a (congrArg Prod.fst hm)

end Yields

/-! ## Every run, against a relation of states -/

/-- From every state, `R` relates the state before `m` to the state after it. -/
structure Keeps (R : S → S → Prop) (m : Prog ε S α) : Prop where
  run : ∀ s, R s (m s).2

namespace Keeps

variable {R R' : S → S → Prop}

theorem mono {m : Prog ε S α} (h : Keeps R m) (hr : ∀ s t, R s t → R' s t) : Keeps R' m :=
  ⟨fun s => hr _ _ (h.run s)⟩

theorem pure (hr : ∀ s, R s s) (a : α) : Keeps R (pure a : Prog ε S α) := ⟨hr⟩

theorem throw (hr : ∀ s, R s s) (e : ε) : Keeps R (throw e : Prog ε S α) := ⟨hr⟩

theorem gets (hr : ∀ s, R s s) (f : S → α) : Keeps R (gets f : Prog ε S α) := ⟨hr⟩

theorem ofExcept (hr : ∀ s, R s s) (r : Except ε α) : Keeps R (ofExcept r : Prog ε S α) := by
  cases r <;> exact ⟨hr⟩

theorem bind (ht : ∀ s t u, R s t → R t u → R s u) {m : Prog ε S α} {f : α → Prog ε S β}
    (hm : Keeps R m) (hf : ∀ a, Keeps R (f a)) : Keeps R (m >>= f) := by
  refine ⟨fun s => ?_⟩
  have h := hm.run s
  rw [bind_run]
  match hs : m s with
  | (.ok a, s') => rw [hs] at h; exact ht _ _ _ h ((hf a).run s')
  | (.error e, s') => rw [hs] at h; exact h

theorem try' {m : Prog ε S α} (h : Keeps R m) : Keeps R (Prog.try' m) := ⟨h.run⟩

theorem fold (hr : ∀ s, R s s) (ht : ∀ s t u, R s t → R t u → R s u) {f : β → α → Prog ε S β}
    (hf : ∀ b a, Keeps R (f b a)) (b : β) (xs : List α) : Keeps R (Prog.fold f b xs) := by
  induction xs generalizing b with
  | nil => exact pure hr b
  | cons x xs ih => exact bind ht (hf b x) fun b' => ih b'

end Keeps

/-! ## Errors that leave the state -/

/-- A run from `s` that ends with an error leaves the state as it was. -/
def AtomicAt (m : Prog ε S α) (s : S) : Prop := ∀ e s', m s = (.error e, s') → s' = s

/-- Every run that ends with an error leaves the state as it was. -/
structure Atomic (m : Prog ε S α) : Prop where
  run : ∀ s, AtomicAt m s

namespace Atomic

/-- A program that never changes the state. -/
theorem of_keeps {m : Prog ε S α} (h : Keeps Eq m) : Atomic m :=
  ⟨fun s _ _ hm => (congrArg Prod.snd hm).symm.trans (h.run s).symm⟩

theorem throw (e : ε) : Atomic (throw e : Prog ε S α) := of_keeps (.throw (fun _ => rfl) e)

theorem ofExcept (r : Except ε α) : Atomic (ofExcept r : Prog ε S α) :=
  of_keeps (.ofExcept (fun _ => rfl) r)

theorem pure (a : α) : Atomic (pure a : Prog ε S α) := of_keeps (.pure (fun _ => rfl) a)

/-- Nothing is changed before the rest. -/
theorem bind {m : Prog ε S α} {f : α → Prog ε S β} (hm : Keeps Eq m)
    (hf : ∀ a, Atomic (f a)) : Atomic (m >>= f) := by
  refine ⟨fun s e s' h => ?_⟩
  have hs := hm.run s
  rw [bind_run] at h
  match hrun : m s with
  | (.ok a, t) =>
    rw [hrun] at h hs
    obtain rfl : s = t := hs
    exact (hf a).run _ e s' h
  | (.error e', t) =>
    rw [hrun] at h hs
    exact (congrArg Prod.snd h).symm.trans hs.symm

/-- The last program of a sequence gives its value to a constructor. -/
theorem map {m : Prog ε S α} {g : α → β} (hm : Atomic m) :
    Atomic (m >>= fun a => Pure.pure (g a)) := by
  refine ⟨fun s e s' h => ?_⟩
  rw [bind_run] at h
  match hrun : m s with
  | (.ok a, t) =>
    rw [hrun] at h
    cases h
  | (.error e', t) =>
    rw [hrun] at h
    exact (congrArg Prod.snd h).symm.trans (hm.run s e' t hrun)

/-- A program that never fails. -/
theorem of_total {m : Prog ε S α} (h : ∀ s, ∃ a s', m s = (.ok a, s')) : Atomic m := by
  refine ⟨fun s e s' hm => ?_⟩
  obtain ⟨a, t, ha⟩ := h s
  rw [ha] at hm
  cases hm

end Atomic

/-! ## Two runs -/

/-- Both results are errors, and the same one, or both are values related by `A`. -/
inductive Same (A : α₁ → α₂ → Prop) : Except ε α₁ → Except ε α₂ → Prop
  | ok {a₁ a₂} : A a₁ a₂ → Same A (.ok a₁) (.ok a₂)
  | error (e) : Same A (.error e) (.error e)

theorem Same.mono {A A' : α₁ → α₂ → Prop} {r₁ : Except ε α₁} {r₂ : Except ε α₂}
    (h : Same A r₁ r₂) (ha : ∀ a b, A a b → A' a b) : Same A' r₁ r₂ := by
  cases h with
  | ok h => exact .ok (ha _ _ h)
  | error e => exact .error e

@[simp] theorem same_eq {r₁ r₂ : Except ε α} : Same Eq r₁ r₂ ↔ r₁ = r₂ := by
  constructor
  · intro h; cases h with
    | ok h => rw [h]
    | error e => rfl
  · rintro rfl
    cases r₁ with
    | ok a => exact .ok rfl
    | error e => exact .error e

/-- From states related by `R`, both programs end the same way and leave related states. -/
structure Sim (R : S₁ → S₂ → Prop) (A : α₁ → α₂ → Prop) (m₁ : Prog ε S₁ α₁) (m₂ : Prog ε S₂ α₂) :
    Prop where
  run : ∀ s₁ s₂, R s₁ s₂ → Same A (m₁ s₁).1 (m₂ s₂).1 ∧ R (m₁ s₁).2 (m₂ s₂).2

namespace Sim

variable {R : S₁ → S₂ → Prop} {A : α₁ → α₂ → Prop} {B : β₁ → β₂ → Prop}

theorem pure {a₁ : α₁} {a₂ : α₂} (h : A a₁ a₂) :
    Sim R A (pure a₁ : Prog ε S₁ α₁) (pure a₂ : Prog ε S₂ α₂) :=
  ⟨fun _ _ hr => ⟨.ok h, hr⟩⟩

theorem throw (e : ε) : Sim R A (throw e : Prog ε S₁ α₁) (throw e : Prog ε S₂ α₂) :=
  ⟨fun _ _ hr => ⟨.error e, hr⟩⟩

theorem gets {f₁ : S₁ → α₁} {f₂ : S₂ → α₂} (h : ∀ s₁ s₂, R s₁ s₂ → A (f₁ s₁) (f₂ s₂)) :
    Sim R A (gets f₁ : Prog ε S₁ α₁) (gets f₂ : Prog ε S₂ α₂) :=
  ⟨fun s₁ s₂ hr => ⟨.ok (h s₁ s₂ hr), hr⟩⟩

theorem modify {g₁ : S₁ → S₁} {g₂ : S₂ → S₂} (h : ∀ s₁ s₂, R s₁ s₂ → R (g₁ s₁) (g₂ s₂)) :
    Sim R Eq (modify g₁ : Prog ε S₁ Unit) (modify g₂ : Prog ε S₂ Unit) :=
  ⟨fun s₁ s₂ hr => ⟨.ok rfl, h s₁ s₂ hr⟩⟩

theorem ofExcept {r₁ : Except ε α₁} {r₂ : Except ε α₂} (h : Same A r₁ r₂) :
    Sim R A (ofExcept r₁ : Prog ε S₁ α₁) (ofExcept r₂ : Prog ε S₂ α₂) := by
  cases h with
  | ok h => exact pure h
  | error e => exact throw e

theorem bind {m₁ : Prog ε S₁ α₁} {m₂ : Prog ε S₂ α₂} {f₁ : α₁ → Prog ε S₁ β₁}
    {f₂ : α₂ → Prog ε S₂ β₂} (hm : Sim R A m₁ m₂) (hf : ∀ a₁ a₂, A a₁ a₂ → Sim R B (f₁ a₁) (f₂ a₂)) :
    Sim R B (m₁ >>= f₁) (m₂ >>= f₂) := by
  refine ⟨fun s₁ s₂ hr => ?_⟩
  obtain ⟨hres, hst⟩ := hm.run s₁ s₂ hr
  rw [bind_run, bind_run]
  match h₁ : m₁ s₁, h₂ : m₂ s₂ with
  | (.ok a₁, t₁), (.ok a₂, t₂) =>
    rw [h₁, h₂] at hres hst
    cases hres with
    | ok h => exact (hf a₁ a₂ h).run t₁ t₂ hst
  | (.error e₁, t₁), (.error e₂, t₂) =>
    rw [h₁, h₂] at hres hst
    cases hres with
    | error => exact ⟨.error _, hst⟩
  | (.ok _, _), (.error _, _) => rw [h₁, h₂] at hres; cases hres
  | (.error _, _), (.ok _, _) => rw [h₁, h₂] at hres; cases hres

theorem mono {m₁ : Prog ε S₁ α₁} {m₂ : Prog ε S₂ α₂} {A' : α₁ → α₂ → Prop} (h : Sim R A m₁ m₂)
    (ha : ∀ a b, A a b → A' a b) : Sim R A' m₁ m₂ :=
  ⟨fun s₁ s₂ hr => ⟨(h.run s₁ s₂ hr).1.mono ha, (h.run s₁ s₂ hr).2⟩⟩

end Sim

end Prog
