import DlmsCosem.Lib.Prog
import DlmsCosem.Lib.Run

/-!
# Numbers that are used once

A sender that may use no number twice takes each from a counter that only rises, and stops where the
counter ends. `Meter` says where a state keeps its counter and the uses it recorded. Between two
states that `Rises` relates, numbers were used in the owner's name, each above the one before it.

`Metered bad m s` is what a run of `m` from `s` comes to: it rises, and where the counter is at its
end it ends with a `bad` error, or the counter had no part in it: any other counter would have given
the same result.
-/

/-- Where a state keeps a counter that ends at `top`, and the uses of its numbers. -/
structure Meter (S ω γ : Type) where
  last : S → Nat
  top : Nat
  /-- The same state with another counter. -/
  wind : γ → S → S
  uses : S → List (ω × Nat)
  owner : S → Option ω
  le_top : ∀ s, last s ≤ top
  uses_wind : ∀ c s, uses (wind c s) = uses s

namespace Meter

variable {ε S A ω γ α β : Type} (M : Meter S ω γ)

/-- The numbers used between `s` and `t` rise from the counter of `s` to that of `t`. -/
structure Rises (s t : S) : Prop where
  owner : M.owner t = M.owner s
  le : M.last s ≤ M.last t
  uses : ∃ us, M.uses t = M.uses s ++ us ∧ us.Pairwise (fun a b => a.2 < b.2) ∧
    ∀ u ∈ us, M.owner s = some u.1 ∧ M.last s < u.2 ∧ u.2 ≤ M.last t

/-- Nothing of the meter changed. -/
structure Rests (s t : S) : Prop where
  owner : M.owner t = M.owner s
  last : M.last t = M.last s
  uses : M.uses t = M.uses s

variable {M} {s t u : S}

theorem Rests.rises (h : M.Rests s t) : M.Rises s t :=
  ⟨h.owner, Nat.le_of_eq h.last.symm, [], by rw [h.uses, List.append_nil], .nil, by simp⟩

theorem Rises.refl (s : S) : M.Rises s s := Rests.rises ⟨rfl, rfl, rfl⟩

theorem Rises.trans (h : M.Rises s t) (h' : M.Rises t u) : M.Rises s u := by
  obtain ⟨us, hus, hp, hall⟩ := h.uses
  obtain ⟨us', hus', hp', hall'⟩ := h'.uses
  refine ⟨h'.owner.trans h.owner, h.le.trans h'.le, us ++ us', ?_, ?_, ?_⟩
  · rw [hus', hus, List.append_assoc]
  · refine List.pairwise_append.mpr ⟨hp, hp', fun a ha b hb => ?_⟩
    exact Nat.lt_of_le_of_lt (hall a ha).2.2 (hall' b hb).2.1
  · intro x hx
    obtain hx | hx := List.mem_append.mp hx
    · obtain ⟨hown, hlt, hle⟩ := hall x hx
      exact ⟨hown, hlt, hle.trans h'.le⟩
    · obtain ⟨hown, hlt, hle⟩ := hall' x hx
      exact ⟨h.owner ▸ hown, Nat.lt_of_le_of_lt h.le hlt, hle⟩

/-- A number above the last is taken, and used in the owner's name. -/
theorem Rises.use {name : ω} {n : Nat} (howner : M.owner t = M.owner s) (hname : M.owner s = some name)
    (hlt : M.last s < n) (hlast : M.last t = n) (huses : M.uses t = M.uses s ++ [(name, n)]) :
    M.Rises s t := by
  refine ⟨howner, by omega, [(name, n)], huses, List.pairwise_singleton .., fun u hu => ?_⟩
  obtain rfl := List.mem_singleton.mp hu
  exact ⟨hname, hlt, Nat.le_of_eq hlast.symm⟩

/-- Where the counter is at its end nothing is used. -/
theorem Rises.uses_eq (h : M.Rises s t) (hs : M.last s = M.top) : M.uses t = M.uses s := by
  obtain ⟨us, hus, -, hall⟩ := h.uses
  cases us with
  | nil => rw [hus, List.append_nil]
  | cons u us =>
    obtain ⟨-, hlt, hle⟩ := hall u (List.mem_cons_self ..)
    have := M.le_top t
    omega

/-- What a run from nothing used has used is the owner's, and no number twice. -/
theorem Rises.distinct (h : M.Rises s t) (hs : M.uses s = []) :
    ((M.uses t).map Prod.snd).Pairwise (· < ·) ∧ ∀ u ∈ M.uses t, M.owner s = some u.1 := by
  obtain ⟨us, hus, hp, hall⟩ := h.uses
  rw [hs, List.nil_append] at hus
  rw [hus]
  exact ⟨List.pairwise_map.mpr hp, fun u hu => (hall u hu).1⟩

/-- Steps that rise make runs that rise. -/
theorem Rises.run {step : S → A → S} {ok : A → Prop} (hstep : ∀ s a, ok a → M.Rises s (step s a))
    (s : S) (acts : List A) (hok : ∀ a ∈ acts, ok a) : M.Rises s (Run.after step s acts) := by
  induction acts using List.reverseRecOn with
  | nil => exact .refl s
  | append_singleton acts a ih =>
    rw [Run.after_concat]
    exact (ih fun b hb => hok b (by simp [hb])).trans (hstep _ _ (hok a (by simp)))

/-! ## Programs -/

/-- The run of `m` from `s` rises. At the end of the counter it is refused, or needs no number. -/
structure Metered (M : Meter S ω γ) (bad : ε → Prop) (m : Prog ε S α) (s : S) : Prop where
  rises : M.Rises s (m s).2
  spent : M.last s = M.top → (∃ e, bad e ∧ (m s).1 = .error e) ∨
    ∀ c, m (M.wind c s) = ((m s).1, M.wind c (m s).2)

/-- The run of `m` from `s` has nothing to do with the counter. -/
structure Blind (M : Meter S ω γ) (m : Prog ε S α) (s : S) : Prop where
  rests : M.Rests s (m s).2
  wind : ∀ c, m (M.wind c s) = ((m s).1, M.wind c (m s).2)

variable {bad : ε → Prop}

theorem Blind.metered {m : Prog ε S α} (h : M.Blind m s) : M.Metered bad m s :=
  ⟨h.rests.rises, fun _ => .inr h.wind⟩

theorem Blind.pure (a : α) : M.Blind (Pure.pure a : Prog ε S α) s := ⟨⟨rfl, rfl, rfl⟩, fun _ => rfl⟩

theorem Blind.throw (e : ε) : M.Blind (Prog.throw e : Prog ε S α) s := ⟨⟨rfl, rfl, rfl⟩, fun _ => rfl⟩

theorem Blind.ofExcept (r : Except ε α) : M.Blind (Prog.ofExcept r) s := by
  cases r with
  | ok a => exact .pure a
  | error e => exact .throw e

theorem Blind.gets {f : S → α} (h : ∀ c, f (M.wind c s) = f s) : M.Blind (ε := ε) (Prog.gets f) s :=
  ⟨⟨rfl, rfl, rfl⟩, fun c => by rw [Prog.gets_run, Prog.gets_run, h]⟩

theorem Blind.modify {f : S → S} (hr : M.Rests s (f s)) (h : ∀ c, f (M.wind c s) = M.wind c (f s)) :
    M.Blind (ε := ε) (Prog.modify f) s :=
  ⟨hr, fun c => by rw [Prog.modify_run, Prog.modify_run, h]⟩

theorem Blind.try' {m : Prog ε S α} (h : M.Blind m s) : M.Blind (Prog.try' m) s :=
  ⟨h.rests, fun c => by rw [Prog.try'_run, h.wind, Prog.try'_run]⟩

namespace Metered

theorem bind {m : Prog ε S α} {f : α → Prog ε S β} (hm : M.Metered bad m s)
    (hf : ∀ a t, m s = (.ok a, t) → M.Metered bad (f a) t) : M.Metered bad (m >>= f) s := by
  obtain ⟨hrises, hspent⟩ := hm
  match h : m s with
  | (.error e, t) =>
    rw [h] at hrises hspent
    refine ⟨by rw [Prog.bind_run_error h]; exact hrises, fun hs => ?_⟩
    rw [Prog.bind_run_error h]
    obtain ⟨e', hbad, he⟩ | hwind := hspent hs
    · exact .inl ⟨e', hbad, by rw [Except.error.inj he]⟩
    · exact .inr fun c => Prog.bind_run_error (hwind c)
  | (.ok a, t) =>
    rw [h] at hrises hspent
    have ht := hf a t h
    refine ⟨by rw [Prog.bind_run_ok h]; exact hrises.trans ht.rises, fun hs => ?_⟩
    rw [Prog.bind_run_ok h]
    obtain ⟨e', -, he⟩ | hwind := hspent hs
    · cases he
    · have hlast : M.last t = M.top := Nat.le_antisymm (M.le_top t) (hs ▸ hrises.le)
      obtain hbad | hwind' := ht.spent hlast
      · exact .inl hbad
      · exact .inr fun c => by rw [Prog.bind_run_ok (hwind c), hwind' c]

/-- A part of the state is read that the counter is no part of. -/
theorem gets_bind {f : S → α} {k : α → Prog ε S β} (hf : ∀ c, f (M.wind c s) = f s)
    (hk : M.Metered bad (k (f s)) s) : M.Metered bad (Prog.gets f >>= k) s :=
  ⟨hk.rises, fun hs => (hk.spent hs).imp_right fun h c => by
    rw [Prog.gets_bind_run, Prog.gets_bind_run, hf, h]⟩

/-- A number is taken, or there is none left. -/
theorem take {next : Prog ε S α} {k : α → Prog ε S β}
    (h : (∃ e, bad e ∧ next s = (.error e, s)) ∨
      ∃ a t, M.last s < M.top ∧ next s = (.ok a, t) ∧ M.Rises s (k a t).2) :
    M.Metered bad (next >>= k) s := by
  obtain ⟨e, hbad, hnext⟩ | ⟨a, t, hlt, hnext, hrises⟩ := h
  · refine ⟨?_, fun _ => .inl ⟨e, hbad, ?_⟩⟩
    · rw [Prog.bind_run_error hnext]
      exact .refl s
    · rw [Prog.bind_run_error hnext]
  · refine ⟨?_, fun hs => by omega⟩
    rw [Prog.bind_run_ok hnext]
    exact hrises

/-- Where the counter is at its end, nothing is used, and what would have used a number from another
counter is refused. -/
theorem exhausted {m : Prog ε S α} (h : M.Metered bad m s) (hs : M.last s = M.top) :
    M.uses (m s).2 = M.uses s ∧
      ∀ c, M.uses (m (M.wind c s)).2 ≠ M.uses s → ∃ e, bad e ∧ (m s).1 = .error e := by
  have huses := h.rises.uses_eq hs
  refine ⟨huses, fun c hc => ?_⟩
  obtain hbad | hwind := h.spent hs
  · exact hbad
  · exact absurd (by rw [hwind, M.uses_wind, huses]) hc

end Metered

end Meter
