import DlmsCosem.Lib.Prog
import Mathlib.Data.List.Basic
import Mathlib.Data.List.Infix

/-!
# Runs of a state machine

`Run.after step s acts` is the state after a list of actions. What holds at the start and is kept by
each step holds after every run (`Run.invariant`). Where a step keeps it under a condition only, the
condition on every step of a run is what the invariant of every state takes (`Run.good_iff`). What a run
came to by a step of its past, in states that were good ever since, is `Run.Since`.

Where each action is a program, and one that fails leaves the state as it was, a run is one of the
actions that end well (`Run.effective_after`).
-/

namespace Run

variable {S A : Type} {step : S → A → S} {s : S}

/-- The state after the steps of a list. -/
def after (step : S → A → S) (s : S) (acts : List A) : S := acts.foldl step s

@[simp] theorem after_nil : after step s [] = s := rfl

@[simp] theorem after_concat (acts : List A) (a : A) :
    after step s (acts ++ [a]) = step (after step s acts) a := by
  simp [after]

theorem after_append (acts bs : List A) :
    after step s (acts ++ bs) = after step (after step s acts) bs := by
  simp [after]

/-- What every step keeps, a run keeps. -/
theorem invariant {Inv : S → Prop} (hstep : ∀ s a, Inv s → Inv (step s a)) (h : Inv s)
    (acts : List A) : Inv (after step s acts) := by
  induction acts generalizing s with
  | nil => exact h
  | cons a acts ih => exact ih (hstep s a h)

/-- What a step relates, a run relates. -/
theorem related {R : S → S → Prop} (hrefl : ∀ s, R s s) (htrans : ∀ s t u, R s t → R t u → R s u)
    (hstep : ∀ s a, R s (step s a)) (acts : List A) : R s (after step s acts) := by
  induction acts generalizing s with
  | nil => exact hrefl s
  | cons a acts ih => exact htrans _ _ _ (hstep s a) ih

/-- Each step of the run meets the condition in the state it starts from. -/
def Meeting (step : S → A → S) (meets : S → A → Prop) (s : S) (acts : List A) : Prop :=
  ∀ past a, past ++ [a] <+: acts → meets (after step s past) a

/-- Each state of the run is good, the first and the last included. -/
def Along (step : S → A → S) (good : S → Prop) (s : S) (acts : List A) : Prop :=
  ∀ past, past <+: acts → good (after step s past)

section Conditional

variable {meets : S → A → Prop} {Inv good : S → Prop}

theorem Meeting.of_prefix {acts bs : List A} (h : Meeting step meets s acts) (hb : bs <+: acts) :
    Meeting step meets s bs := fun past a hp => h past a (hp.trans hb)

theorem Meeting.head {a : A} {acts : List A} (h : Meeting step meets s (a :: acts)) : meets s a :=
  h [] a (by simp)

theorem Meeting.tail {a : A} {acts : List A} (h : Meeting step meets s (a :: acts)) :
    Meeting step meets (step s a) acts := by
  intro past b hp
  exact h (a :: past) b ((List.prefix_cons_inj a).mpr hp)

theorem Meeting.cons_iff {a : A} {acts : List A} : Meeting step meets s (a :: acts) ↔
    meets s a ∧ Meeting step meets (step s a) acts := by
  refine ⟨fun h => ⟨h.head, h.tail⟩, fun ⟨hhead, htail⟩ past b hp => ?_⟩
  cases past with
  | nil =>
    obtain ⟨rfl, -⟩ := List.cons_prefix_cons.mp hp
    exact hhead
  | cons c past =>
    obtain ⟨rfl, hrest⟩ := List.cons_prefix_cons.mp hp
    exact htail past b hrest

theorem Meeting.nil : Meeting step meets s [] := fun past a hp => by simp at hp

theorem Meeting.concat {acts : List A} (h : Meeting step meets s acts) (a : A)
    (ha : meets (after step s acts) a) : Meeting step meets s (acts ++ [a]) := by
  intro past b hp
  obtain heq | hp := List.prefix_concat_iff.mp hp
  · obtain ⟨rfl, hb⟩ := List.append_inj' heq rfl
    obtain rfl := List.singleton_inj.mp hb
    exact ha
  · exact h past b hp

/-- What every step keeps that meets the condition, a run of such steps keeps. -/
theorem Meeting.invariant (hstep : ∀ s a, Inv s → meets s a → Inv (step s a)) (h : Inv s)
    {acts : List A} (hacts : Meeting step meets s acts) : Inv (after step s acts) := by
  induction acts using List.reverseRecOn with
  | nil => exact h
  | append_singleton acts a ih =>
    rw [after_concat]
    exact hstep _ _ (ih (hacts.of_prefix (List.prefix_append ..))) (hacts acts a List.prefix_rfl)

/-- Where a step from the invariant is good exactly under the condition, and then keeps the invariant,
the states of a run are good exactly where each step meets the condition. -/
theorem good_iff (hgood : ∀ s, Inv s → good s) (hstep : ∀ s a, Inv s → meets s a → Inv (step s a))
    (hbad : ∀ s a, Inv s → good (step s a) → meets s a) (h : Inv s) (acts : List A) :
    Along step good s acts ↔ Meeting step meets s acts := by
  constructor
  · intro hall
    induction acts using List.reverseRecOn with
    | nil => exact .nil
    | append_singleton acts a ih =>
      have hpre := ih fun past hp => hall past (hp.trans (List.prefix_append ..))
      have hlast := hall _ List.prefix_rfl
      rw [after_concat] at hlast
      exact hpre.concat a (hbad _ _ (hpre.invariant hstep h) hlast)
  · intro hall past hp
    exact hgood _ ((hall.of_prefix hp).invariant hstep h)

end Conditional

/-! ## The past of a run -/

section Past

variable {good good' : S → Prop} {event event' : List A → A → Prop} {acts : List A} {a : A}

/-- There was a step of the kind of `event`, and every state since was good. `event` sees the steps that
came before it. -/
def Since (step : S → A → S) (good : S → Prop) (event : List A → A → Prop) (s : S) (acts : List A) : Prop :=
  ∃ past a rest, acts = past ++ a :: rest ∧ event past a ∧
    ∀ more, more <+: rest → good (after step s (past ++ a :: more))

/-- The last step is the one. -/
theorem Since.now (h : event acts a) (hgood : good (after step s (acts ++ [a]))) :
    Since step good event s (acts ++ [a]) := by
  refine ⟨acts, a, [], rfl, h, fun more hm => ?_⟩
  rw [List.prefix_nil.mp hm]
  exact hgood

/-- The step was before the last one. -/
theorem Since.later (h : Since step good event s acts) (hgood : good (after step s (acts ++ [a]))) :
    Since step good event s (acts ++ [a]) := by
  obtain ⟨past, b, rest, rfl, hb, hall⟩ := h
  refine ⟨past, b, rest ++ [a], by simp, hb, fun more hm => ?_⟩
  obtain rfl | hm := List.prefix_concat_iff.mp hm
  · simpa using hgood
  · exact hall more hm

theorem Since.holds (h : Since step good event s acts) : good (after step s acts) := by
  obtain ⟨past, a, rest, rfl, -, hall⟩ := h
  exact hall rest List.prefix_rfl

theorem Since.mono (h : Since step good event s acts)
    (hevent : ∀ past a, past ++ [a] <+: acts → good (after step s (past ++ [a])) → event past a →
      event' past a)
    (hgood : ∀ s, good s → good' s) : Since step good' event' s acts := by
  obtain ⟨past, a, rest, rfl, ha, hall⟩ := h
  exact ⟨past, a, rest, rfl, hevent past a (by simp) (hall [] (List.nil_prefix ..)) ha,
    fun more hm => hgood _ (hall more hm)⟩

end Past

section Programs

variable {ε R : Type} {act : A → Prog ε S R}

/-- The state after an action, whether it fails or not. -/
def attempt (act : A → Prog ε S R) (s : S) (a : A) : S := (act a s).2

/-- The actions of a run that end well. -/
def effective (act : A → Prog ε S R) : S → List A → List A
  | _, [] => []
  | s, a :: acts =>
    match act a s with
    | (.ok _, s') => a :: effective act s' acts
    | (.error _, s') => effective act s' acts

/-- What the actions of a run that end well give. -/
def replies (act : A → Prog ε S R) : S → List A → List R
  | _, [] => []
  | s, a :: acts =>
    match act a s with
    | (.ok reply, s') => reply :: replies act s' acts
    | (.error _, s') => replies act s' acts

/-- Where what fails leaves the state as it was, it might as well not have been tried. -/
theorem effective_after {acts : List A}
    (h : Meeting (attempt act) (fun s a => Prog.AtomicAt (act a) s) s acts) :
    after (attempt act) s (effective act s acts) = after (attempt act) s acts ∧
      replies act s (effective act s acts) = replies act s acts := by
  induction acts generalizing s with
  | nil => exact ⟨rfl, rfl⟩
  | cons a acts ih =>
    obtain ⟨hstate, hreplies⟩ := ih h.tail
    match hrun : act a s with
    | (.ok reply, s') =>
      have hnext : attempt act s a = s' := congrArg Prod.snd hrun
      rw [hnext] at hstate hreplies
      simp only [effective, replies, hrun, hreplies, and_true]
      change after (attempt act) (attempt act s a) _ = after (attempt act) (attempt act s a) acts
      rwa [hnext]
    | (.error e, s') =>
      obtain rfl := h.head e s' hrun
      have hnext : attempt act s' a = s' := congrArg Prod.snd hrun
      rw [hnext] at hstate hreplies
      simp only [effective, replies, hrun]
      change after (attempt act) s' _ = after (attempt act) (attempt act s' a) acts ∧ _
      rw [hnext]
      exact ⟨hstate, hreplies⟩

end Programs

end Run
