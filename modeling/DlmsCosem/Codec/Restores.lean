import DlmsCosem.Codec.Ber
import DlmsCosem.Codec.Echo

/-!
# What was written, read again

`Restores m e S P`: where `e` stands, `m` gives a value that satisfies `P` if and only if the place
satisfies `S`. Most of what is written is read back wherever it stands (`Restores.of_takes`); `S` is for
the values that keep the place that they were read at. `RestoresAll` is for what stands last, which may
look at how much is left.
-/

namespace Dlms

open Ber

/-- `m` makes of `e` a value that satisfies `P`, where the place of `e` satisfies `S` and nowhere else. -/
structure Restores {α : Type} (m : Read α) (e : Emit) (S : Nat → Prop) (P : α → Prop) : Prop where
  back : WellSized e → ∀ r tail, r.rest = e.data ++ tail → S r.offset →
    ∃ a r', m r = (.ok a, r') ∧ P a ∧ r.Advanced e.size r'
  only : WellSized e → ∀ r tail, r.rest = e.data ++ tail → ∀ a r', m r = (.ok a, r') → P a → S r.offset

/-- The same of `e` that nothing follows, and `m` leaves nothing of it. -/
def RestoresAll {α : Type} (m : Read α) (e : Emit) (S : Nat → Prop) (P : α → Prop) : Prop :=
  WellSized e → ∀ r, r.rest = e.data →
    ((∃ a r', m r = (.ok a, r') ∧ r'.rest = [] ∧ P a) ↔ S r.offset)

/-- Where a part ends, the next one begins. -/
theorem Reader.Advanced.next {r r' : Reader} {e : Emit} {bs : Bytes} (h : r.Advanced e.size r')
    (hr : r.rest = e.data ++ bs) : r'.rest = bs ∧ r'.offset = r.offset + e.size :=
  ⟨by rw [h.rest, hr, Emit.size, List.drop_left], h.offset⟩

namespace Restores

variable {α β γ : Type} {m : Read α} {e e' : Emit} {S S' : Nat → Prop} {P : α → Prop} {Q : β → Prop}

/-- What is read back wherever it stands. -/
theorem of_takes (h : WellSized e → Takes m e.data P) : Restores m e (fun _ => True) P where
  back hw r tail hr _ := h hw r tail hr
  only _ _ _ _ _ _ _ _ := trivial

theorem takes (h : Restores m e S P) (hs : ∀ o, S o) (hw : WellSized e) : Takes m e.data P :=
  fun r tail hr => h.back hw r tail hr (hs _)

theorem congr (h : Restores m e S P) (hs : ∀ o, S o ↔ S' o) : Restores m e S' P where
  back hw r tail hr ho := h.back hw r tail hr ((hs _).mpr ho)
  only hw r tail hr a r' hm ha := (hs _).mp (h.only hw r tail hr a r' hm ha)

/-- A value in a constructor. -/
theorem map {g : α → β} (h : Restores m e S P) (hg : ∀ a, Q (g a) ↔ P a) :
    Restores (m >>= fun a => pure (g a)) e S Q where
  back hw r tail hr ho := by
    obtain ⟨a, r', hm, ha, hadv⟩ := h.back hw r tail hr ho
    exact ⟨g a, r', Prog.bind_run_ok hm, (hg a).mpr ha, hadv⟩
  only hw r tail hr b r' hb hq := by
    obtain ⟨a, r₁, hm, hb⟩ := Prog.bind_ok hb
    obtain rfl : g a = b := Except.ok.inj (Prod.mk.inj hb).1
    exact h.only hw r tail hr a r₁ hm ((hg a).mp hq)

/-- A part that is read back wherever it stands, and then the rest. -/
theorem after {f : α → Read β} (hm : WellSized e → Takes m e.data P)
    (hf : ∀ a, P a → Restores (f a) e' S Q) :
    Restores (m >>= f) (e ++ e') (fun o => S (o + e.size)) Q where
  back hw r tail hr ho := by
    obtain ⟨hw₁, hw₂⟩ := hw.append
    rw [Emit.append_data hw₁.1, List.append_assoc] at hr
    obtain ⟨a, r₁, h₁, ha, hadv₁⟩ := hm hw₁ r _ hr
    obtain ⟨hr₁, ho₁⟩ := hadv₁.next hr
    obtain ⟨b, r₂, h₂, hb, hadv₂⟩ := (hf a ha).back hw₂ r₁ tail hr₁ (by rwa [ho₁])
    refine ⟨b, r₂, (Prog.bind_run_ok h₁).trans h₂, hb, ?_⟩
    rw [Emit.size, Emit.append_data hw₁.1, List.length_append]
    exact hadv₁.trans hadv₂
  only hw r tail hr b r₂ hb hq := by
    obtain ⟨hw₁, hw₂⟩ := hw.append
    rw [Emit.append_data hw₁.1, List.append_assoc] at hr
    obtain ⟨a, r₁, h₁, ha, hadv₁⟩ := hm hw₁ r _ hr
    obtain ⟨hr₁, ho₁⟩ := hadv₁.next hr
    rw [Prog.bind_run_ok h₁] at hb
    rw [← ho₁]
    exact (hf a ha).only hw₂ r₁ tail hr₁ b r₂ hb hq

/-- Two parts, each with its place, put together by `g`. -/
theorem andThen {m' : Read β} {g : α → β → γ} {R : γ → Prop} (hm : Restores m e S P)
    (hm' : Restores m' e' S' Q) (hg : ∀ a b, R (g a b) ↔ P a ∧ Q b) :
    Restores (m >>= fun a => m' >>= fun b => pure (g a b)) (e ++ e')
      (fun o => S o ∧ S' (o + e.size)) R where
  back hw r tail hr ho := by
    obtain ⟨hw₁, hw₂⟩ := hw.append
    rw [Emit.append_data hw₁.1, List.append_assoc] at hr
    obtain ⟨a, r₁, h₁, ha, hadv₁⟩ := hm.back hw₁ r _ hr ho.1
    obtain ⟨hr₁, ho₁⟩ := hadv₁.next hr
    obtain ⟨b, r₂, h₂, hb, hadv₂⟩ := hm'.back hw₂ r₁ tail hr₁ (by rw [ho₁]; exact ho.2)
    refine ⟨g a b, r₂, ?_, (hg a b).mpr ⟨ha, hb⟩, ?_⟩
    · rw [Prog.bind_run_ok h₁, Prog.bind_run_ok h₂]
      rfl
    · rw [Emit.size, Emit.append_data hw₁.1, List.length_append]
      exact hadv₁.trans hadv₂
  only hw r tail hr c r₃ hc hq := by
    obtain ⟨hw₁, hw₂⟩ := hw.append
    rw [Emit.append_data hw₁.1, List.append_assoc] at hr
    obtain ⟨a, r₁, h₁, hc⟩ := Prog.bind_ok hc
    obtain ⟨b, r₂, h₂, hc⟩ := Prog.bind_ok hc
    obtain rfl : g a b = c := Except.ok.inj (Prod.mk.inj hc).1
    obtain ⟨ha, hb⟩ := (hg a b).mp hq
    have hs := hm.only hw₁ r _ hr a r₁ h₁ ha
    -- A value at a place that is right ends where the part ends.
    obtain ⟨a', r₁', h₁', -, hadv₁⟩ := hm.back hw₁ r _ hr hs
    obtain ⟨-, rfl⟩ := Prod.mk.inj (h₁.symm.trans h₁')
    obtain ⟨hr₁, ho₁⟩ := hadv₁.next hr
    refine ⟨hs, ?_⟩
    rw [← ho₁]
    exact hm'.only hw₂ r₁ tail hr₁ b r₂ h₂ hb

/-- Last, and all of it. -/
theorem all (h : Restores m e S P) : RestoresAll m e S P := by
  intro hw r hr
  have hr' : r.rest = e.data ++ [] := by rw [hr, List.append_nil]
  constructor
  · rintro ⟨a, r', hm, -, ha⟩
    exact h.only hw r [] hr' a r' hm ha
  · intro ho
    obtain ⟨a, r', hm, ha, hadv⟩ := h.back hw r [] hr' ho
    exact ⟨a, r', hm, (hadv.next hr').1, ha⟩

end Restores

namespace RestoresAll

variable {α β : Type} {m : Read α} {e e' : Emit} {S S' : Nat → Prop} {P : α → Prop} {Q : β → Prop}

theorem congr (h : RestoresAll m e S P) (hs : ∀ o, S o ↔ S' o) : RestoresAll m e S' P :=
  fun hw r hr => (h hw r hr).trans (hs _)

theorem map {g : α → β} (h : RestoresAll m e S P) (hg : ∀ a, Q (g a) ↔ P a) :
    RestoresAll (m >>= fun a => pure (g a)) e S Q := by
  intro hw r hr
  rw [← h hw r hr]
  constructor
  · rintro ⟨b, r', hb, hend, hq⟩
    obtain ⟨a, r₁, hm, hb⟩ := Prog.bind_ok hb
    obtain ⟨rfl, rfl⟩ : g a = b ∧ r₁ = r' := by simpa using hb
    exact ⟨a, r₁, hm, hend, (hg a).mp hq⟩
  · rintro ⟨a, r', hm, hend, ha⟩
    exact ⟨g a, r', Prog.bind_run_ok hm, hend, (hg a).mpr ha⟩

/-- A part that is read back wherever it stands, and then the rest. -/
theorem after {f : α → Read β} (hm : WellSized e → Takes m e.data P)
    (hf : ∀ a, P a → RestoresAll (f a) e' S Q) :
    RestoresAll (m >>= f) (e ++ e') (fun o => S (o + e.size)) Q := by
  intro hw r hr
  obtain ⟨hw₁, hw₂⟩ := hw.append
  rw [Emit.append_data hw₁.1] at hr
  obtain ⟨a, r₁, h₁, ha, hadv₁⟩ := hm hw₁ r _ hr
  obtain ⟨hr₁, ho₁⟩ := hadv₁.next hr
  change _ ↔ S (r.offset + e.size)
  rw [← ho₁, ← hf a ha hw₂ r₁ hr₁, Prog.bind_run_ok h₁]

theorem takeRest (bs : Bytes) :
    RestoresAll Read.takeRest (Emit.bytes bs) (fun _ => True) (bs = ·) := by
  intro _ r hr
  rw [Emit.bytes_data] at hr
  exact ⟨fun _ => trivial, fun _ => ⟨r.rest, _, rfl, List.drop_length, hr.symm⟩⟩

/-- A decoder that does as another on what was written. -/
theorem of_run {m' : Read α} (h : RestoresAll m' e S P)
    (hrun : WellSized e → ∀ r, r.rest = e.data → m r = m' r) : RestoresAll m e S P := by
  intro hw r hr
  rw [← h hw r hr, hrun hw r hr]

/-- All the bytes there are. -/
theorem fromBytes (h : RestoresAll m e S P) (hw : WellSized e) :
    (∃ a, Read.fromBytes m e.data = .ok a ∧ P a) ↔ S 0 := by
  have hnew : (Reader.new e.data).rest = e.data := rfl
  rw [← show S (Reader.new e.data).offset ↔ S 0 from Iff.rfl, ← h hw _ hnew]
  constructor
  · rintro ⟨a, hm, ha⟩
    obtain ⟨r', hm, hend⟩ := Read.fromBytes_ok hm
    exact ⟨a, r', hm, hend, ha⟩
  · rintro ⟨a, r', hm, hend, ha⟩
    refine ⟨a, ?_, ha⟩
    rw [Read.fromBytes, hm]
    simp only [(r'.isEmpty_iff).mpr hend, if_true]

end RestoresAll

end Dlms
