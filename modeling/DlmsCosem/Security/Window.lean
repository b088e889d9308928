import DlmsCosem.Security.Counter

/-!
# What a replay window takes

A `History` is what a window stands for: the values it has taken, and the floor it was resumed from.
`History.takes` says which value may come next, in integers. `ReplayWindow.Tracks` connects the two:
over the values that the width reaches, the bitmap is the set of those taken. Every call keeps it
(`Tracks.call`), so a window that was built empty answers along every run as its history does
(`replayWindow_exact`).
-/

namespace Dlms

/-- What was taken from one peer, and the value up to which everything counts as taken. -/
structure History where
  floor : Option UInt32
  taken : List UInt32

namespace History

/-- The highest value taken. -/
def highest (h : History) : Option Nat := (h.taken.map UInt32.toNat).max?

/-- The value may be taken next: it is new, above the floor, and no further below the highest than the
width. -/
def takes (h : History) (width : UInt32) (c : UInt32) : Prop :=
  c ∉ h.taken ∧ (∀ f, h.floor = some f → f < c) ∧
    ∀ m, h.highest = some m → (m : ℤ) - width.toNat ≤ c.toNat

/-- The history after a value was taken. -/
def add (h : History) (c : UInt32) : History := { h with taken := h.taken ++ [c] }

theorem highest_eq_some {h : History} {m : Nat} :
    h.highest = some m ↔ (∃ c ∈ h.taken, c.toNat = m) ∧ ∀ c ∈ h.taken, c.toNat ≤ m := by
  unfold highest
  rw [List.max?_eq_some_iff]
  simp

theorem highest_eq_none {h : History} : h.highest = none ↔ h.taken = [] := by
  unfold highest
  rw [List.max?_eq_none_iff, List.map_eq_nil_iff]

end History

namespace ReplayWindow

/-- A call of a window. -/
inductive Call
  | accept (received : UInt32)
  | check (received : UInt32)

/-- What a call answers, and the window after it. -/
def call (w : ReplayWindow) : Call → Result Unit × ReplayWindow
  | .accept received =>
    match w.accept received with
    | .ok w' => (.ok (), w')
    | .error e => (.error e, w)
  | .check received => (w.check received, w)

/-- The window after some calls. -/
def run (w : ReplayWindow) : List Call → ReplayWindow
  | [] => w
  | c :: cs => (w.call c).2.run cs

/-- The values that were accepted in some calls. -/
def accepted (w : ReplayWindow) : List Call → List UInt32
  | [] => []
  | .accept received :: cs =>
    match w.accept received with
    | .ok w' => received :: w'.accepted cs
    | .error _ => w.accepted cs
  | .check _ :: cs => w.accepted cs

/-- The ways to build a window, with the floor it starts from. -/
inductive Built : Option UInt32 → ReplayWindow → Prop
  | strict : Built none strict
  | new (width : UInt32) : Built none (new width)
  | resumed (highest width : UInt32) : Built (some highest) (resumed highest width)

/-- The window stands for the history. -/
structure Tracks (w : ReplayWindow) (h : History) : Prop where
  width_le : w.width.toNat ≤ 63
  above : ∀ f, h.floor = some f → ∀ c ∈ h.taken, f < c
  empty : w.highest = none → h.floor = none ∧ h.taken = []
  reached : ∀ top, w.highest = some top → top ∈ h.taken ∨ h.taken = [] ∧ h.floor = some top
  bound : ∀ top, w.highest = some top → ∀ c ∈ h.taken, c ≤ top
  bits : ∀ top, w.highest = some top → ∀ c : UInt32, c ≤ top → top.toNat - c.toNat < 64 →
    (w.seen.getLsbD (top.toNat - c.toNat) = true ↔ c ∈ h.taken ∨ ∃ f, h.floor = some f ∧ c ≤ f)

theorem new_width_le (width : UInt32) : (new width).width.toNat ≤ 63 := by
  unfold new
  dsimp only
  split
  · decide
  · rename_i h
    rw [gt_iff_lt, UInt32.lt_iff_toNat_lt, Nat.not_lt] at h
    exact h

theorem Built.tracks {floor : Option UInt32} {w : ReplayWindow} (hb : Built floor w) :
    w.Tracks ⟨floor, []⟩ := by
  cases hb with
  | strict => exact ⟨by decide, nofun, fun _ => ⟨rfl, rfl⟩, nofun, nofun, nofun⟩
  | new width => exact ⟨new_width_le width, nofun, fun _ => ⟨rfl, rfl⟩, nofun, nofun, nofun⟩
  | resumed highest width =>
    refine ⟨new_width_le width, fun _ _ _ hc => (List.not_mem_nil hc).elim, nofun, ?_, ?_, ?_⟩
    · rintro top htop
      exact .inr ⟨rfl, htop⟩
    · intro top _ c hc
      exact (List.not_mem_nil hc).elim
    · intro top htop c hle hlt
      obtain rfl : highest = top := Option.some.inj htop
      have hset : (ReplayWindow.resumed highest width).seen = BitVec.allOnes 64 := rfl
      rw [hset, BitVec.getLsbD_allOnes]
      simp [hlt, hle]

namespace Tracks

variable {w : ReplayWindow} {h : History}

/-- What is above every value taken may be taken. -/
theorem takes_above (ht : w.Tracks h) {top c : UInt32} (htop : w.highest = some top) (hc : top < c) :
    h.takes w.width c := by
  refine ⟨fun hmem => UInt32.not_le.mpr hc (ht.bound top htop c hmem), fun f hf => ?_, fun m hm => ?_⟩
  · obtain hmem | ⟨-, hfloor⟩ := ht.reached top htop
    · exact UInt32.lt_trans (ht.above f hf top hmem) hc
    · obtain rfl := Option.some.inj (hf.symm.trans hfloor)
      exact hc
  · obtain ⟨⟨d, hd, rfl⟩, -⟩ := History.highest_eq_some.mp hm
    have hle := UInt32.le_iff_toNat_le.mp (ht.bound top htop d hd)
    have hlt := UInt32.lt_iff_toNat_lt.mp hc
    omega

/-- What is not above may be taken where it is near and its bit is clear. -/
theorem takes_below (ht : w.Tracks h) {top c : UInt32} (htop : w.highest = some top) (hc : c ≤ top) :
    h.takes w.width c ↔ top.toNat - c.toNat ≤ w.width.toNat ∧
      w.seen.getLsbD (top.toNat - c.toNat) = false := by
  have hwidth := ht.width_le
  have hle := UInt32.le_iff_toNat_le.mp hc
  have hbits := ht.bits top htop c hc
  obtain hmem | ⟨-, hfloor⟩ := ht.reached top htop
  · have hhigh : h.highest = some top.toNat := History.highest_eq_some.mpr
      ⟨⟨top, hmem, rfl⟩, fun c hc => UInt32.le_iff_toNat_le.mp (ht.bound top htop c hc)⟩
    unfold History.takes
    rw [hhigh]
    constructor
    · rintro ⟨hnew, hfloor, hnear⟩
      have hnear := hnear _ rfl
      refine ⟨by omega, Bool.eq_false_iff.mpr fun hset => ?_⟩
      obtain hmem | ⟨f, hf, hcf⟩ := (hbits (by omega)).mp hset
      · exact hnew hmem
      · exact UInt32.not_le.mpr (hfloor f hf) hcf
    · rintro ⟨hnear, hclear⟩
      have hno := mt (hbits (by omega)).mpr (Bool.eq_false_iff.mp hclear)
      refine ⟨fun hmem => hno (.inl hmem), fun f hf => ?_, fun m hm => ?_⟩
      · exact UInt32.not_le.mp fun hcf => hno (.inr ⟨f, hf, hcf⟩)
      · obtain rfl := Option.some.inj hm
        omega
  · -- Nothing was taken: the top is the floor, and all bits below it are set.
    refine ⟨fun hall => absurd (hall.2.1 top hfloor) (UInt32.not_lt.mpr hc), ?_⟩
    rintro ⟨hnear, hclear⟩
    rw [(hbits (by omega)).mpr (.inr ⟨top, hfloor, hc⟩)] at hclear
    cases hclear

/-- A window refuses a value exactly where its history does. -/
theorem refuses_iff (ht : w.Tracks h) (c : UInt32) : w.Refuses c ↔ ¬ h.takes w.width c := by
  unfold Refuses
  cases htop : w.highest with
  | none =>
    obtain ⟨hfloor, htaken⟩ := ht.empty htop
    unfold History.takes
    rw [hfloor, htaken, History.highest_eq_none.mpr htaken]
    simp
  | some top =>
    simp only [Option.some.injEq, exists_eq_left']
    by_cases hc : c ≤ top
    · have hle := UInt32.le_iff_toNat_le.mp hc
      have hwidth := ht.width_le
      rw [ht.takes_below htop hc, not_and_or, Bool.not_eq_false, Nat.not_le]
      constructor
      · rintro ⟨-, hold | hold | hold⟩
        · exact .inl hold
        · exact .inl (by omega)
        · exact .inr hold
      · rintro (hold | hold)
        · exact ⟨hle, .inl hold⟩
        · exact ⟨hle, .inr (.inr hold)⟩
    · have hlt := UInt32.not_le.mp hc
      refine ⟨fun ⟨hle, _⟩ => absurd (UInt32.le_iff_toNat_le.mpr hle) hc, fun hnot => ?_⟩
      exact absurd (ht.takes_above htop hlt) hnot

/-- The check is the history's answer. -/
theorem check_iff (ht : w.Tracks h) (c : UInt32) : w.check c = .ok () ↔ h.takes w.width c := by
  rw [← not_iff_not, ← ne_eq, check_ne_ok_iff, ht.refuses_iff]

/-- The first value of all. -/
theorem record_first (ht : w.Tracks h) (hnone : w.highest = none) (c : UInt32) :
    (w.record c).Tracks (h.add c) := by
  obtain ⟨hfloor, htaken⟩ := ht.empty hnone
  have hrec : w.record c = { w with highest := some c, seen := 1 } := by
    unfold record
    rw [hnone]
  have hadd : h.add c = ⟨none, [c]⟩ := by
    unfold History.add
    rw [hfloor, htaken]
    rfl
  rw [hrec, hadd]
  refine ⟨ht.width_le, nofun, nofun, ?_, ?_, ?_⟩
  · rintro top htop
    obtain rfl := Option.some.inj htop
    exact .inl (List.mem_singleton_self c)
  · rintro top htop d hd
    obtain rfl := Option.some.inj htop
    obtain rfl := List.mem_singleton.mp hd
    exact UInt32.le_refl d
  · rintro top htop d hle -
    obtain rfl := Option.some.inj htop
    have hle := UInt32.le_iff_toNat_le.mp hle
    have hone : (1 : BitVec 64).getLsbD (c.toNat - d.toNat) = true ↔ c.toNat - d.toNat = 0 := by
      rw [BitVec.ofNat_eq_ofNat, BitVec.getLsbD_one]
      simp
    dsimp only
    rw [hone, List.mem_singleton, ← UInt32.toNat_inj]
    simp only [reduceCtorEq, false_and, exists_false, or_false]
    omega

/-- A value above all that was taken. -/
theorem record_higher (ht : w.Tracks h) {top c : UInt32} (htop : w.highest = some top) (hc : c > top) :
    (w.record c).Tracks (h.add c) := by
  have hgt := UInt32.lt_iff_toNat_lt.mp hc
  have hhigh := (record_above htop hc 0).1
  have hall : ∀ d ∈ (h.add c).taken, d ≤ c := fun d hd => by
    obtain hd | hd := List.mem_append.mp hd
    · exact UInt32.le_of_lt (UInt32.lt_of_le_of_lt (ht.bound top htop d hd) hc)
    · exact UInt32.le_of_eq (List.mem_singleton.mp hd)
  refine ⟨?_, fun f hf d hd => ?_, fun hno => ?_, fun t ht' => ?_, fun t ht' d hd => ?_,
    fun t ht' d hle hlt => ?_⟩
  · rw [(record_above htop hc 0).2.1]
    exact ht.width_le
  · obtain hd | hd := List.mem_append.mp hd
    · exact ht.above f hf d hd
    · obtain rfl := List.mem_singleton.mp hd
      exact (ht.takes_above htop hc).2.1 f hf
  · rw [hhigh] at hno
    cases hno
  · obtain rfl := Option.some.inj (hhigh.symm.trans ht')
    exact .inl (List.mem_append_right _ (List.mem_singleton_self c))
  · obtain rfl := Option.some.inj (hhigh.symm.trans ht')
    exact hall d hd
  · obtain rfl := Option.some.inj (hhigh.symm.trans ht')
    have hdc := UInt32.le_iff_toNat_le.mp hle
    rw [(record_above htop hc _).2.2]
    unfold History.add
    simp only [List.mem_append, List.mem_singleton]
    by_cases hd : d ≤ top
    · -- What stood below the old top has moved down with it.
      have hdt := UInt32.le_iff_toNat_le.mp hd
      have hne : d ≠ c := fun h => by
        rw [h] at hdt
        omega
      have hshift : c.toNat - d.toNat - (c.toNat - top.toNat) = top.toNat - d.toNat := by omega
      have hbits := ht.bits top htop d hd (by omega)
      rw [hshift, decide_eq_true hlt, decide_eq_true (by omega : c.toNat - top.toNat ≤ c.toNat - d.toNat),
        decide_eq_false (by omega : ¬ c.toNat - d.toNat = 0)]
      simp [hbits, hne]
    · have hdt : top.toNat < d.toNat := UInt32.lt_iff_toNat_lt.mp (UInt32.not_le.mp hd)
      have hnew : d ∉ h.taken := fun hmem => hd (ht.bound top htop d hmem)
      have hfloor : ¬ ∃ f, h.floor = some f ∧ d ≤ f := by
        rintro ⟨f, hf, hdf⟩
        exact UInt32.not_lt.mpr hdf ((ht.takes_above htop (UInt32.not_le.mp hd)).2.1 f hf)
      rw [decide_eq_false (by omega : ¬ c.toNat - top.toNat ≤ c.toNat - d.toNat)]
      simp only [Bool.and_false, Bool.false_and, Bool.false_or, decide_eq_true_eq, hnew, hfloor,
        false_or, or_false, ← UInt32.toNat_inj]
      omega

/-- A value that came late. -/
theorem record_late (ht : w.Tracks h) {top c : UInt32} (htop : w.highest = some top) (hc : c ≤ top)
    (hnew : h.takes w.width c) : (w.record c).Tracks (h.add c) := by
  have hnot : ¬ c > top := UInt32.not_lt.mpr hc
  have hle := UInt32.le_iff_toNat_le.mp hc
  have hhigh := (record_below htop hnot 0).1
  have hmem : top ∈ h.taken := by
    obtain hmem | ⟨-, hfloor⟩ := ht.reached top htop
    · exact hmem
    · exact absurd (hnew.2.1 top hfloor) (UInt32.not_lt.mpr hc)
  refine ⟨?_, fun f hf d hd => ?_, fun hno => ?_, fun t ht' => ?_, fun t ht' d hd => ?_,
    fun t ht' d hdt hlt => ?_⟩
  · rw [(record_below htop hnot 0).2.1]
    exact ht.width_le
  · obtain hd | hd := List.mem_append.mp hd
    · exact ht.above f hf d hd
    · obtain rfl := List.mem_singleton.mp hd
      exact hnew.2.1 f hf
  · rw [hhigh] at hno
    cases hno
  · obtain rfl := Option.some.inj (hhigh.symm.trans ht')
    exact .inl (List.mem_append_left _ hmem)
  · obtain rfl := Option.some.inj (hhigh.symm.trans ht')
    obtain hd | hd := List.mem_append.mp hd
    · exact ht.bound top htop d hd
    · obtain rfl := List.mem_singleton.mp hd
      exact hc
  · obtain rfl := Option.some.inj (hhigh.symm.trans ht')
    have hdt' := UInt32.le_iff_toNat_le.mp hdt
    have hbits := ht.bits top htop d hdt hlt
    have hbit : decide (top.toNat - d.toNat = top.toNat - c.toNat) = true ↔ d = c := by
      rw [decide_eq_true_eq, ← UInt32.toNat_inj]
      omega
    rw [(record_below htop hnot _).2.2, Bool.or_eq_true, Bool.and_eq_true, hbit, hbits]
    unfold History.add
    simp only [List.mem_append, List.mem_singleton, decide_eq_true hlt, true_and]
    exact or_right_comm

/-- A value that may be taken is added to the history. -/
theorem record (ht : w.Tracks h) {c : UInt32} (hnew : h.takes w.width c) :
    (w.record c).Tracks (h.add c) := by
  cases htop : w.highest with
  | none => exact ht.record_first htop c
  | some top =>
    by_cases hc : c ≤ top
    · exact ht.record_late htop hc hnew
    · exact ht.record_higher htop (UInt32.not_le.mp hc)

end Tracks

theorem record_width (w : ReplayWindow) (c : UInt32) : (w.record c).width = w.width := by
  unfold record
  cases w.highest with
  | none => rfl
  | some top =>
    dsimp only
    split <;> rfl

theorem accept_of_check {w : ReplayWindow} {c : UInt32} (h : w.check c = .ok ()) :
    w.accept c = .ok (w.record c) := by
  unfold accept
  rw [h]
  rfl

theorem accept_of_refused {w : ReplayWindow} {c : UInt32} {e : Error} (h : w.check c = .error e) :
    w.accept c = .error e := by
  unfold accept
  rw [h]
  rfl

/-- An accept answers what a check does, and moves the window where the answer is yes. -/
theorem call_accept (w : ReplayWindow) (c : UInt32) :
    w.call (.accept c) = (w.check c, if w.check c = .ok () then w.record c else w) := by
  unfold call
  cases h : w.check c with
  | ok u =>
    dsimp only
    rw [accept_of_check h]
    rfl
  | error e =>
    dsimp only
    rw [accept_of_refused h]
    rfl

theorem accepted_accept (w : ReplayWindow) (c : UInt32) (cs : List Call) :
    w.accepted (.accept c :: cs) =
      if w.check c = .ok () then c :: (w.record c).accepted cs else w.accepted cs := by
  rw [accepted]
  cases h : w.check c with
  | ok u =>
    rw [accept_of_check h]
    rfl
  | error e =>
    rw [accept_of_refused h]
    rfl

/-- A run keeps the width, and the window stands for what the run accepted. -/
theorem Tracks.run {w : ReplayWindow} {h : History} (ht : w.Tracks h) (cs : List Call) :
    (w.run cs).Tracks { h with taken := h.taken ++ w.accepted cs } ∧ (w.run cs).width = w.width := by
  induction cs generalizing w h with
  | nil =>
    rw [accepted, List.append_nil]
    exact ⟨ht, rfl⟩
  | cons call cs ih =>
    rw [ReplayWindow.run]
    cases call with
    | check c => exact ih ht
    | accept c =>
      rw [call_accept, accepted_accept]
      by_cases hc : w.check c = .ok ()
      · rw [if_pos hc, if_pos hc, ← record_width w c]
        have hall := ih (ht.record ((ht.check_iff c).mp hc))
        rwa [History.add, List.append_assoc, List.singleton_append] at hall
      · rw [if_neg hc, if_neg hc]
        exact ih ht

/-- What a run accepts, it accepts once. -/
theorem Tracks.nodup {w : ReplayWindow} {h : History} (ht : w.Tracks h) (hd : h.taken.Nodup)
    (cs : List Call) : (h.taken ++ w.accepted cs).Nodup := by
  induction cs generalizing w h with
  | nil =>
    rw [accepted, List.append_nil]
    exact hd
  | cons call cs ih =>
    cases call with
    | check c => exact ih ht hd
    | accept c =>
      rw [accepted_accept]
      by_cases hc : w.check c = .ok ()
      · have hnew := (ht.check_iff c).mp hc
        have hall := ih (ht.record hnew) (List.nodup_append.mpr ⟨hd, List.nodup_singleton c,
          fun a ha b hb hab => hnew.1 (List.mem_singleton.mp hb ▸ hab ▸ ha)⟩)
        rwa [if_pos hc, ← List.singleton_append, ← List.append_assoc]
      · rw [if_neg hc]
        exact ih ht hd

/-- Along every run of calls, a window takes a value exactly where it is new, above the floor it was
resumed from, and no further below the highest taken than the width. A check answers the same, and
neither it nor a refusal changes the window. No value is taken twice. -/
theorem replayWindow_exact {floor : Option UInt32} {w₀ : ReplayWindow} (hb : Built floor w₀)
    (cs : List Call) :
    let w := w₀.run cs
    let h : History := ⟨floor, w₀.accepted cs⟩
    (∀ c, (w.call (.accept c)).1 = .ok () ↔ h.takes w₀.width c) ∧
    (∀ c, (w.call (.check c)).1 = (w.call (.accept c)).1 ∧ (w.call (.check c)).2 = w) ∧
    (∀ c, (w.call (.accept c)).1 ≠ .ok () → (w.call (.accept c)).2 = w) ∧
    (w₀.accepted cs).Nodup := by
  intro w h
  obtain ⟨ht, hwidth⟩ := hb.tracks.run cs
  refine ⟨fun c => ?_, fun c => ?_, fun c hno => ?_, hb.tracks.nodup List.nodup_nil cs⟩
  · rw [call_accept, ← hwidth]
    exact ht.check_iff c
  · rw [call_accept]
    exact ⟨rfl, rfl⟩
  · rw [call_accept] at hno ⊢
    exact if_neg hno

/-- A window of width four after three calls, the last one late. -/
theorem replayWindow_exact_late :
    let w := (new 4).run [.accept 10, .accept 12, .accept 11]
    ((w.call (.accept 8)).1 = .ok () ↔ History.takes ⟨none, [10, 12, 11]⟩ 4 8) ∧
      (w.call (.accept 11)).1 ≠ .ok () :=
  ⟨(replayWindow_exact (.new 4) [.accept 10, .accept 12, .accept 11]).1 8, by decide⟩

/-! ## Messages with numbers -/

section Messages

variable {α : Type} {number : α → UInt32} {w : ReplayWindow} {h : History}

/-- The messages that a window takes, of those that come one after another. -/
def taking (number : α → UInt32) (w : ReplayWindow) : List α → List α
  | [] => []
  | a :: as =>
    if w.check (number a) = .ok () then a :: taking number (w.record (number a)) as
    else taking number w as

theorem taking_sublist (as : List α) : (w.taking number as).Sublist as := by
  induction as generalizing w with
  | nil => exact .slnil
  | cons a as ih =>
    unfold taking
    split
    · exact ih.cons_cons a
    · exact ih.cons a

/-- The numbers are those that the calls accept. -/
theorem map_taking (as : List α) :
    (w.taking number as).map number = w.accepted (as.map fun a => .accept (number a)) := by
  induction as generalizing w with
  | nil => rfl
  | cons a as ih =>
    rw [List.map_cons, accepted_accept, taking]
    split
    · rw [List.map_cons, ih]
    · exact ih

/-- No number is taken twice, nor one that was taken before. -/
theorem Tracks.taking_nodup (ht : w.Tracks h) (hd : h.taken.Nodup) (as : List α) :
    (h.taken ++ (w.taking number as).map number).Nodup := by
  rw [map_taking]
  exact ht.nodup hd _

/-- What is not taken came too late, or not for the first time. -/
theorem Tracks.missed (ht : w.Tracks h) {as : List α} {a : α} (ha : a ∈ as) :
    let taken := h.taken ++ (w.taking number as).map number
    number a ∈ taken ∨ (∃ f, h.floor = some f ∧ number a ≤ f) ∨
      ∃ c ∈ taken, (number a).toNat + w.width.toNat < c.toNat := by
  induction as generalizing w h with
  | nil => exact absurd ha List.not_mem_nil
  | cons b as ih =>
    intro taken
    have hcheck := ht.check_iff (number b)
    by_cases hb : w.check (number b) = .ok ()
    · have hcons : w.taking number (b :: as) = b :: (w.record (number b)).taking number as := if_pos hb
      have htaken : taken = (h.add (number b)).taken ++ ((w.record (number b)).taking number as).map number := by
        simp only [taken, hcons, List.map_cons, History.add, List.append_assoc, List.singleton_append]
      obtain rfl | ha := List.mem_cons.mp ha
      · refine .inl ?_
        rw [htaken]
        exact List.mem_append_left _ (List.mem_append_right _ (List.mem_singleton_self _))
      · have hrest := ih (ht.record (hcheck.mp hb)) ha
        rwa [record_width, ← htaken] at hrest
    · have hskip : w.taking number (b :: as) = w.taking number as := if_neg hb
      have htaken : taken = h.taken ++ (w.taking number as).map number := by simp only [taken, hskip]
      rw [htaken]
      obtain rfl | ha := List.mem_cons.mp ha
      · have hno := mt hcheck.mpr hb
        unfold History.takes at hno
        simp only [not_and_or, not_not, not_forall] at hno
        obtain hmem | ⟨f, hf, hle⟩ | ⟨m, hm, hlt⟩ := hno
        · exact .inl (List.mem_append_left _ hmem)
        · exact .inr (.inl ⟨f, hf, UInt32.not_lt.mp hle⟩)
        · obtain ⟨⟨c, hc, rfl⟩, -⟩ := History.highest_eq_some.mp hm
          exact .inr (.inr ⟨c, List.mem_append_left _ hc, by omega⟩)
      · exact ih ht ha

/-- Without a width, what is taken is above all that was. -/
theorem Tracks.takes_strict (ht : w.Tracks h) (hw : w.width = 0) {top c : UInt32}
    (htop : w.highest = some top) (hc : h.takes w.width c) : top < c := by
  have hnew := hc.1
  have hfloor := hc.2.1
  by_contra hle
  obtain ⟨hnear, -⟩ := (ht.takes_below htop (UInt32.not_lt.mp hle)).mp hc
  have hle' := UInt32.le_iff_toNat_le.mp (UInt32.not_lt.mp hle)
  have hzero : w.width.toNat = 0 := by rw [hw]; rfl
  obtain rfl : c = top := UInt32.toNat_inj.mp (by omega)
  obtain hmem | ⟨-, hf⟩ := ht.reached c htop
  · exact hnew hmem
  · exact UInt32.lt_irrefl _ (hfloor c hf)

/-- Without a width, the numbers that are taken rise. -/
theorem Tracks.taking_rises (ht : w.Tracks h) (hw : w.width = 0) (as : List α) :
    (∀ a ∈ w.taking number as, ∀ top, w.highest = some top → top < number a) ∧
      ((w.taking number as).map number).Pairwise (· < ·) := by
  induction as generalizing w h with
  | nil => exact ⟨nofun, .nil⟩
  | cons b as ih =>
    have hcheck := ht.check_iff (number b)
    by_cases hb : w.check (number b) = .ok ()
    · have hcons : w.taking number (b :: as) = b :: (w.record (number b)).taking number as := if_pos hb
      have habove {top : UInt32} (htop : w.highest = some top) := ht.takes_strict hw htop (hcheck.mp hb)
      have hhigh : (w.record (number b)).highest = some (number b) := by
        cases htop : w.highest with
        | none =>
          unfold ReplayWindow.record
          rw [htop]
        | some top => exact (record_above htop (habove htop) 0).1
      obtain ⟨hall, hrises⟩ := ih (ht.record (hcheck.mp hb)) ((record_width w _).trans hw)
      rw [hcons, List.map_cons]
      refine ⟨fun a ha top htop => ?_, List.pairwise_cons.mpr ⟨fun c hc => ?_, hrises⟩⟩
      · obtain rfl | ha := List.mem_cons.mp ha
        · exact habove htop
        · exact UInt32.lt_trans (habove htop) (hall a ha _ hhigh)
      · obtain ⟨a, ha, rfl⟩ := List.mem_map.mp hc
        exact hall a ha _ hhigh
    · have hskip : w.taking number (b :: as) = w.taking number as := if_neg hb
      rw [hskip]
      exact ih ht hw

end Messages

end ReplayWindow

end Dlms
