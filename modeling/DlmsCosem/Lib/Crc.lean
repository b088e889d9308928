import Mathlib.Algebra.Group.Nat.Defs
import Mathlib.Data.List.Basic
import Mathlib.Logic.Function.Iterate

/-!
# Cyclic redundancy checks

A check register of `w` bits, lowest bit first: one shift moves it down by a place, and adds the
polynomial `p` where a one falls out. `Crc.run` takes a bit string in, a bit before each shift.

* `run_eq_iterate`: a bit string that is no longer than the register may as well be loaded whole.
* `shift_injective`: no shift forgets anything, if the highest bit of `p` is set.
* `run_ne_of_burst`: two bit strings that differ, and only within `w` bits on end, leave the register
  in different states. This is what makes the check find every burst of `w` bits.
-/

namespace Crc

variable {w : Nat}

/-- The bit `d` in the lowest place. -/
def bit (d : Bool) : BitVec w := BitVec.setWidth w (BitVec.ofBool d)

/-- A bit string in the register, its first bit in the lowest place. -/
def load : List Bool → BitVec w
  | [] => 0
  | d :: ds => bit d ^^^ (load ds <<< 1)

/-- The low `n` bits of `v`, the lowest first. -/
def bits (n v : Nat) : List Bool := (List.range n).map v.testBit

@[simp] theorem length_bits (n v : Nat) : (bits n v).length = n := by
  simp [bits]

@[simp] theorem getLsbD_bit (d : Bool) (i : Nat) :
    (bit d : BitVec w).getLsbD i = (decide (i < w) && (decide (i = 0) && d)) := by
  simp only [bit, BitVec.getLsbD_setWidth, BitVec.getLsbD_ofBool]

theorem getLsbD_load (ds : List Bool) (i : Nat) :
    (load ds : BitVec w).getLsbD i = (decide (i < w) && ds.getD i false) := by
  induction ds generalizing i with
  | nil => simp [load]
  | cons d ds ih =>
    simp only [load, BitVec.getLsbD_xor, getLsbD_bit, BitVec.getLsbD_shiftLeft, ih]
    cases i with
    | zero => by_cases h : 0 < w <;> simp [h]
    | succ i =>
      by_cases h : i + 1 < w
      · have h' : i < w := by omega
        simp [h, h']
      · simp [h]

/-- Bit strings of one length that the register can hold are told apart in it. -/
theorem load_inj {ds es : List Bool} (hlen : ds.length = es.length) (hw : ds.length ≤ w)
    (h : (load ds : BitVec w) = load es) : ds = es := by
  apply List.ext_getElem hlen
  intro i hi hi'
  have hbit := congrArg (fun x => x.getLsbD i) h
  simp only [getLsbD_load, show i < w by omega, decide_true, Bool.true_and] at hbit
  simpa [hi, hi'] using hbit

/-- A number that fits is its own bits. -/
theorem load_bits {n v : Nat} (hv : v < 2 ^ n) :
    (load (bits n v) : BitVec w) = BitVec.ofNat w v := by
  apply BitVec.eq_of_getLsbD_eq
  intro i hi
  rw [getLsbD_load, BitVec.getLsbD_ofNat]
  by_cases h : i < n
  · simp [hi, bits, h]
  · have htop : v.testBit i = false := Nat.testBit_lt_two_pow
      (Nat.lt_of_lt_of_le hv (Nat.pow_le_pow_right (by decide) (by omega)))
    simp [hi, bits, h, htop]

/-- The bits of a number are those of its low part and those above. -/
theorem bits_add (m n v : Nat) : bits (m + n) v = bits m v ++ bits n (v >>> m) := by
  simp only [bits, List.range_add, List.map_append, List.map_map]
  congr 1
  apply List.map_congr_left
  intro i _
  simp [Nat.testBit_shiftRight]

section Register

variable (p : BitVec w)

/-- One shift of the register. -/
def shift (s : BitVec w) : BitVec w := if s.getLsbD 0 then (s >>> 1) ^^^ p else s >>> 1

/-- The register after a bit string. -/
def run (s : BitVec w) (ds : List Bool) : BitVec w := ds.foldl (fun s d => shift p (s ^^^ bit d)) s

theorem run_append (s : BitVec w) (ds es : List Bool) :
    run p s (ds ++ es) = run p (run p s ds) es := by
  simp [run]

/-- A shift is linear. -/
theorem shift_xor (s t : BitVec w) : shift p (s ^^^ t) = shift p s ^^^ shift p t := by
  apply BitVec.eq_of_getLsbD_eq
  intro i _
  unfold shift
  -- Where both add the polynomial it cancels.
  by_cases hs : s.getLsbD 0 <;> by_cases ht : t.getLsbD 0 <;> simp [hs, ht] <;>
    cases s.getLsbD (1 + i) <;> cases t.getLsbD (1 + i) <;> cases p.getLsbD i <;> rfl

/-- A bit that is not in the lowest place yet only moves down. -/
theorem shift_load {ds : List Bool} (h : ds.length < w) : shift p (load ds <<< 1) = load ds := by
  have hlow : (load ds <<< 1 : BitVec w).getLsbD 0 = false := by simp
  unfold shift
  rw [hlow, if_neg Bool.false_ne_true]
  apply BitVec.eq_of_getLsbD_eq
  intro i hi
  simp only [BitVec.getLsbD_ushiftRight, BitVec.getLsbD_shiftLeft, getLsbD_load]
  by_cases htop : 1 + i < w
  · simp [htop]
  · have hout : ds.length ≤ i := by omega
    simp [htop, hout]

/-- A bit string that the register can hold may as well be loaded whole before the shifts. -/
theorem run_eq_iterate {ds : List Bool} (h : ds.length ≤ w) (s : BitVec w) :
    run p s ds = (shift p)^[ds.length] (s ^^^ load ds) := by
  induction ds generalizing s with
  | nil => simp [run, load]
  | cons d ds ih =>
    have hds : ds.length < w := h
    calc run p s (d :: ds) = run p (shift p (s ^^^ bit d)) ds := rfl
      _ = (shift p)^[ds.length] (shift p (s ^^^ bit d) ^^^ load ds) := ih (Nat.le_of_lt hds) _
      _ = (shift p)^[ds.length] (shift p (s ^^^ bit d ^^^ (load ds <<< 1))) := by
        rw [shift_xor p (s ^^^ bit d), shift_load p hds]
      _ = (shift p)^[(d :: ds).length] (s ^^^ load (d :: ds)) := by
        rw [List.length_cons, Function.iterate_succ_apply, load, BitVec.xor_assoc]

variable {p}

/-- No shift forgets anything: the highest bit says whether the polynomial was added. -/
theorem shift_injective (hp : p.getLsbD (w - 1) = true) : Function.Injective (shift p) := by
  intro s t h
  have hw : 0 < w := by
    by_contra h0
    simp [BitVec.getLsbD_of_ge p (w - 1) (by omega)] at hp
  have htop : ∀ x : BitVec w, (shift p x).getLsbD (w - 1) = x.getLsbD 0 := by
    intro x
    have hout : x.getLsbD (1 + (w - 1)) = false := BitVec.getLsbD_of_ge _ _ (by omega)
    unfold shift
    by_cases hx : x.getLsbD 0 <;> simp [hx, hp, hout]
  have hlow : s.getLsbD 0 = t.getLsbD 0 := by
    rw [← htop s, ← htop t, h]
  have hrest : s >>> 1 = t >>> 1 := by
    unfold shift at h
    rw [hlow] at h
    by_cases ht : t.getLsbD 0 = true
    · rw [if_pos ht, if_pos ht] at h
      exact (BitVec.xor_left_inj p).mp h
    · rwa [if_neg ht, if_neg ht] at h
  apply BitVec.eq_of_getLsbD_eq
  intro i _
  cases i with
  | zero => exact hlow
  | succ i =>
    have hbit := congrArg (fun x => x.getLsbD i) hrest
    simpa [BitVec.getLsbD_ushiftRight, Nat.add_comm] using hbit

/-- The same bits take different registers to different ones. -/
theorem run_injective (hp : p.getLsbD (w - 1) = true) (ds : List Bool) :
    Function.Injective fun s => run p s ds := by
  induction ds with
  | nil => exact fun _ _ h => h
  | cons d ds ih =>
    intro s t h
    exact (BitVec.xor_left_inj (bit d)).mp (shift_injective hp (ih h))

/-- The same register takes different bits to different ones, if it can hold them. -/
theorem run_ne_of_ne (hp : p.getLsbD (w - 1) = true) (s : BitVec w) {ds es : List Bool}
    (hlen : ds.length = es.length) (hw : ds.length ≤ w) (hne : ds ≠ es) : run p s ds ≠ run p s es := by
  intro h
  rw [run_eq_iterate p hw, run_eq_iterate p (hlen ▸ hw), hlen] at h
  have hload := (shift_injective hp).iterate _ h
  exact hne (load_inj hlen hw ((BitVec.xor_right_inj s).mp hload))

/-- Two bit strings of one length that differ, and only within `w` bits on end from `a`, leave the
register in different states. -/
theorem run_ne_of_burst (hp : p.getLsbD (w - 1) = true) (s : BitVec w) {ds es : List Bool} (a : Nat)
    (hlen : ds.length = es.length) (hne : ds ≠ es)
    (hburst : ∀ i, ds[i]? ≠ es[i]? → a ≤ i ∧ i < a + w) : run p s ds ≠ run p s es := by
  have hsame : ∀ i, ¬ (a ≤ i ∧ i < a + w) → ds[i]? = es[i]? := by
    intro i hi
    by_contra h
    exact hi (hburst i h)
  have hbefore : ds.take a = es.take a := by
    apply List.ext_getElem?
    intro i
    by_cases hi : i < a
    · rw [List.getElem?_take_of_lt hi, List.getElem?_take_of_lt hi]
      exact hsame i (by omega)
    · rw [List.getElem?_take_eq_none (by omega), List.getElem?_take_eq_none (by omega)]
  have hafter : (ds.drop a).drop w = (es.drop a).drop w := by
    apply List.ext_getElem?
    intro i
    simpa using hsame (a + w + i) (by omega)
  have hcut : ∀ xs : List Bool, xs = xs.take a ++ ((xs.drop a).take w ++ (xs.drop a).drop w) := by
    intro xs
    rw [List.take_append_drop, List.take_append_drop]
  have hmid : (ds.drop a).take w ≠ (es.drop a).take w := by
    intro h
    apply hne
    rw [hcut ds, hcut es, hbefore, hafter, h]
  intro h
  rw [hcut ds, hcut es, hbefore, hafter, run_append, run_append, run_append, run_append] at h
  refine run_ne_of_ne hp _ ?_ ?_ hmid (run_injective hp _ h)
  · simp [hlen]
  · simp only [List.length_take]
    omega

/-- A register that takes its own content in, but for `m`, ends in a state that is the same for all. -/
theorem run_own {v : Nat} (s m : BitVec w) (hv : v < 2 ^ w) (hs : BitVec.ofNat w v = s ^^^ m) :
    run p s (bits w v) = (shift p)^[w] m := by
  rw [run_eq_iterate p (Nat.le_of_eq (length_bits w v)), length_bits, load_bits hv, hs, ← BitVec.xor_assoc,
    BitVec.xor_self, BitVec.zero_xor]

end Register

end Crc
