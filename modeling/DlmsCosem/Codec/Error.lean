import Mathlib.Data.List.Basic
import Mathlib.Tactic.Ring
import Mathlib.Tactic.NormNum

/-!
# Errors and bytes

Every decoder and encoder ends with an `Error`: what went wrong and the byte it went wrong at.
Numbers on the wire are big-endian (`beNat`, `beBytes`).
-/

namespace Dlms

/-- A byte string. -/
abbrev Bytes := List UInt8

theorem Bytes.start_le (bs : Bytes) : 0 ≤ bs.length := Nat.zero_le _

/-- What went wrong. -/
inductive ErrorKind
  | truncated (needed : Nat)
  | invalidTag (tag : UInt8)
  | invalidValue
  | typeMismatch
  | invalidLength
  | depthExceeded
  | workExceeded
  | bufferTooSmall (needed : Nat)
  | badChecksum
  | badTag
  | replay
  | unexpectedMessage
  | unsupported
  deriving Repr, DecidableEq

/-- A codec error and the byte it happened at. -/
structure Error where
  kind : ErrorKind
  offset : Nat
  deriving Repr, DecidableEq

/-- The result of a fallible function. -/
abbrev Result (α : Type) := Except Error α

instance Except.decEq {ε α : Type} [DecidableEq ε] [DecidableEq α] : DecidableEq (Except ε α)
  | .ok a, .ok b => decidable_of_iff (a = b) (by simp)
  | .error a, .error b => decidable_of_iff (a = b) (by simp)
  | .ok _, .error _ => isFalse (by simp)
  | .error _, .ok _ => isFalse (by simp)

/-- `Err(Error::new(kind, offset))`. -/
def Error.fail {α : Type} (kind : ErrorKind) (offset : Nat) : Result α := .error ⟨kind, offset⟩

/-- `is_truncated`. -/
def Error.isTruncated (e : Error) : Bool :=
  match e.kind with
  | .truncated _ => true
  | _ => false

theorem Error.isTruncated_iff {e : Error} : e.isTruncated = true ↔ ∃ k o, e = ⟨.truncated k, o⟩ := by
  obtain ⟨kind, offset⟩ := e
  cases kind <;> simp [isTruncated]

theorem Result.bind_ok {α β : Type} {x : Result α} {f : α → Result β} {b : β} :
    (x >>= f) = .ok b ↔ ∃ a, x = .ok a ∧ f a = .ok b := by
  cases x with
  | ok a => exact ⟨fun h => ⟨a, rfl, h⟩, fun ⟨_, ha, h⟩ => (Except.ok.inj ha) ▸ h⟩
  | error e => exact ⟨(nomatch ·), fun ⟨_, ha, _⟩ => nomatch ha⟩

theorem Result.bind_error {α β : Type} {x : Result α} {f : α → Result β} {e : Error} :
    (x >>= f) = .error e ↔ x = .error e ∨ ∃ a, x = .ok a ∧ f a = .error e := by
  cases x with
  | ok a =>
    refine ⟨fun h => .inr ⟨a, rfl, h⟩, ?_⟩
    rintro (⟨⟨⟩⟩ | ⟨_, ha, h⟩)
    exact (Except.ok.inj ha) ▸ h
  | error e' =>
    refine ⟨fun h => .inl (congrArg Except.error (Except.error.inj h)), ?_⟩
    rintro (⟨⟨⟩⟩ | ⟨_, ⟨⟩, _⟩)
    rfl

/-! ## Big-endian numbers -/

/-- The number that the bytes spell, the most significant first. -/
def beNat (bs : Bytes) : Nat := bs.foldl (fun v b => v * 256 + b.toNat) 0

/-- `to_be_bytes`: the low `k` bytes of `v`, the most significant first. -/
def beBytes : Nat → Nat → Bytes
  | 0, _ => []
  | k + 1, v => UInt8.ofNat (v / 256 ^ k) :: beBytes k v

@[simp] theorem length_beBytes (k v : Nat) : (beBytes k v).length = k := by
  induction k with
  | zero => rfl
  | succ k ih => simp [beBytes, ih]

theorem getElem_beBytes {k v i : Nat} (h : i < (beBytes k v).length) :
    (beBytes k v)[i] = UInt8.ofNat (v / 256 ^ (k - 1 - i)) := by
  induction k generalizing i with
  | zero => simp at h
  | succ k ih =>
    cases i with
    | zero => rfl
    | succ i =>
      rw [length_beBytes] at h
      have hi : k + 1 - 1 - (i + 1) = k - 1 - i := by omega
      rw [hi, ← ih (by rw [length_beBytes]; omega)]
      rfl

theorem beNat_append_aux (bs : Bytes) (a : Nat) :
    bs.foldl (fun v b => v * 256 + b.toNat) a = a * 256 ^ bs.length + beNat bs := by
  unfold beNat
  induction bs generalizing a with
  | nil => simp
  | cons b bs ih =>
    rw [List.foldl_cons, List.foldl_cons, ih, ih (0 * 256 + b.toNat), List.length_cons, pow_succ']
    ring

theorem beNat_cons (b : UInt8) (bs : Bytes) :
    beNat (b :: bs) = b.toNat * 256 ^ bs.length + beNat bs := by
  have h := beNat_append_aux bs (0 * 256 + b.toNat)
  rw [Nat.zero_mul, Nat.zero_add] at h
  rw [beNat, List.foldl_cons, Nat.zero_mul, Nat.zero_add, h]

theorem beNat_lt (bs : Bytes) : beNat bs < 256 ^ bs.length := by
  induction bs with
  | nil => simp [beNat]
  | cons b bs ih =>
    have hb := b.toNat_lt
    rw [beNat_cons, List.length_cons, pow_succ']
    calc b.toNat * 256 ^ bs.length + beNat bs < b.toNat * 256 ^ bs.length + 256 ^ bs.length := by omega
      _ = (b.toNat + 1) * 256 ^ bs.length := by ring
      _ ≤ 256 * 256 ^ bs.length := Nat.mul_le_mul_right _ (by omega)

theorem beNat_beBytes (k v : Nat) : beNat (beBytes k v) = v % 256 ^ k := by
  induction k with
  | zero => simp [beBytes, beNat, Nat.mod_one]
  | succ k ih =>
    rw [beBytes, beNat_cons, length_beBytes, ih, pow_succ, Nat.mod_mul]
    simp only [UInt8.toNat_ofNat']
    rw [Nat.add_comm, Nat.mul_comm]

theorem beBytes_mod (k m v : Nat) (h : k ≤ m) : beBytes k (v % 256 ^ m) = beBytes k v := by
  induction k with
  | zero => rfl
  | succ k ih =>
    rw [beBytes, beBytes, ih (by omega)]
    congr 1
    apply UInt8.toNat_inj.mp
    simp only [UInt8.toNat_ofNat']
    obtain ⟨d, rfl⟩ : ∃ d, m = k + (d + 1) := ⟨m - k - 1, by omega⟩
    rw [pow_add, Nat.mod_mul_right_div_self, pow_succ']
    exact Nat.mod_mul_right_mod _ _ _

/-- Bytes are the big-endian spelling of the number they spell. -/
theorem beBytes_beNat (bs : Bytes) : beBytes bs.length (beNat bs) = bs := by
  induction bs with
  | nil => rfl
  | cons b bs ih =>
    have hlt := beNat_lt bs
    rw [List.length_cons, beBytes, beNat_cons]
    congr 1
    · rw [Nat.mul_comm, Nat.mul_add_div (Nat.pow_pos (by norm_num)), Nat.div_eq_of_lt hlt, Nat.add_zero,
        UInt8.ofNat_toNat]
    · rw [← beBytes_mod bs.length bs.length _ le_rfl, Nat.mul_add_mod_of_lt hlt]
      exact ih

end Dlms
