import Mathlib.Algebra.Group.Nat.Defs
import Mathlib.Data.List.Basic

/-!
# Galois/counter mode

The authenticated encryption of SP 800-38D for a nonce of twelve bytes, over any block cipher `E` of
sixteen-byte blocks. `encrypt` gives the tag and the ciphertext; with no text to encrypt the tag is a
message authentication code (`tag`, `encrypt_nil`).

A string that starts with a whole block has that block first and then the blocks of what follows
(`blocks_append`), so that whole blocks may be taken off as they come (`blocks_flatten`).
-/

namespace Gcm

/-! ## The field -/

/-- Sixteen bytes as a field element, the first bit the highest. -/
def load (bs : List UInt8) : BitVec 128 :=
  bs.foldl (fun v b => (v <<< 8) ||| b.toBitVec.setWidth 128) 0

/-- A field element as sixteen bytes. -/
def store (v : BitVec 128) : List UInt8 :=
  (List.range 16).map fun i => UInt8.ofNat (v >>> (8 * (15 - i))).toNat

@[simp] theorem length_store (v : BitVec 128) : (store v).length = 16 := by
  simp [store]

/-- Multiplication by the field's generator. -/
def double (v : BitVec 128) : BitVec 128 :=
  if v.getLsbD 0 then (v >>> 1) ^^^ (0xE1 <<< 120) else v >>> 1

/-- The product of two field elements: the sum of `y` doubled `i` times, over the bits `i` of `x`. -/
def mul (x y : BitVec 128) : BitVec 128 :=
  ((List.range 128).foldl
    (fun zv i => (if x.getMsbD i then zv.1 ^^^ zv.2 else zv.1, double zv.2)) (0#128, y)).1

/-! ## The hash -/

/-- The hash of blocks under the subkey `h`. -/
def ghash (h : BitVec 128) (bs : List (List UInt8)) : BitVec 128 :=
  bs.foldl (fun y b => mul (y ^^^ load b) h) 0

/-- A block of at most sixteen bytes, filled up with zeros. -/
def pad (bs : List UInt8) : List UInt8 := bs ++ List.replicate (16 - bs.length) 0

theorem length_pad {bs : List UInt8} (h : bs.length ≤ 16) : (pad bs).length = 16 := by
  simp only [pad, List.length_append, List.length_replicate]
  omega

theorem pad_of_length {bs : List UInt8} (h : bs.length = 16) : pad bs = bs := by
  simp [pad, h]

/-- The blocks of a string, the last one filled up. -/
def blocks (bs : List UInt8) : List (List UInt8) :=
  (List.range ((bs.length + 15) / 16)).map fun i => pad ((bs.drop (16 * i)).take 16)

@[simp] theorem blocks_nil : blocks [] = [] := rfl

theorem length_of_mem_blocks {bs b : List UInt8} (h : b ∈ blocks bs) : b.length = 16 := by
  obtain ⟨i, -, rfl⟩ := List.mem_map.mp h
  exact length_pad (List.length_take_le ..)

/-- A whole block in front comes off as it stands. -/
theorem blocks_append {b : List UInt8} (hb : b.length = 16) (rest : List UInt8) :
    blocks (b ++ rest) = b :: blocks rest := by
  have hn : ((b ++ rest).length + 15) / 16 = (rest.length + 15) / 16 + 1 := by
    rw [List.length_append]
    omega
  unfold blocks
  rw [hn, List.range_succ_eq_map, List.map_cons, List.map_map]
  congr 1
  · rw [Nat.mul_zero, List.drop_zero, List.take_append_of_le_length (by omega),
      List.take_of_length_le (by omega), pad_of_length hb]
  · apply List.map_congr_left
    intro i _
    have hi : 16 * (i + 1) = b.length + 16 * i := by omega
    show pad (((b ++ rest).drop (16 * (i + 1))).take 16) = _
    rw [hi, List.drop_append, List.drop_of_length_le (by omega), Nat.add_sub_cancel_left, List.nil_append]

/-- Whole blocks in front come off as they stand. -/
theorem blocks_flatten {bs : List (List UInt8)} (hbs : ∀ b ∈ bs, b.length = 16) (rest : List UInt8) :
    blocks (bs.flatten ++ rest) = bs ++ blocks rest := by
  induction bs with
  | nil => rfl
  | cons b bs ih =>
    rw [List.flatten_cons, List.append_assoc, blocks_append (hbs b (by simp)),
      ih fun c hc => hbs c (by simp [hc])]
    rfl

/-- What is shorter than a block is one block, filled up. -/
theorem blocks_short {bs : List UInt8} (hpos : bs ≠ []) (h : bs.length < 16) :
    blocks bs = [pad bs] := by
  have hlen : 0 < bs.length := List.length_pos_of_ne_nil hpos
  have hn : (bs.length + 15) / 16 = 1 := by omega
  unfold blocks
  rw [hn]
  simp [List.range_succ, List.take_of_length_le (show bs.length ≤ 16 by omega)]

/-- A number in eight bytes, the highest first. -/
def be64 (n : Nat) : List UInt8 := (List.range 8).map fun i => UInt8.ofNat (n / 256 ^ (7 - i))

/-- The last block of the hash: how many bits there are of additional data and of ciphertext. -/
def lengths (aad text : Nat) : List UInt8 := be64 (8 * aad) ++ be64 (8 * text)

@[simp] theorem length_lengths (aad text : Nat) : (lengths aad text).length = 16 := by
  simp [lengths, be64]

/-! ## The mode -/

section Mode

variable (E : List UInt8 → List UInt8)

/-- The counter block of a message's nonce. -/
def firstCounter (nonce : List UInt8) : List UInt8 := nonce ++ [0, 0, 0, 1]

/-- The counter block `n` steps later: the last four bytes count. -/
def counter (cb : List UInt8) (n : Nat) : List UInt8 :=
  store (BitVec.ofNat 128 ((load cb).toNat / 2 ^ 32 * 2 ^ 32 + ((load cb).toNat + n) % 2 ^ 32))

/-- Bytes exclusive-ored, as far as both go. -/
def xor (bs cs : List UInt8) : List UInt8 := List.zipWith (· ^^^ ·) bs cs

/-- The text under the key stream that starts one step after the counter block. -/
def gctr (cb text : List UInt8) : List UInt8 :=
  xor text (((List.range ((text.length + 15) / 16)).map fun i => E (counter cb (i + 1))).flatten)

/-- The hash of a message's additional data and ciphertext. -/
def hash (aad text : List UInt8) : BitVec 128 :=
  ghash (load (E (List.replicate 16 0))) (blocks aad ++ blocks text ++ [lengths aad.length text.length])

/-- The tag of a message's additional data and ciphertext. -/
def tag (nonce aad text : List UInt8) : List UInt8 :=
  xor (store (hash E aad text)) (E (firstCounter nonce))

/-- The tag and the ciphertext of a message. -/
def encrypt (nonce aad text : List UInt8) : List UInt8 × List UInt8 :=
  (tag E nonce aad (gctr E (firstCounter nonce) text), gctr E (firstCounter nonce) text)

@[simp] theorem gctr_nil (cb : List UInt8) : gctr E cb [] = [] := rfl

/-- Without a text the tag authenticates the additional data. -/
theorem encrypt_nil (nonce aad : List UInt8) : encrypt E nonce aad [] = (tag E nonce aad [], []) := rfl

end Mode

end Gcm
