import DlmsCosem.Axdr.Iteration
import DlmsCosem.Axdr.Shortest
import DlmsCosem.Client.Listener
import DlmsCosem.Security.Sample
import DlmsCosem.Xdlms.ReadBack
import Mathlib.Data.List.Rotate

/-!
# What a listener reads

The first byte of a text decides how it is read: as a whole APDU, which is checked to its end, or as a
notification without a tag, where the listener does not look at what follows. So a deciphered text without
the tag may be anything that starts like a notification, and one that a plain frame carries, whose tag is
off already, loses its first byte where that is a tag once more. `handled_genuine` says when the result is
what the text says all the same.

Two readings of one text with the tag and without it agree in one case only, which is arithmetic on lengths
(`one_byte_apart`).
-/

namespace Dlms

/-! ## Two readings of one text -/

/-- `bs` is a length of `n`, in one of its forms. -/
inductive SpellsLength (n : Nat) : Bytes → Prop
  | short (first : UInt8) : first.toNat < 0x80 → n = first.toNat → SpellsLength n [first]
  | long (first : UInt8) (bs : Bytes) : first.toNat = 0x80 + bs.length → 1 ≤ bs.length → bs.length ≤ 4 →
    n = beNat bs → SpellsLength n (first :: bs)

theorem SpellsLength.ne_nil {n : Nat} {bs : Bytes} (h : SpellsLength n bs) : bs ≠ [] := by
  cases h <;> simp

theorem Read.length_spells {r r' : Reader} {n : Nat} (h : Read.length r = (.ok n, r')) :
    ∃ bs, SpellsLength n bs ∧ r.Consumed bs r'.rest r' := by
  obtain ⟨first, r₁, hu8, h⟩ := Prog.bind_ok h
  obtain ⟨hrest, hadv⟩ := Read.u8_ok hu8
  by_cases hfirst : first < 0x80
  · rw [if_pos hfirst] at h
    obtain ⟨rfl, rfl⟩ : first.toNat = n ∧ r₁ = r' := by simpa using h
    exact ⟨[first], .short first (UInt8.lt_iff_toNat_lt.mp hfirst) rfl, hrest, hadv⟩
  · rw [if_neg hfirst] at h
    split at h
    · cases h
    · rename_i hn
      simp only [Bool.or_eq_true, beq_iff_eq, decide_eq_true_eq, not_or, Nat.not_lt] at hn
      obtain ⟨bs, r₂, htake, h⟩ := Prog.bind_ok h
      obtain ⟨rfl, rfl⟩ : beNat bs = n ∧ r₂ = r' := by simpa using h
      have hlen := Read.length_take htake
      have hc := Read.take_consumed htake
      have hone : r.Consumed [first] (bs ++ r₂.rest) r₁ := ⟨by rw [hrest, hc.rest]; rfl, hadv⟩
      have hand : (first &&& 0x7f).toNat = first.toNat % 128 := by
        rw [UInt8.toNat_and]
        exact Nat.and_two_pow_sub_one_eq_mod first.toNat 7
      have hlt := first.toNat_lt
      rw [UInt8.lt_iff_toNat_lt] at hfirst
      have h128 : 128 ≤ first.toNat := Nat.le_of_not_lt hfirst
      refine ⟨first :: bs, .long first bs ?_ ?_ ?_ rfl, hone.trans hc⟩ <;> omega

theorem Read.lengthPrefixed_spells {r r' : Reader} {text : Bytes}
    (h : Read.lengthPrefixed r = (.ok text, r')) :
    ∃ bs, SpellsLength text.length bs ∧ r.Consumed (bs ++ text) r'.rest r' := by
  obtain ⟨n, r₁, hlength, htake⟩ := Prog.bind_ok h
  obtain ⟨bs, hspells, hc⟩ := Read.length_spells hlength
  have hlen := Read.length_take htake
  subst hlen
  have hrest := (Read.take_consumed htake).rest
  rw [hrest] at hc
  exact ⟨bs, hspells, hc.trans (Read.take_consumed htake)⟩

/-- What a date and time that may be missing is read from: its length and its bytes. -/
theorem OptionalDateTime.decode_spells {r r' : Reader} {t : OptionalDateTime}
    (h : decode r = (.ok t, r')) : ∃ bs text, SpellsLength text.length bs ∧
      r.Consumed (bs ++ text) r'.rest r' ∧ (text = [] ∧ t.val = none ∨
        text.length = 12 ∧ t.val = some (.fromBytes text)) := by
  obtain ⟨text, r₁, hread, h⟩ := Prog.bind_ok h
  obtain ⟨bs, hspells, hc⟩ := Read.lengthPrefixed_spells hread
  refine ⟨bs, text, hspells, ?_⟩
  by_cases h0 : text.length = 0
  · rw [if_pos h0] at h
    obtain ⟨rfl, rfl⟩ : (⟨none⟩ : OptionalDateTime) = t ∧ r₁ = r' := by simpa using h
    exact ⟨hc, .inl ⟨List.eq_nil_of_length_eq_zero h0, rfl⟩⟩
  · rw [if_neg h0] at h
    by_cases h12 : text.length = 12
    · rw [if_pos h12] at h
      obtain ⟨rfl, rfl⟩ : (⟨some (.fromBytes text)⟩ : OptionalDateTime) = t ∧ r₁ = r' := by simpa using h
      exact ⟨hc, .inr ⟨h12, rfl⟩⟩
    · rw [if_neg h12] at h
      cases h

/-- `m` reads all of `bs`, somewhere. -/
def Fills {α : Type} (m : Read α) (bs : Bytes) (a : α) : Prop :=
  ∃ r r', m r = (.ok a, r') ∧ r.rest = bs ∧ r'.rest = []

namespace Data

variable {d : Data} {bs : Bytes}

theorem fills_cons (h : Fills decode bs d) : ∃ b more, bs = b :: more ∧ DataTag.fromU8 b ≠ none := by
  obtain ⟨r, r', hrun, rfl, -⟩ := h
  obtain ⟨b, r₁, hu8, hrun⟩ := Prog.bind_ok hrun
  obtain ⟨hrest, -⟩ := Read.u8_ok hu8
  refine ⟨b, r₁.rest, hrest, fun hnone => ?_⟩
  rw [hnone] at hrun
  cases hrun

/-- The tag of a value is the byte it is read from first. -/
theorem decodeAt_tag {left : Nat} {r r' : Reader} (h : decodeAt left r = (.ok d, r')) :
    ∃ b more, r.rest = b :: more ∧ DataTag.fromU8 b = some d.tag := by
  cases left with
  | zero => cases h
  | succ left =>
    obtain ⟨b, r₁, hu8, h⟩ := Prog.bind_ok h
    refine ⟨b, r₁.rest, (Read.u8_ok hu8).1, ?_⟩
    cases htag : DataTag.fromU8 b with
    | none =>
      rw [htag] at h
      cases h
    | some tag =>
      rw [htag] at h
      cases tag with
      | nullData | dontCare =>
        obtain ⟨hd, -⟩ := Prod.mk.inj h
        rw [← Except.ok.inj hd]
        rfl
      | bitString =>
        obtain ⟨_, _, -, h⟩ := Prog.bind_ok h
        obtain ⟨_, _, -, h⟩ := Prog.bind_ok h
        obtain ⟨hd, -⟩ := Prod.mk.inj h
        rw [← Except.ok.inj hd]
        rfl
      | _ =>
        obtain ⟨_, _, -, h⟩ := Prog.bind_ok h
        obtain ⟨hd, -⟩ := Prod.mk.inj h
        rw [← Except.ok.inj hd]
        rfl

theorem fills_null (h : Fills decode (0 :: bs) d) : bs = [] := by
  obtain ⟨r, r', hrun, hbs, hend⟩ := h
  obtain ⟨b, r₁, hu8, hrun⟩ := Prog.bind_ok hrun
  obtain ⟨hrest, -⟩ := Read.u8_ok hu8
  obtain ⟨rfl, hmore⟩ := List.cons.inj (hrest.symm.trans hbs)
  obtain ⟨-, rfl⟩ := Prod.mk.inj hrun
  rw [← hmore, hend]

theorem fills_utf8 (h : Fills decode (12 :: bs) d) :
    ∃ text, d = utf8String text ∧ Fills Read.lengthPrefixed bs text := by
  obtain ⟨r, r', hrun, hbs, hend⟩ := h
  obtain ⟨b, r₁, hu8, hrun⟩ := Prog.bind_ok hrun
  obtain ⟨hrest, -⟩ := Read.u8_ok hu8
  obtain ⟨rfl, hmore⟩ := List.cons.inj (hrest.symm.trans hbs)
  obtain ⟨text, r₂, hread, hrun⟩ := Prog.bind_ok hrun
  obtain ⟨hd, rfl⟩ := Prod.mk.inj hrun
  exact ⟨text, (Except.ok.inj hd).symm, r₁, r₂, hread, hmore, hend⟩

theorem fills_string {text : Bytes} (h : Fills Read.lengthPrefixed bs text) :
    ∃ front, SpellsLength text.length front ∧ bs = front ++ text := by
  obtain ⟨r, r', hrun, rfl, hend⟩ := h
  obtain ⟨front, hspells, hc⟩ := Read.lengthPrefixed_spells hrun
  refine ⟨front, hspells, ?_⟩
  rw [hc.rest, hend, List.append_nil]

/-- The tag of a string is not the first byte of a string that it is the length of. -/
theorem fills_twice (h : Fills decode (12 :: bs) d) (h' : Fills decode bs d) : False := by
  obtain ⟨text, rfl, hread⟩ := fills_utf8 h
  obtain ⟨front, hspells, hbs⟩ := fills_string hread
  obtain ⟨r, r', hrun, hr, hend⟩ := id h'
  obtain ⟨b, more, hcons, htag⟩ := decodeAt_tag hrun
  obtain rfl : 12 = b := DataTag.asU8_of_fromU8 htag
  obtain rfl : bs = 12 :: more := hr.symm.trans hcons
  obtain ⟨text', htext, hread'⟩ := fills_utf8 h'
  obtain rfl := utf8String.inj htext
  obtain ⟨front', hspells', hmore⟩ := fills_string hread'
  have hboth : front ++ text = 12 :: front' ++ text := by rw [← hbs, hmore, List.cons_append]
  have hfront : front = 12 :: front' := List.append_cancel_right hboth
  rw [hfront] at hspells
  cases hspells with
  | short => exact hspells'.ne_nil rfl
  | long _ _ hfirst => exact absurd hfirst (by change ¬ 12 = 0x80 + _; omega)

end Data

/-- A text that goes on in itself a little later turns what stands before it. -/
theorem rotated {α : Type} {front text rest rest' : List α} (hne : front ≠ [])
    (h : text ++ rest' = front ++ (text ++ rest)) : rest' = front.rotate text.length ++ rest := by
  induction text generalizing front with
  | nil => simpa using h
  | cons t text ih =>
    cases front with
    | nil => exact absurd rfl hne
    | cons f front =>
      obtain ⟨rfl, h⟩ := List.cons.inj h
      rw [List.length_cons, List.rotate_cons_succ]
      exact ih (by simp) (by simpa using h)

/-- A number below 256 in two bytes or more starts with a zero. -/
theorem beNat_small {bs : Bytes} (h : beNat bs < 256) (hlen : 2 ≤ bs.length) :
    ∃ more, bs = 0 :: more ∧ beNat more = beNat bs := by
  cases bs with
  | nil => cases hlen
  | cons b more =>
    have hcons := beNat_cons b more
    have hzero : b.toNat = 0 := by
      by_contra hne
      have hpow : 256 ^ 1 ≤ 256 ^ more.length :=
        Nat.pow_le_pow_right (by norm_num) (by simpa using hlen)
      have hmul : 256 ^ more.length ≤ b.toNat * 256 ^ more.length :=
        Nat.le_mul_of_pos_left _ (Nat.pos_of_ne_zero hne)
      omega
    obtain rfl : b = 0 := UInt8.toNat_inj.mp hzero
    refine ⟨more, rfl, ?_⟩
    rw [hcons]
    simp

/-- The first byte of a long length is no tag of a value. -/
theorem long_no_tag {first : UInt8} {n : Nat} (h : first.toNat = 0x80 + n) (h1 : 1 ≤ n) (h4 : n ≤ 4) :
    DataTag.fromU8 first = none := by
  obtain rfl : first = UInt8.ofNat (0x80 + n) := by
    rw [← h, UInt8.ofNat_toNat]
  interval_cases n <;> rfl

/-- A date and time and a value that fill two texts, the second of which is the first with one more byte
in front: then that byte is the first of a length of two bytes, and the second stands alone. -/
theorem one_byte_apart {x : UInt8} {tail front front' text rest rest' : Bytes} {d : Data}
    (htext : text = [] ∨ text.length = 12) (hfront : SpellsLength text.length front)
    (hfront' : SpellsLength text.length front') (htail : tail = front ++ (text ++ rest))
    (hlonger : x :: tail = front' ++ (text ++ rest')) (hrest : Fills Data.decode rest d)
    (hrest' : Fills Data.decode rest' d) : x = 0x81 ∧ ∃ b more, tail = b :: more ∧ b < 0x80 := by
  have hn : text.length = 0 ∨ text.length = 12 := htext.imp_left fun h => by rw [h]; rfl
  -- A value of which the first byte is that of a long length is none.
  have hlong {first : UInt8} {bs more : Bytes} (hfirst : first.toNat = 0x80 + bs.length)
      (h1 : 1 ≤ bs.length) (h4 : bs.length ≤ 4) (h : Fills Data.decode (first :: more) d) : False := by
    obtain ⟨b, _, hcons, hsome⟩ := Data.fills_cons h
    obtain ⟨rfl, -⟩ := List.cons.inj hcons
    exact hsome (long_no_tag hfirst h1 h4)
  cases hfront' with
  | short first hfirst hlen =>
    have hshort : text ++ rest' = front ++ (text ++ rest) := by
      rw [← htail]
      exact (List.cons.inj hlonger).2.symm
    cases hfront with
    | short first' hfirst' hlen' =>
      have hturn := rotated (by simp) hshort
      rw [List.rotate_singleton] at hturn
      subst hturn
      obtain h0 | h12 := hn
      · obtain rfl : first' = 0 := UInt8.toNat_inj.mp (by rw [← hlen', h0]; rfl)
        obtain ⟨b, more, rfl, -⟩ := Data.fills_cons hrest
        cases Data.fills_null hrest'
      · obtain rfl : first' = 12 := UInt8.toNat_inj.mp (by rw [← hlen', h12]; rfl)
        exact (Data.fills_twice hrest' hrest).elim
    | long first' bs hfirst' h1 h4 hlen' =>
      have hturn := rotated (by simp) hshort
      obtain h0 | h12 := hn
      · rw [h0, List.rotate_zero, List.cons_append] at hturn
        exact (hlong hfirst' h1 h4 (hturn ▸ hrest')).elim
      · rw [h12] at hturn hlen'
        rcases bs with _ | ⟨a, _ | ⟨b, _ | ⟨c, _ | ⟨e, _ | ⟨g, bs⟩⟩⟩⟩⟩
        · cases h1
        · obtain rfl : rest' = first' :: a :: rest := by simpa using hturn
          exact (hlong hfirst' h1 h4 hrest').elim
        · obtain rfl : rest' = first' :: a :: b :: rest := by simpa using hturn
          exact (hlong hfirst' h1 h4 hrest').elim
        · obtain rfl : rest' = first' :: a :: b :: c :: rest := by simpa using hturn
          exact (hlong hfirst' h1 h4 hrest').elim
        · -- Two turns of five leave two bytes, and the third is a zero.
          obtain rfl : rest' = b :: c :: e :: first' :: a :: rest := by simpa using hturn
          have hsmall : beNat [a, b, c, e] < 256 := by omega
          obtain ⟨_, hcons, hmore⟩ := beNat_small hsmall (by simp)
          obtain ⟨rfl, rfl⟩ := List.cons.inj hcons
          obtain ⟨_, hcons', -⟩ := beNat_small (hmore.trans_lt hsmall) (by simp)
          obtain ⟨rfl, -⟩ := List.cons.inj hcons'
          cases Data.fills_null hrest'
        · simp only [List.length_cons] at h4
          omega
  | long first bs hfirst h1 h4 hlen =>
    obtain ⟨rfl, htail'⟩ : x = first ∧ tail = bs ++ (text ++ rest') := List.cons.inj hlonger
    by_cases hone : bs.length = 1
    · obtain ⟨b, rfl⟩ := List.length_eq_one_iff.mp hone
      have hb : b.toNat = text.length := by
        rw [hlen]
        simp [beNat]
      have hx : x.toNat = (0x81 : UInt8).toNat := hfirst
      refine ⟨UInt8.toNat_inj.mp hx, b, text ++ rest', htail', ?_⟩
      rw [UInt8.lt_iff_toNat_lt, hb]
      change text.length < 128
      omega
    · -- The length in front starts with a zero, so the other length is that zero.
      have hlong' {b : UInt8} {more : Bytes} (h : bs = b :: more) : 1 ≤ more.length := by
        rw [h, List.length_cons] at hone h1
        omega
      have hsmall : beNat bs < 256 := by omega
      obtain ⟨more, rfl, hmore⟩ := beNat_small hsmall (by omega)
      rw [htail, List.cons_append] at htail'
      cases hfront with
      | short first' hfirst' hlen' =>
        obtain ⟨rfl, hrest₀⟩ := List.cons.inj htail'
        have h0 : text = [] := List.eq_nil_of_length_eq_zero hlen'
        subst h0
        obtain rfl : rest = more ++ rest' := hrest₀
        obtain ⟨b, more', rfl⟩ := List.exists_cons_of_length_pos (hlong' rfl)
        have hb : b = 0 := by
          have := beNat_cons b more'
          have hmore₀ : beNat (b :: more') = 0 := by rw [hmore, ← hlen]; rfl
          have hpow : 0 < 256 ^ more'.length := Nat.pow_pos (by norm_num)
          have hmul : b.toNat * 256 ^ more'.length = 0 := by omega
          exact UInt8.toNat_inj.mp ((Nat.mul_eq_zero.mp hmul).resolve_right hpow.ne')
        subst hb
        have hnil : more' ++ rest' = [] := Data.fills_null hrest
        obtain ⟨b, rest, rfl, -⟩ := Data.fills_cons hrest'
        simp at hnil
      | long first' bs' hfirst' =>
        obtain ⟨rfl, -⟩ := List.cons.inj htail'
        exact absurd hfirst' (by change ¬ 0 = 0x80 + _; omega)

/-- What a notification is read from: its number, its time and its value. -/
theorem DataNotification.decode_parts {r r' : Reader} {n : DataNotification} (h : decode r = (.ok n, r')) :
    ∃ id bs text r₁, id.length = 4 ∧ SpellsLength text.length bs ∧ r.rest = id ++ (bs ++ (text ++ r₁.rest)) ∧
      (text = [] ∧ n.dateTime.val = none ∨
        text.length = 12 ∧ n.dateTime.val = some (.fromBytes text)) ∧ Data.decode r₁ = (.ok n.body, r') := by
  obtain ⟨v, r₁, hid, h⟩ := Prog.bind_ok h
  obtain ⟨id, r₂, htake, hid⟩ := Prog.bind_ok hid
  obtain ⟨-, rfl⟩ := Prod.mk.inj hid
  obtain ⟨time, r₃, htime, h⟩ := Prog.bind_ok h
  obtain ⟨body, r₄, hbody, h⟩ := Prog.bind_ok h
  obtain ⟨hn, rfl⟩ := Prod.mk.inj h
  obtain rfl := Except.ok.inj hn
  obtain ⟨bs, text, hspells, hc, htext⟩ := OptionalDateTime.decode_spells htime
  refine ⟨id, bs, text, r₃, Read.length_take htake, hspells, ?_, htext, hbody⟩
  rw [(Read.take_consumed htake).rest, hc.rest, List.append_assoc]

/-- One time is read from one text. -/
theorem DateTime.text_unique {t : Option DateTime} {text text' : Bytes}
    (h : text = [] ∧ t = none ∨ text.length = 12 ∧ t = some (.fromBytes text))
    (h' : text' = [] ∧ t = none ∨ text'.length = 12 ∧ t = some (.fromBytes text')) : text = text' := by
  obtain ⟨rfl, rfl⟩ | ⟨hlen, rfl⟩ := h
  · obtain ⟨rfl, -⟩ | ⟨-, ht⟩ := h'
    · rfl
    · cases ht
  · obtain ⟨-, ht⟩ | ⟨hlen', ht⟩ := h'
    · cases ht
    · rw [← toBytes_fromBytes hlen, Option.some.inj ht, toBytes_fromBytes hlen']

namespace Apdu

/-- Every body but one is of another service. -/
theorem decodePlain_notification {tag : ApduTag} (hne : tag ≠ .dataNotification) :
    (decodePlain tag).Yields fun a => ∀ n, a ≠ .dataNotification n := by
  cases tag with
  | dataNotification => exact absurd rfl hne
  | gatewayRequest | gatewayResponse =>
    exact (Prog.Yields.any _).bind fun _ _ => (Prog.Yields.any _).bind fun _ _ =>
      (Prog.Yields.any _).map fun _ _ _ => nofun
  | _ => first
    | exact (Prog.Yields.any _).map fun _ _ _ => nofun
    | exact fun _ _ => nofun

/-- A decoded notification has its tag. -/
theorem fromBytes_notification {bytes : Bytes} {n : DataNotification}
    (h : fromBytes bytes = .ok (.dataNotification n)) : bytes.head? = some 0x0F := by
  obtain ⟨r, hr, -⟩ := Read.fromBytes_ok h
  obtain ⟨tagByte, r₁, hpeek, hr⟩ := Prog.bind_ok hr
  obtain ⟨rfl, hhead⟩ := Read.peekU8_ok hpeek
  cases htag : ApduTag.fromU8 tagByte with
  | none =>
    rw [htag] at hr
    cases hr
  | some tag =>
    obtain rfl := ApduTag.asU8_of_fromU8 htag
    obtain rfl | hne := eq_or_ne tag .dataNotification
    · exact hhead
    rw [htag] at hr
    cases tag with
    | dataNotification => exact absurd rfl hne
    | aarq | aare | releaseRequest | releaseResponse =>
      obtain ⟨_, _, -, hr⟩ := Prog.bind_ok hr
      cases hr
    | _ =>
      obtain ⟨_, _, -, hr⟩ := Prog.bind_ok hr
      first
      | exact absurd rfl ((decodePlain_notification hne).of_run hr n)
      | obtain ⟨_, _, -, hr⟩ := Prog.bind_ok hr
        cases hr

end Apdu

/-! ## The text and the notification -/

/-- `n` has the time and the value of `q`. -/
def ReceivedNotification.Carries (n : ReceivedNotification) (q : DataNotification) : Prop :=
  n.capturedAt = q.dateTime.val ∧ n.body = q.body

namespace Heard

variable {heard : Heard} {n : ReceivedNotification} {q : DataNotification}

/-- The text is one notification, and `n` is what it says. The text of an unprotected frame stands after
its tag. One that was deciphered is with the tag or without it, and it is no other APDU. -/
def Genuine (heard : Heard) (n : ReceivedNotification) : Prop :=
  match heard.invocationCounter with
  | none => ∃ q, Read.fromBytes DataNotification.decode heard.plain = .ok q ∧ n.Carries q
  | some _ =>
    (∃ q, (Apdu.fromBytes heard.plain = .ok (.dataNotification q) ∨
      Read.fromBytes DataNotification.decode heard.plain = .ok q) ∧ n.Carries q) ∧
    ∀ a, Apdu.fromBytes heard.plain = .ok a → ∃ q, a = .dataNotification q

/-- Nothing follows the notification without a tag that the text starts with. -/
def Alone (heard : Heard) : Prop := (DataNotification.decode (Reader.new heard.plain)).2.rest = []

/-- The text is not read in two ways. With a tag, one that was deciphered is an APDU. The text of an
unprotected frame that starts like a tag is read from its second byte, so the length of its time is to be
one that starts there too. -/
def Sound (heard : Heard) : Prop :=
  match heard.invocationCounter with
  | none =>
    if heard.plain.head? = some 0x0F then
      heard.plain[4]? = some 0x81 ∧ ∃ b, heard.plain[5]? = some b ∧ b < 0x80
    else heard.Alone
  | some _ => heard.plain.head? = some 0x0F ∨ heard.Alone ∧ ∀ a, Apdu.fromBytes heard.plain ≠ .ok a

end Heard

namespace NotificationListener

variable {plain : Bytes} {q : DataNotification}

/-- The first byte says how the text is read. -/
theorem readNotification_cases (h : readNotification plain = .ok q) :
    plain.head? = some 0x0F ∧ Apdu.fromBytes plain = .ok (.dataNotification q) ∨
    plain.head? ≠ some 0x0F ∧ ∃ r, DataNotification.decode (Reader.new plain) = (.ok q, r) := by
  unfold readNotification at h
  match hpeek : Read.peekU8 (Reader.new plain) with
  | (.error e, r) =>
    rw [hpeek] at h
    cases h
  | (.ok b, r) =>
    rw [hpeek] at h
    have hhead : plain.head? = some b := (Read.peekU8_ok hpeek).2
    change (if _ then _ else _) = _ at h
    by_cases htag : ApduTag.fromU8 b = some .dataNotification
    · obtain rfl := ApduTag.asU8_of_fromU8 htag
      rw [if_pos htag] at h
      refine .inl ⟨hhead, ?_⟩
      match ha : Apdu.fromBytes plain with
      | .error e =>
        rw [ha] at h
        cases h
      | .ok a =>
        rw [ha] at h
        cases a with
        | dataNotification q' => exact congrArg (Except.ok ∘ Apdu.dataNotification) (Except.ok.inj h)
        | _ => cases h
    · rw [if_neg htag] at h
      refine .inr ⟨?_, _, Prod.ext h rfl⟩
      rw [hhead]
      rintro ⟨⟩
      exact htag rfl

/-- The decoder of a notification goes on from the length of the time. -/
theorem decode_congr {r r' r₁ r₁' end' : Reader} {v v' : UInt32} (hr : Read.u32 r = (.ok v, r₁))
    (hr' : Read.u32 r' = (.ok v', r₁')) (hlength : Read.length r₁ = Read.length r₁')
    (h : DataNotification.decode r = (.ok q, end')) :
    DataNotification.decode r' = (.ok { q with longInvokeId := ⟨v'⟩ }, end') := by
  have hprefixed : Read.lengthPrefixed r₁ = Read.lengthPrefixed r₁' := by
    rw [Read.lengthPrefixed, Prog.bind_run, hlength, Prog.bind_run]
  have htime : OptionalDateTime.decode r₁ = OptionalDateTime.decode r₁' := by
    rw [OptionalDateTime.decode, Prog.bind_run, hprefixed, Prog.bind_run]
  obtain ⟨_, _, hid, h⟩ := Prog.bind_ok h
  obtain ⟨-, rfl⟩ := Prod.mk.inj (hr.symm.trans hid)
  obtain ⟨time, r₂, ht, h⟩ := Prog.bind_ok h
  obtain ⟨body, r₃, hbody, h⟩ := Prog.bind_ok h
  obtain ⟨hq, rfl⟩ := Prod.mk.inj h
  obtain rfl := Except.ok.inj hq
  rw [htime] at ht
  unfold DataNotification.decode
  rw [Prog.bind_run_ok hr', Prog.bind_run_ok ht, Prog.bind_run_ok hbody]
  rfl

/-- Under its tag the notification starts at the second byte. -/
theorem decode_tagged (h : Apdu.fromBytes plain = .ok (.dataNotification q)) :
    ∃ r r', (Reader.new plain).Advanced 1 r ∧ DataNotification.decode r = (.ok q, r') ∧ r'.rest = [] := by
  obtain ⟨r', hr, hend⟩ := Read.fromBytes_ok h
  have hhead := Apdu.fromBytes_notification h
  cases plain with
  | nil => cases hhead
  | cons b tail =>
    obtain rfl := Option.some.inj hhead
    have hrest : (Reader.new (0x0F :: tail)).rest = ApduTag.dataNotification.asU8 :: tail := rfl
    rw [Apdu.decode_service ⟨by decide, by decide⟩ hrest] at hr
    obtain ⟨_, r, hskip, hr⟩ := Prog.bind_ok hr
    obtain ⟨bs, r₁, htake, hskip⟩ := Prog.bind_ok hskip
    obtain ⟨-, rfl⟩ := Prod.mk.inj hskip
    obtain ⟨q', r₂, hdecode, hr⟩ := Prog.bind_ok hr
    obtain ⟨hq, rfl⟩ := Prod.mk.inj hr
    obtain rfl := Apdu.dataNotification.inj (Except.ok.inj hq)
    exact ⟨r₁, r₂, (Read.take_ok htake).2.2, hdecode, hend⟩

/-- Two readings of one text, with the tag and without it, that agree: the first byte of the one time is
that of a length in two bytes. -/
theorem length_of_both {q' : DataNotification} (h : Apdu.fromBytes plain = .ok (.dataNotification q))
    (h' : Read.fromBytes DataNotification.decode plain = .ok q')
    (htime : q.dateTime.val = q'.dateTime.val) (hbody : q.body = q'.body) :
    plain[4]? = some 0x81 ∧ ∃ b, plain[5]? = some b ∧ b < 0x80 := by
  obtain ⟨r, e, hadv, hr, hend⟩ := decode_tagged h
  obtain ⟨e', hr', hend'⟩ := Read.fromBytes_ok h'
  obtain ⟨id, bs, text, r₁, hid, hspells, hrest, htext, hvalue⟩ := DataNotification.decode_parts hr
  obtain ⟨id', bs', text', r₁', hid', hspells', hrest', htext', hvalue'⟩ :=
    DataNotification.decode_parts hr'
  rw [← htime] at htext'
  obtain rfl := DateTime.text_unique htext htext'
  rw [← hbody] at hvalue'
  have hplain : plain = id' ++ (bs' ++ (text ++ r₁'.rest)) := hrest'
  have htail : (plain.drop 4).tail = bs ++ (text ++ r₁.rest) := by
    have hafter : r.rest = plain.drop 1 := hadv.rest
    have hfive : (plain.drop 1).drop 4 = plain.drop 5 := List.drop_drop
    rw [List.tail_drop, ← hfive, ← hafter, hrest, ← hid, List.drop_left]
  have hdrop : plain.drop 4 = bs' ++ (text ++ r₁'.rest) := by rw [hplain, ← hid', List.drop_left]
  match hcons : plain.drop 4 with
  | [] =>
    rw [hdrop] at hcons
    exact absurd (List.append_eq_nil_iff.mp hcons).1 hspells'.ne_nil
  | x :: tail =>
    rw [hcons] at htail hdrop
    obtain ⟨rfl, b, more, rfl, hb⟩ := one_byte_apart (htext.imp And.left And.left) hspells hspells'
      htail hdrop ⟨_, _, hvalue, rfl, hend⟩ ⟨_, _, hvalue', rfl, hend'⟩
    have h4 : plain[4]? = (plain.drop 4)[0]? := by rw [List.getElem?_drop]
    have h5 : plain[5]? = (plain.drop 4)[1]? := by rw [List.getElem?_drop]
    rw [h4, h5, hcons]
    exact ⟨rfl, b, rfl, hb⟩

/-- A length in two bytes, and in the second of them alone. -/
theorem length_twice {r r' : Reader} {b : UInt8} {more : Bytes} (hb : b < 0x80)
    (hrest : r'.rest = 0x81 :: b :: more) (hadv : r'.Advanced 1 r) : Read.length r = Read.length r' := by
  have hrest₁ : r.rest = b :: more := by rw [hadv.rest, hrest]; rfl
  obtain ⟨e, hu8, hend⟩ := Reads.u8 b r more hrest₁
  obtain ⟨r₁, hu8', hadv₁⟩ := Reads.u8 0x81 r' (b :: more) hrest
  obtain rfl := hadv.unique hadv₁
  have hu8' : Read.u8 r' = (.ok 0x81, r) := hu8'
  obtain ⟨e', htake, hend'⟩ := (Reads.take rfl : Reads (Read.take 1) [b] fun _ => [b]) r more hrest₁
  obtain rfl := hend.unique hend'
  have hone : Read.length r = (.ok b.toNat, e) := by
    unfold Read.length
    rw [Prog.bind_run_ok hu8, if_pos hb]
    rfl
  have htwo : Read.length r' = (.ok (beNat [b]), e) := by
    unfold Read.length
    rw [Prog.bind_run_ok hu8', if_neg (by decide)]
    exact (Prog.bind_run_ok htake).trans rfl
  rw [hone, htwo]
  simp [beNat]

theorem both_of_length {b : UInt8} (h : Apdu.fromBytes plain = .ok (.dataNotification q))
    (h4 : plain[4]? = some 0x81) (h5 : plain[5]? = some b) (hb : b < 0x80) :
    ∃ v, Read.fromBytes DataNotification.decode plain = .ok { q with longInvokeId := v } := by
  obtain ⟨r, e, hadv, hr, hend⟩ := decode_tagged h
  obtain ⟨v, r₁, hid, -⟩ := Prog.bind_ok hr
  obtain ⟨bs, r₂, htake, hid'⟩ := Prog.bind_ok hid
  obtain ⟨-, rfl⟩ := Prod.mk.inj hid'
  have hlen : 5 < plain.length := (List.getElem?_eq_some_iff.mp h5).1
  have hdrop : plain.drop 4 = 0x81 :: b :: plain.drop 6 := by
    rw [List.drop_eq_getElem_cons (by omega), List.drop_eq_getElem_cons (by omega),
      (List.getElem?_eq_some_iff.mp h4).2, (List.getElem?_eq_some_iff.mp h5).2]
  have hfour : (plain.take 4).length = 4 := by rw [List.length_take]; omega
  obtain ⟨r₁', htake', hadv'⟩ := Reads.take hfour (Reader.new plain) (plain.drop 4)
    (List.take_append_drop 4 plain).symm
  have hu32 : Read.u32 (Reader.new plain) = (.ok (UInt32.ofNat (beNat (plain.take 4))), r₁') :=
    Prog.bind_run_ok htake'
  rw [hfour] at hadv'
  have hrest' : r₁'.rest = 0x81 :: b :: plain.drop 6 := by rw [← hdrop]; exact hadv'.rest
  have hone : r₁'.Advanced 1 r₂ := by
    obtain ⟨hbuf, hbase, hpos⟩ := hadv.trans (Read.take_ok htake).2.2
    refine ⟨by rw [hbuf, hadv'.buf], by rw [hbase, hadv'.base], by rw [hpos, hadv'.pos]⟩
  have hboth := decode_congr hid hu32 (length_twice hb hrest' hone) hr
  refine ⟨⟨UInt32.ofNat (beNat (plain.take 4))⟩, ?_⟩
  rw [Read.fromBytes, hboth]
  simp only [(Reader.isEmpty_iff e).mpr hend, if_true]

variable {σ π : Type} {C : CryptoProvider π} {L : PushKeyLookup σ π} {required : SecurityPolicy}
variable {apdu : Bytes} {sender : Option SystemTitle} {size : Nat} {s t : σ} {heard : Heard}
variable {n : ReceivedNotification}

/-- A frame with one of the other tags is a ciphered one. -/
theorem unwrap_plain {tag : ApduTag} {title : Option SystemTitle} {r r' : Reader}
    (h : unwrap sender tag r = (.ok (title, none), r')) : tag = .dataNotification := by
  by_contra hne
  cases tag with
  | dataNotification => exact hne rfl
  | generalGloCiphering | generalDedCiphering =>
    obtain ⟨_, _, -, h⟩ := Prog.bind_ok h
    obtain ⟨_, _, -, h⟩ := Prog.bind_ok h
    cases h
  | gloEventNotification | dedEventNotification =>
    obtain ⟨_, _, -, h⟩ := Prog.bind_ok h
    cases h
  | _ => cases h

theorem takePlain_ok {rest : Bytes} (h : takePlain required rest size = .ok plain) : rest = plain := by
  unfold takePlain at h
  split at h
  · cases h
  · split at h
    · cases h
    · exact Except.ok.inj h

/-- A frame without a number has no protection, and its text stands after its tag. -/
theorem open_plain (h : (open' C L required apdu sender size s).1 = .ok heard)
    (hn : heard.invocationCounter = none) : apdu = 0x0F :: heard.plain := by
  have hrun : open' C L required apdu sender size s = (.ok heard, _) := Prod.ext h rfl
  unfold open' at hrun
  cases htag : ApduTag.fromU8 (apdu.headD 0) with
  | none =>
    rw [htag] at hrun
    cases hrun
  | some tag =>
    rw [htag] at hrun
    have hhead := ApduTag.head_of_fromU8 htag
    obtain ⟨⟨title, c⟩, s₁, hunwrap, hrun⟩ := Prog.bind_ok hrun
    cases c with
    | some c =>
      obtain ⟨plain, s₂, -, hrun⟩ := Prog.bind_ok hrun
      obtain ⟨hheard, -⟩ := Prod.mk.inj hrun
      obtain rfl := Except.ok.inj hheard
      cases hn
    | none =>
      obtain ⟨plain, s₂, htake, hrun⟩ := Prog.bind_ok hrun
      obtain ⟨hheard, -⟩ := Prod.mk.inj hrun
      obtain rfl := Except.ok.inj hheard
      rw [Prog.ofExcept_run] at hunwrap htake
      obtain rfl := takePlain_ok (Prod.mk.inj htake).1
      have hread : (Read.skip 1 >>= fun _ => unwrap sender tag) (Reader.new apdu) = (.ok (title, none), _) :=
        Prod.ext (Prod.mk.inj hunwrap).1 rfl
      obtain ⟨_, _, -, hread⟩ := Prog.bind_ok hread
      obtain rfl := unwrap_plain hread
      exact (List.eq_cons_of_mem_head? hhead).trans (by rw [List.drop_one]; rfl)

theorem alone_iff {r : Reader} (hr : DataNotification.decode (Reader.new heard.plain) = (.ok q, r)) :
    heard.Alone ↔ Read.fromBytes DataNotification.decode heard.plain = .ok q := by
  have hrest : (DataNotification.decode (Reader.new heard.plain)).2 = r := by rw [hr]
  unfold Heard.Alone
  rw [hrest]
  constructor
  · intro hend
    rw [Read.fromBytes, hr]
    simp only [r.isEmpty_iff.mpr hend, if_true]
  · intro h
    obtain ⟨r', hr', hend⟩ := Read.fromBytes_ok h
    obtain ⟨-, rfl⟩ := Prod.mk.inj (hr.symm.trans hr')
    exact hend

/-- What an accepted frame says is what its text says, if and only if the text is read in one way. -/
theorem genuine_iff (hread : readNotification heard.plain = .ok q) (hn : n.Carries q) :
    heard.Genuine n ↔ heard.Sound := by
  obtain ⟨htime, hbody⟩ := hn
  unfold Heard.Genuine Heard.Sound
  cases heard.invocationCounter with
  | none =>
    dsimp only
    obtain ⟨hp, htagged⟩ | ⟨hp, r, hr⟩ := readNotification_cases hread
    · rw [if_pos hp]
      constructor
      · rintro ⟨q', hbare, htime', hbody'⟩
        exact length_of_both htagged hbare (htime.symm.trans htime') (hbody.symm.trans hbody')
      · rintro ⟨h4, b, h5, hb⟩
        obtain ⟨v, hbare⟩ := both_of_length htagged h4 h5 hb
        exact ⟨_, hbare, htime, hbody⟩
    · rw [if_neg hp, alone_iff hr]
      constructor
      · rintro ⟨q', hbare, -⟩
        obtain ⟨r', hr', -⟩ := Read.fromBytes_ok hbare
        obtain ⟨hq, -⟩ := Prod.mk.inj (hr.symm.trans hr')
        rw [hbare, Except.ok.inj hq]
      · exact fun hbare => ⟨q, hbare, htime, hbody⟩
  | some c =>
    dsimp only
    obtain ⟨hp, htagged⟩ | ⟨hp, r, hr⟩ := readNotification_cases hread
    · refine ⟨fun _ => .inl hp, fun _ => ⟨⟨q, .inl htagged, htime, hbody⟩, fun a ha => ?_⟩⟩
      rw [htagged] at ha
      exact ⟨q, (Except.ok.inj ha).symm⟩
    · rw [alone_iff hr]
      constructor
      · rintro ⟨⟨q', htagged | hbare, -⟩, hother⟩
        · exact absurd (Apdu.fromBytes_notification htagged) hp
        · obtain ⟨r', hr', -⟩ := Read.fromBytes_ok hbare
          obtain ⟨hq, -⟩ := Prod.mk.inj (hr.symm.trans hr')
          refine .inr ⟨by rw [hbare, Except.ok.inj hq], fun a ha => ?_⟩
          obtain ⟨q'', rfl⟩ := hother a ha
          exact hp (Apdu.fromBytes_notification ha)
      · rintro (htagged | ⟨hbare, hno⟩)
        · exact absurd htagged hp
        · exact ⟨⟨q, .inr hbare, htime, hbody⟩, fun a ha => absurd ha (hno a)⟩

/-- For every frame that is accepted, the notification is what the text of the frame says if and only if the
text is read in one way. -/
theorem handled_genuine (h : handleInner C L required apdu sender size s = (.ok n, t)) :
    ∃ heard, (open' C L required apdu sender size s).1 = .ok heard ∧
      (heard.invocationCounter = none → apdu = 0x0F :: heard.plain) ∧
      (heard.Genuine n ↔ heard.Sound) := by
  obtain ⟨heard, s₁, hopen, h⟩ := Prog.bind_ok h
  obtain ⟨q, s₂, hread, h⟩ := Prog.bind_ok h
  rw [Prog.ofExcept_run] at hread
  obtain ⟨hn, -⟩ := Prod.mk.inj h
  obtain rfl := Except.ok.inj hn
  have hheard : (open' C L required apdu sender size s).1 = .ok heard := by rw [hopen]
  exact ⟨heard, hheard, open_plain hheard, genuine_iff (Prod.mk.inj hread).1 ⟨rfl, rfl⟩⟩

/-- One meter, and nothing of it heard so far. -/
def sampleMeter : SingleMeterKeys SampleKeys :=
  .new sampleTitle { SampleKeys.plain with authentication := some (List.replicate 16 1) }

/-- A notification of the number 42, under general ciphering. -/
def samplePush : Bytes :=
  [0xDB, 0x08, 0x4D, 0x4D, 0x4D, 0x00, 0x00, 0x00, 0x00, 0x01, 0x19, 0x30, 0x00, 0x00, 0x00, 0x05, 0x16,
    0x07, 0x07, 0x07, 0x08, 0x07, 0x18, 0x31, 0xE5, 0x4A, 0x50, 0xA7, 0xEF, 0x5A, 0x4F, 0x8F, 0xF9, 0x94,
    0x86, 0xDC]

def sampleReceived : ReceivedNotification := ⟨some sampleTitle, some 5, none, .unsigned 42⟩

theorem handled_genuine_sample : ∃ heard t,
    handle sampleProvider (SingleMeterKeys.lookup SampleKeys) samplePolicy samplePush 64 sampleMeter =
      (.ok sampleReceived, t) ∧
    (open' sampleProvider (SingleMeterKeys.lookup SampleKeys) samplePolicy samplePush none 64
      sampleMeter).1 = .ok heard ∧ (heard.Genuine sampleReceived ↔ heard.Sound) := by
  match hrun : handle sampleProvider (SingleMeterKeys.lookup SampleKeys) samplePolicy samplePush 64
      sampleMeter with
  | (r, t) =>
    have hok : (handle sampleProvider (SingleMeterKeys.lookup SampleKeys) samplePolicy samplePush 64
      sampleMeter).1 = .ok sampleReceived := by decide +kernel
    rw [hrun] at hok
    obtain rfl : r = .ok sampleReceived := hok
    obtain ⟨heard, hopen, -, hiff⟩ := handled_genuine hrun
    exact ⟨heard, t, rfl, hopen, hiff⟩

/-- An event: the attribute 0.0.96.1.0.255 is 42. -/
def sampleEvent : Bytes := [0xC2, 0x00, 0x00, 0x03, 0x00, 0x00, 0x60, 0x01, 0x00, 0xFF, 0x02, 0x11, 0x2A]

/-- The event under global ciphering. -/
def sampleEventFrame : Bytes :=
  [0xCA, 0x1E, 0x30, 0x00, 0x00, 0x00, 0x05, 0xC9, 0x07, 0x07, 0x0A, 0x07, 0x07, 0x67, 0x08, 0x07, 0x06,
    0x09, 0x18, 0x31, 0xA8, 0x9A, 0xCA, 0x24, 0x98, 0x26, 0x45, 0x9A, 0x3F, 0xA4, 0xBA, 0x1B]

/-- The event is handled as a notification without a value. -/
theorem event_handled :
    (handleFrom sampleProvider (SingleMeterKeys.lookup SampleKeys) samplePolicy sampleTitle
      sampleEventFrame 64 sampleMeter).1 = .ok ⟨some sampleTitle, some 5, none, .null⟩ ∧
    (open' sampleProvider (SingleMeterKeys.lookup SampleKeys) samplePolicy sampleEventFrame
      (some sampleTitle) 64 sampleMeter).1 = .ok ⟨some sampleTitle, some 5, sampleEvent⟩ ∧
    Apdu.fromBytes sampleEvent = .ok (.eventNotification ⟨none, ⟨3, ⟨0, 0, 96, 1, 0, 255⟩, 2⟩,
      .unsigned 42⟩) ∧
    ¬ (⟨some sampleTitle, some 5, sampleEvent⟩ : Heard).Genuine
      ⟨some sampleTitle, some 5, none, .null⟩ := by
  refine ⟨by decide +kernel, by decide +kernel, by decide +kernel, fun h => ?_⟩
  obtain ⟨q, hq⟩ := h.2 (.eventNotification ⟨none, ⟨3, ⟨0, 0, 96, 1, 0, 255⟩, 2⟩, .unsigned 42⟩)
    (by decide +kernel)
  cases hq

end NotificationListener

end Dlms
