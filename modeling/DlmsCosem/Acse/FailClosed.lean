import DlmsCosem.Acse.Decoding

/-!
# When ACSE decoding fails closed

A decoder fails closed when every field it fills was stated by the peer: an acceptance, an
application context and a mechanism stand in the bytes, and the other fields are contents of an
element of their number. `Aare.FailsClosed` and `Aarq.FailsClosed` say so of one decoded value.

The decoders do so but for two slips: an AARE without a result element counts as accepted, and
the branch of an object identifier, which tells an application context from a mechanism, is not
looked at.
-/

namespace Dlms

open Ber

/-! ## Lengths -/

/-- The cursor moved, the buffer stayed. -/
def SameBuf (r r' : Reader) : Prop := r'.buf = r.buf

theorem SameBuf.refl (r : Reader) : SameBuf r r := rfl

theorem SameBuf.trans (r₁ r₂ r₃ : Reader) (h₁ : SameBuf r₁ r₂) (h₂ : SameBuf r₂ r₃) :
    SameBuf r₁ r₃ := Eq.trans h₂ h₁

theorem Read.u8_buf : Prog.Keeps SameBuf Read.u8 := by
  refine ⟨fun r => ?_⟩
  unfold Read.u8
  split <;> rfl

theorem Read.take_buf (n : Nat) : Prog.Keeps SameBuf (Read.take n) := by
  refine ⟨fun r => ?_⟩
  unfold Read.take
  split <;> rfl

theorem readLen_buf : Prog.Keeps SameBuf readLen := by
  refine .bind SameBuf.trans Read.u8_buf fun first => ?_
  split
  · exact .pure SameBuf.refl _
  · dsimp only
    split
    · exact ⟨SameBuf.refl⟩
    · exact .bind SameBuf.trans (Read.take_buf _) fun _ => .pure SameBuf.refl _

theorem readTlv_buf : Prog.Keeps SameBuf readTlv := by
  refine .bind SameBuf.trans Read.u8_buf fun tag => ?_
  split
  · exact ⟨SameBuf.refl⟩
  · exact .bind SameBuf.trans readLen_buf fun len => .bind SameBuf.trans (.gets SameBuf.refl _)
      fun _ => .bind SameBuf.trans (Read.take_buf _) fun _ => .pure SameBuf.refl _

/-- The contents of a TLV are a part of the buffer. -/
theorem readTlv_length {r r' : Reader} {t : Tlv} (h : readTlv r = (.ok t, r')) :
    t.value.length ≤ r.buf.length := by
  obtain ⟨tag, r₁, h₁, h⟩ := Prog.bind_ok h
  have hb₁ : SameBuf r r₁ := by have := Read.u8_buf.run r; rwa [h₁] at this
  split at h
  · cases h
  · obtain ⟨len, r₂, h₂, h⟩ := Prog.bind_ok h
    have hb₂ : SameBuf r₁ r₂ := by have := readLen_buf.run r₁; rwa [h₂] at this
    obtain ⟨offset, r₃, h₃, h⟩ := Prog.bind_ok h
    obtain rfl : r₂ = r₃ := congrArg Prod.snd h₃
    obtain ⟨value, r₄, h₄, h⟩ := Prog.bind_ok h
    have hlen := Read.length_take h₄
    obtain ⟨-, hrem, -⟩ := Read.take_ok h₄
    obtain rfl := Except.ok.inj (congrArg Prod.fst h :)
    rw [hlen, ← SameBuf.trans _ _ _ hb₁ hb₂]
    exact Nat.le_trans hrem (Nat.sub_le _ _)

theorem iterFrom_length {fuel : Nat} {r : Reader} {t : Tlv} (h : .ok t ∈ iterFrom fuel r) :
    t.value.length ≤ r.buf.length := by
  induction fuel generalizing r with
  | zero => simp [iterFrom] at h
  | succ fuel ih =>
    rw [iterFrom] at h
    split at h
    · simp at h
    · have hbuf := readTlv_buf.run r
      rcases List.mem_cons.mp h with h | h
      · have hr : readTlv r = (.ok t, (readTlv r).2) := Prod.ext h.symm rfl
        exact readTlv_length hr
      · rw [← hbuf]; exact ih h

theorem elements_length {bytes : Bytes} {t : Tlv} (h : t ∈ elements bytes) :
    t.value.length ≤ bytes.length := by
  unfold elements at h
  split at h
  · rename_i outer houter
    obtain ⟨item, hmem, hitem⟩ := List.mem_filterMap.mp h
    cases item with
    | error e => cases hitem
    | ok t' =>
      obtain rfl : t' = t := Option.some.inj hitem
      have h₁ := iterFrom_length hmem
      have h₂ := readTlv_length (r := Reader.new bytes) (Prod.ext houter rfl)
      exact Nat.le_trans h₁ h₂
  · cases h

theorem innerOctets_length {t : Tlv} {expected : UInt8} {b : Bytes}
    (h : innerOctets t expected = .ok b) : b.length ≤ t.value.length := by
  unfold innerOctets at h
  split at h
  · rw [Except.ok.inj h]
  · obtain ⟨inner, hr, h⟩ := Result.bind_ok.mp h
    split at h
    · cases h
    · rw [← Except.ok.inj h]
      exact readTlv_length (r := t.reader) (Prod.ext hr rfl)

theorem valueOf_octets_length {bytes b : Bytes} {n expected : UInt8}
    (h : valueOf (elements bytes) n (innerOctets · expected) = some b) :
    b.length ≤ bytes.length := by
  obtain ⟨t, ht, hb⟩ := valueOf_some h
  exact Nat.le_trans (innerOctets_length hb) (elements_length (lastOf_mem ht).1)

/-- The encoding of what was decoded has no fault, but for inputs of half a gigabyte. -/
theorem Aarq.Fields.encodes {bytes : Bytes} {v : Aarq} (h : Fields (elements bytes) v)
    (hlen : bytes.length < 2 ^ 29) : v.encode.fault = none := by
  have short {o : Option Bytes} {n inner : UInt8}
      (ho : o = valueOf (elements bytes) n (innerOctets · inner)) :
      ∀ x, o = some x → x.length ≤ bytes.length :=
    fun x hx => valueOf_octets_length (by rw [← ho, hx])
  exact (encode_bounded hlen (short h.calledApTitle) (short h.callingApTitle)
    (short h.callingAeQualifier) (short h.callingAuthenticationValue) (short h.userInformation)).1

theorem Aare.Fields.encodes {bytes : Bytes} {v : Aare} (h : Fields (elements bytes) v)
    (hlen : bytes.length < 2 ^ 29) : v.encode.fault = none := by
  have short {o : Option Bytes} {n inner : UInt8}
      (ho : o = valueOf (elements bytes) n (innerOctets · inner)) :
      ∀ x, o = some x → x.length ≤ bytes.length :=
    fun x hx => valueOf_octets_length (by rw [← ho, hx])
  exact (encode_bounded hlen (short h.respondingApTitle) (short h.respondingAuthenticationValue)
    (short h.userInformation)).1

/-! ## Failing closed -/

/-- An element of number `n` carries `2.16.756.5.8.<branch>.<arc>`. -/
def States (ts : List Tlv) (n : UInt8) (carries : Tlv → Bytes → Prop) (branch arc : UInt8) : Prop :=
  ∃ t ∈ ts, t.contextNumber = some n ∧ carries t (oid branch arc)

/-- An element of number `n` has the octet string `b` as its contents. -/
def StatesOctets (ts : List Tlv) (n expected : UInt8) (b : Bytes) : Prop :=
  ∃ t ∈ ts, t.contextNumber = some n ∧ CarriesOctets t expected b

/-- An association-result element of value `v`. -/
def StatesResult (ts : List Tlv) (v : UInt8) : Prop :=
  ∃ t ∈ ts, t.contextNumber = some 2 ∧ ∃ inner, (readTlv t.reader).1 = .ok inner ∧ inner.value = [v]

/-- Decoding the AARE `bytes` to `v` failed closed. -/
structure Aare.FailsClosed (bytes : Bytes) (v : Aare) : Prop where
  accepted : v.isAccepted = true → StatesResult (elements bytes) 0
  applicationContext : ∀ c, v.applicationContext = some c →
    States (elements bytes) 1 CarriesOid 1 c.arc
  mechanismName : ∀ m, v.mechanismName = some m → States (elements bytes) 9 IsOid 2 m.arc
  respondingApTitle : ∀ b, v.respondingApTitle = some b → StatesOctets (elements bytes) 4 0x04 b
  respondingAuthenticationValue : ∀ b, v.respondingAuthenticationValue = some b →
    StatesOctets (elements bytes) 10 0x80 b
  userInformation : ∀ b, v.userInformation = some b → StatesOctets (elements bytes) 30 0x04 b
  reencodes : Reencodes decode v.encode v
  encodes : bytes.length < 2 ^ 29 → v.encode.fault = none

/-- Decoding the AARQ `bytes` to `v` failed closed. -/
structure Aarq.FailsClosed (bytes : Bytes) (v : Aarq) : Prop where
  applicationContext : ∀ c, v.applicationContext = some c →
    States (elements bytes) 1 CarriesOid 1 c.arc
  mechanismName : ∀ m, v.mechanismName = some m → States (elements bytes) 11 IsOid 2 m.arc
  calledApTitle : ∀ b, v.calledApTitle = some b → StatesOctets (elements bytes) 2 0x04 b
  callingApTitle : ∀ b, v.callingApTitle = some b → StatesOctets (elements bytes) 6 0x04 b
  callingAeQualifier : ∀ b, v.callingAeQualifier = some b → StatesOctets (elements bytes) 7 0x04 b
  callingAuthenticationValue : ∀ b, v.callingAuthenticationValue = some b →
    StatesOctets (elements bytes) 12 0x80 b
  userInformation : ∀ b, v.userInformation = some b → StatesOctets (elements bytes) 30 0x04 b
  reencodes : Reencodes decode v.encode v
  encodes : bytes.length < 2 ^ 29 → v.encode.fault = none

/-- The arc of the last name of number `n`, whatever its branch, is also named under `branch`. -/
def BranchNamed (ts : List Tlv) (n : UInt8) (carries : Tlv → Bytes → Prop) (branch : UInt8) : Prop :=
  ∀ t b arc, lastOf ts n = some t → carries t (oid b arc) → States ts n carries branch arc

theorem valueOf_stated {ts : List Tlv} {n expected : UInt8} {b : Bytes}
    (h : valueOf ts n (innerOctets · expected) = some b) : StatesOctets ts n expected b := by
  obtain ⟨t, ht, hb⟩ := valueOf_some h
  obtain ⟨hmem, hn⟩ := lastOf_mem ht
  exact ⟨t, hmem, hn, innerOctets_ok hb⟩

/-- A name is stated under its branch if and only if the branch was right somewhere. -/
theorem named_iff {α : Type} {ts : List Tlv} {n : UInt8} (branch : UInt8) {carries : Tlv → Bytes → Prop}
    {get : Tlv → Result UInt8} {fromArc : UInt8 → α} {arcOf : α → UInt8} {o : Option α}
    (hget : ∀ {t arc}, get t = .ok arc ↔ ∃ b, carries t (oid b arc))
    (harc : ∀ a, arcOf (fromArc a) = a) (ho : o = (valueOf ts n get).map fromArc) :
    (∀ c, o = some c → States ts n carries branch (arcOf c)) ↔ BranchNamed ts n carries branch := by
  subst ho
  constructor
  · intro h t b arc ht hc
    have hv : valueOf ts n get = some arc := by
      rw [valueOf, ht, Option.bind_some, hget.mpr ⟨b, hc⟩]
      rfl
    have := h (fromArc arc) (by rw [hv]; rfl)
    rwa [harc] at this
  · intro h c hc
    obtain ⟨arc, hv, rfl⟩ := Option.map_eq_some_iff.mp hc
    obtain ⟨t, ht, hg⟩ := valueOf_some hv
    obtain ⟨b, hb⟩ := hget.mp hg
    rw [harc]
    exact h t b arc ht hb

theorem AssociationResult.fromU8_eq_accepted {v : UInt8} (h : fromU8 v = .accepted) : v = 0 := by
  have := congrArg asU8 h
  rwa [asU8_fromU8] at this

/-- An acceptance is stated if and only if there is a result element. -/
theorem Aare.accepted_iff {ts : List Tlv} {v : Aare} (h : Fields ts v)
    (hres : ∀ t ∈ ts, t.contextNumber = some 2 → ∃ x, readResult t = .ok x) :
    (v.isAccepted = true → StatesResult ts 0) ↔ ∃ t ∈ ts, t.contextNumber = some 2 := by
  constructor
  · intro hacc
    by_contra hno
    have hlast : lastOf ts 2 = none := by
      cases hl : lastOf ts 2 with
      | none => rfl
      | some t => exact absurd ⟨t, lastOf_mem hl⟩ hno
    have hr : v.result = .accepted := by rw [h.result, valueOf, hlast]; rfl
    obtain ⟨t, hmem, hn, -⟩ := hacc (by simp [isAccepted, hr])
    exact hno ⟨t, hmem, hn⟩
  · rintro ⟨t, hmem, hn⟩ hacc
    cases hl : lastOf ts 2 with
    | none =>
      have hmem' : t ∈ ts.filter (·.contextNumber == some 2) := by simp [hmem, hn]
      rw [lastOf, List.getLast?_eq_none_iff] at hl
      rw [hl] at hmem'
      cases hmem'
    | some u =>
      obtain ⟨humem, hun⟩ := lastOf_mem hl
      obtain ⟨x, hx⟩ := hres u humem hun
      have hr : v.result = x := by rw [h.result, valueOf, hl, Option.bind_some, hx]; rfl
      rw [isAccepted, hr, beq_iff_eq] at hacc
      subst hacc
      obtain ⟨inner, hinner, hb⟩ := Result.bind_ok.mp hx
      obtain ⟨b, hb, hacc⟩ := Result.bind_ok.mp hb
      have hb0 := AssociationResult.fromU8_eq_accepted (Except.ok.inj hacc)
      refine ⟨u, humem, hun, inner, hinner, ?_⟩
      unfold Tlv.asU8 at hb
      split at hb
      · rename_i w hw
        rw [hw, Except.ok.inj hb, hb0]
      · cases hb

/-- The AARE `bytes` states what an accepted AARE is taken to state. -/
def AareStated (bytes : Bytes) : Prop :=
  (∃ t ∈ elements bytes, t.contextNumber = some 2) ∧
    BranchNamed (elements bytes) 1 CarriesOid 1 ∧ BranchNamed (elements bytes) 9 IsOid 2

/-- The AARQ `bytes` states its names under their own branches. -/
def AarqStated (bytes : Bytes) : Prop :=
  BranchNamed (elements bytes) 1 CarriesOid 1 ∧ BranchNamed (elements bytes) 11 IsOid 2

theorem Aare.failsClosed_iff {bytes : Bytes} {v : Aare}
    (h : (Aare.decode (Reader.new bytes)).1 = .ok v) : v.FailsClosed bytes ↔ AareStated bytes := by
  have hf := Aare.decode_fields h
  have hacc := Aare.accepted_iff hf (Aare.decode_results h)
  have hctx := named_iff 1 oidArc_ok ApplicationContext.arc_fromArc hf.applicationContext
  have hmech := named_iff 2 implicitOidArc_ok AuthMechanism.arc_fromArc hf.mechanismName
  refine ⟨fun hc => ⟨hacc.mp hc.accepted, hctx.mp hc.applicationContext, hmech.mp hc.mechanismName⟩,
    fun ⟨h1, h2, h3⟩ => ?_⟩
  exact ⟨hacc.mpr h1, hctx.mpr h2, hmech.mpr h3,
    fun b hb => valueOf_stated (by rw [← hf.respondingApTitle, hb]),
    fun b hb => valueOf_stated (by rw [← hf.respondingAuthenticationValue, hb]),
    fun b hb => valueOf_stated (by rw [← hf.userInformation, hb]),
    Aare.reencodes hf.canonical, hf.encodes⟩

theorem Aarq.failsClosed_iff {bytes : Bytes} {v : Aarq}
    (h : (Aarq.decode (Reader.new bytes)).1 = .ok v) : v.FailsClosed bytes ↔ AarqStated bytes := by
  have hf := Aarq.decode_fields h
  have hctx := named_iff 1 oidArc_ok ApplicationContext.arc_fromArc hf.applicationContext
  have hmech := named_iff 2 implicitOidArc_ok AuthMechanism.arc_fromArc hf.mechanismName
  refine ⟨fun hc => ⟨hctx.mp hc.applicationContext, hmech.mp hc.mechanismName⟩,
    fun ⟨h1, h2⟩ => ?_⟩
  exact ⟨hctx.mpr h1, hmech.mpr h2,
    fun b hb => valueOf_stated (by rw [← hf.calledApTitle, hb]),
    fun b hb => valueOf_stated (by rw [← hf.callingApTitle, hb]),
    fun b hb => valueOf_stated (by rw [← hf.callingAeQualifier, hb]),
    fun b hb => valueOf_stated (by rw [← hf.callingAuthenticationValue, hb]),
    fun b hb => valueOf_stated (by rw [← hf.userInformation, hb]),
    Aarq.reencodes hf.canonical, hf.encodes⟩

/-- ACSE decoding fails closed exactly when an AARE has a result element and the last context name
and the last mechanism name are also stated under their own branch. -/
theorem acse_decoding_fails_closed_iff (bytes : Bytes) :
    (∀ v, (Aare.decode (Reader.new bytes)).1 = .ok v → (v.FailsClosed bytes ↔ AareStated bytes)) ∧
      ∀ v, (Aarq.decode (Reader.new bytes)).1 = .ok v → (v.FailsClosed bytes ↔ AarqStated bytes) :=
  ⟨fun _ h => Aare.failsClosed_iff h, fun _ h => Aarq.failsClosed_iff h⟩

theorem acse_decoding_fails_closed_iff_empty :
    ((Aare.mk none .accepted (.user .null) none false none none none).FailsClosed [0x61, 0x00] ↔
      AareStated [0x61, 0x00]) ∧
    ((Aarq.mk none none none none false none none none).FailsClosed [0x60, 0x00] ↔
      AarqStated [0x60, 0x00]) :=
  ⟨(acse_decoding_fails_closed_iff [0x61, 0x00]).1 _ (by decide),
    (acse_decoding_fails_closed_iff [0x60, 0x00]).2 _ (by decide)⟩

/-- An AARE without a result element is taken for an acceptance. -/
theorem empty_aare_accepted :
    ¬ ∀ bytes v, (Aare.decode (Reader.new bytes)).1 = .ok v → v.FailsClosed bytes := by
  intro hall
  have hacc := (hall [0x61, 0x00] {} (by decide)).accepted (by decide)
  have h : elements [0x61, 0x00] = [] := by decide
  rw [h] at hacc
  obtain ⟨t, ht, -⟩ := hacc
  cases ht

end Dlms
