import DlmsCosem.Acse.Apdu
import DlmsCosem.Codec.Echo

/-!
# What an ACSE decoder accepts
-/

namespace Dlms

open Ber

/-! ## The elements of an APDU -/

/-- The TLVs inside the outer TLV of an APDU. -/
def elements (bytes : Bytes) : List Tlv :=
  match (readTlv (Reader.new bytes)).1 with
  | .ok outer => (iterTlv outer.value outer.offset).filterMap Except.toOption
  | .error _ => []

/-- The last element of a context number: the one whose value stays. -/
def lastOf (ts : List Tlv) (n : UInt8) : Option Tlv :=
  (ts.filter (·.contextNumber == some n)).getLast?

/-- What `get` reads in the last element of a context number. -/
def valueOf {α : Type} (ts : List Tlv) (n : UInt8) (get : Tlv → Result α) : Option α :=
  (lastOf ts n).bind fun t => (get t).toOption

theorem lastOf_snoc (ts : List Tlv) (t : Tlv) (n : UInt8) :
    lastOf (ts ++ [t]) n = if t.contextNumber = some n then some t else lastOf ts n := by
  unfold lastOf
  rw [List.filter_append]
  by_cases h : t.contextNumber = some n
  · rw [if_pos h, List.filter_cons_of_pos (by simpa using h)]
    simp
  · rw [if_neg h, List.filter_cons_of_neg (by simpa using h)]
    simp

theorem valueOf_snoc {α : Type} (ts : List Tlv) (t : Tlv) (n : UInt8) (get : Tlv → Result α) :
    valueOf (ts ++ [t]) n get =
      if t.contextNumber = some n then (get t).toOption else valueOf ts n get := by
  unfold valueOf
  rw [lastOf_snoc]
  split <;> rfl

theorem lastOf_mem {ts : List Tlv} {n : UInt8} {t : Tlv} (h : lastOf ts n = some t) :
    t ∈ ts ∧ t.contextNumber = some n := by
  have := List.mem_of_getLast? h
  simpa using this

theorem valueOf_some {α : Type} {ts : List Tlv} {n : UInt8} {get : Tlv → Result α} {a : α}
    (h : valueOf ts n get = some a) :
    ∃ t, lastOf ts n = some t ∧ get t = .ok a := by
  unfold valueOf at h
  rw [Option.bind_eq_some_iff] at h
  obtain ⟨t, ht, hg⟩ := h
  refine ⟨t, ht, ?_⟩
  cases hget : get t with
  | ok b => rw [hget] at hg; cases hg; rfl
  | error e => rw [hget] at hg; cases hg

/-- A loop that ends well has run on every element, each of them well formed. -/
theorem foldTlvs_spec {α : Type} {f : α → Tlv → Result α} {P : List Tlv → α → Prop} {a b : α}
    {items : List (Result Tlv)} (ha : P [] a)
    (hstep : ∀ ts x t y, P ts x → f x t = .ok y → P (ts ++ [t]) y)
    (h : foldTlvs f a items = .ok b) : P (items.filterMap Except.toOption) b := by
  suffices ∀ ts, P ts a → P (ts ++ items.filterMap Except.toOption) b from this [] ha
  clear ha
  induction items generalizing a with
  | nil =>
    intro ts hp
    obtain rfl := Except.ok.inj h
    simpa using hp
  | cons item items ih =>
    intro ts hp
    cases item with
    | error e => cases h
    | ok t =>
      rw [foldTlvs_ok, Result.bind_ok] at h
      obtain ⟨c, hc, h⟩ := h
      have := ih h (ts ++ [t]) (hstep ts a t c hp hc)
      simpa [Except.toOption] using this

/-! ## Object identifiers -/

/-- `t` holds the object identifier `o` as a TLV. -/
def CarriesOid (t : Tlv) (o : Bytes) : Prop :=
  ∃ inner, (readTlv t.reader).1 = .ok inner ∧ inner.tag = 0x06 ∧ inner.value = o

/-- `t` is the object identifier `o`, tagged implicitly. -/
def IsOid (t : Tlv) (o : Bytes) : Prop := t.value = o

/-- `t` holds the octet string `b`: as a TLV of tag `expected`, or as its contents when `t` is
primitive. -/
def CarriesOctets (t : Tlv) (expected : UInt8) (b : Bytes) : Prop :=
  if t.isConstructed then
    ∃ inner, (readTlv t.reader).1 = .ok inner ∧ inner.tag = expected ∧ inner.value = b
  else t.value = b

theorem checkOidPrefix_ok {value : Bytes} {offset : Nat} {arc : UInt8} :
    checkOidPrefix value offset = .ok arc ↔ ∃ branch, value = oid branch arc := by
  unfold checkOidPrefix
  split
  · rename_i a b c d e branch arc'
    split
    · rename_i hp
      simp only [oidPrefix, List.cons.injEq, and_true] at hp
      obtain ⟨rfl, rfl, rfl, rfl, rfl⟩ := hp
      simp [oid, oidPrefix]
    · rename_i hp
      refine ⟨(nomatch ·), fun ⟨branch', h⟩ => absurd ?_ hp⟩
      simp only [oid, oidPrefix, List.cons_append, List.nil_append, List.cons.injEq] at h
      simp [oidPrefix, h]
  · rename_i hne
    refine ⟨(nomatch ·), fun ⟨branch, h⟩ => ?_⟩
    simp only [oid, oidPrefix, List.cons_append, List.nil_append] at h
    exact (hne _ _ _ _ _ _ _ h).elim

theorem oidArc_ok {t : Tlv} {arc : UInt8} :
    oidArc t = .ok arc ↔ ∃ branch, CarriesOid t (oid branch arc) := by
  unfold oidArc CarriesOid
  rw [Result.bind_ok]
  constructor
  · rintro ⟨inner, hr, h⟩
    split at h
    · cases h
    · rename_i htag
      obtain ⟨branch, hv⟩ := checkOidPrefix_ok.mp h
      exact ⟨branch, inner, hr, by simpa using htag, hv⟩
  · rintro ⟨branch, inner, hr, htag, hv⟩
    refine ⟨inner, hr, ?_⟩
    rw [if_neg (by simp [htag])]
    exact checkOidPrefix_ok.mpr ⟨branch, hv⟩

theorem implicitOidArc_ok {t : Tlv} {arc : UInt8} :
    implicitOidArc t = .ok arc ↔ ∃ branch, IsOid t (oid branch arc) := checkOidPrefix_ok

theorem innerOctets_ok {t : Tlv} {expected : UInt8} {b : Bytes}
    (h : innerOctets t expected = .ok b) : CarriesOctets t expected b := by
  unfold innerOctets at h
  unfold CarriesOctets
  split at h
  · rename_i hc
    rw [if_neg (by simpa using hc)]
    exact Except.ok.inj h
  · rename_i hc
    rw [if_pos (by simpa using hc)]
    obtain ⟨inner, hr, h⟩ := Result.bind_ok.mp h
    split at h
    · cases h
    · rename_i htag
      exact ⟨inner, hr, by simpa using htag, Except.ok.inj h⟩

/-! ## What the fields say -/

/-- Every field of `v` is what the last element of its number holds, or its default. -/
structure Aarq.Fields (ts : List Tlv) (v : Aarq) : Prop where
  applicationContext : v.applicationContext = (valueOf ts 1 oidArc).map .fromArc
  calledApTitle : v.calledApTitle = valueOf ts 2 (innerOctets · 0x04)
  callingApTitle : v.callingApTitle = valueOf ts 6 (innerOctets · 0x04)
  callingAeQualifier : v.callingAeQualifier = valueOf ts 7 (innerOctets · 0x04)
  mechanismName : v.mechanismName = (valueOf ts 11 implicitOidArc).map .fromArc
  callingAuthenticationValue : v.callingAuthenticationValue = valueOf ts 12 (innerOctets · 0x80)
  userInformation : v.userInformation = valueOf ts 30 (innerOctets · 0x04)

theorem Aarq.field_fields {ts : List Tlv} {v w : Aarq} {t : Tlv} (hv : Fields ts v)
    (h : field v t = .ok w) : Fields (ts ++ [t]) w := by
  obtain ⟨h1, h2, h6, h7, h11, h12, h30⟩ := hv
  unfold field at h
  split at h
  case h_1 _ hn | h_2 _ hn | h_3 _ hn | h_4 _ hn | h_6 _ hn | h_7 _ hn | h_8 _ hn =>
    obtain ⟨x, hx, h⟩ := Result.bind_ok.mp h
    obtain rfl := Except.ok.inj h
    constructor <;> simp_all [valueOf_snoc, Except.toOption]
  case h_5 _ hn =>
    obtain rfl := Except.ok.inj h
    constructor <;> simp_all [valueOf_snoc]
  case h_9 _ _ _ _ _ _ _ _ _ =>
    obtain rfl := Except.ok.inj h
    constructor <;> simp_all [valueOf_snoc]

/-- Every field of `v` is what the last element of its number holds, or its default. -/
structure Aare.Fields (ts : List Tlv) (v : Aare) : Prop where
  applicationContext : v.applicationContext = (valueOf ts 1 oidArc).map .fromArc
  result : v.result = (valueOf ts 2 readResult).getD .accepted
  diagnostic : v.diagnostic = (valueOf ts 3 readDiagnostic).getD (.user .null)
  respondingApTitle : v.respondingApTitle = valueOf ts 4 (innerOctets · 0x04)
  mechanismName : v.mechanismName = (valueOf ts 9 implicitOidArc).map .fromArc
  respondingAuthenticationValue : v.respondingAuthenticationValue = valueOf ts 10 (innerOctets · 0x80)
  userInformation : v.userInformation = valueOf ts 30 (innerOctets · 0x04)

theorem Aare.field_fields {ts : List Tlv} {v w : Aare} {t : Tlv} (hv : Fields ts v)
    (h : field v t = .ok w) : Fields (ts ++ [t]) w := by
  obtain ⟨h1, h2, h3, h4, h9, h10, h30⟩ := hv
  unfold field at h
  split at h
  case h_1 _ hn | h_2 _ hn | h_3 _ hn | h_4 _ hn | h_6 _ hn | h_7 _ hn | h_8 _ hn =>
    obtain ⟨x, hx, h⟩ := Result.bind_ok.mp h
    obtain rfl := Except.ok.inj h
    constructor <;> simp_all [valueOf_snoc, Except.toOption]
  case h_5 _ hn =>
    obtain rfl := Except.ok.inj h
    constructor <;> simp_all [valueOf_snoc]
  case h_9 _ _ _ _ _ _ _ _ _ =>
    obtain rfl := Except.ok.inj h
    constructor <;> simp_all [valueOf_snoc]

theorem Aarq.decode_fields {bytes : Bytes} {v : Aarq}
    (h : (Aarq.decode (Reader.new bytes)).1 = .ok v) : Fields (elements bytes) v := by
  obtain ⟨outer, r, houter, h⟩ := Prog.bind_fst_ok h
  unfold elements
  rw [houter]
  split at h
  · cases h
  · rw [Prog.ofExcept_run] at h
    exact foldTlvs_spec ⟨rfl, rfl, rfl, rfl, rfl, rfl, rfl⟩ (fun ts x t y => field_fields) h

theorem Aare.decode_fields {bytes : Bytes} {v : Aare}
    (h : (Aare.decode (Reader.new bytes)).1 = .ok v) : Fields (elements bytes) v := by
  obtain ⟨outer, r, houter, h⟩ := Prog.bind_fst_ok h
  unfold elements
  rw [houter]
  split at h
  · cases h
  · rw [Prog.ofExcept_run] at h
    exact foldTlvs_spec ⟨rfl, rfl, rfl, rfl, rfl, rfl, rfl⟩ (fun ts x t y => field_fields) h

/-- Every result element of a decoded AARE holds a byte. -/
theorem Aare.decode_results {bytes : Bytes} {v : Aare}
    (h : (Aare.decode (Reader.new bytes)).1 = .ok v) :
    ∀ t ∈ elements bytes, t.contextNumber = some 2 → ∃ x, readResult t = .ok x := by
  obtain ⟨outer, r, houter, h⟩ := Prog.bind_fst_ok h
  unfold elements
  rw [houter]
  split at h
  · cases h
  · rw [Prog.ofExcept_run] at h
    refine foldTlvs_spec (f := field)
      (P := fun ts _ => ∀ t ∈ ts, t.contextNumber = some 2 → ∃ x, readResult t = .ok x) nofun ?_ h
    intro ts x t y hts hstep u hu hn
    rcases List.mem_append.mp hu with hu | hu
    · exact hts u hu hn
    · obtain rfl := List.mem_singleton.mp hu
      simp only [field, hn] at hstep
      obtain ⟨res, hres, -⟩ := Result.bind_ok.mp hstep
      exact ⟨res, hres⟩

/-! ## Encoding and decoding again -/

theorem folds_octets {α : Type} {f : α → Tlv → Result α} {a b : α} {container inner : UInt8}
    {value : Bytes} (htag : (container &&& 0x1F == 0x1F) = false)
    (hcon : (container &&& 0x20 != 0) = true) (hin : (inner &&& 0x1F == 0x1F) = false)
    (hw : WellSized (octets container inner value))
    (hstep : ∀ t, t.tag = container → innerOctets t inner = .ok value → f a t = .ok b) :
    Folds f a (octets container inner value) b := by
  obtain ⟨hbody, hlen⟩ := hw.constructed
  refine Folds.constructed htag hbody.1 hlen fun o => hstep _ rfl ?_
  obtain ⟨r', hr', -⟩ := readTlv_writeTlv inner hin hbody.tlv
    (Reader.withBase (writeTlv inner value).data o) [] (by simp)
  unfold innerOctets
  rw [if_neg (by simp [Tlv.isConstructed, hcon]), Tlv.reader, hr']
  change (if inner != inner then Error.fail _ _ else .ok value) = _
  simp

theorem folds_oid {α : Type} {f : α → Tlv → Result α} {a b : α} {branch arc : UInt8}
    (hstep : ∀ t, t.tag = 0xA1 → oidArc t = .ok arc → f a t = .ok b) :
    Folds f a (writeConstructed 0xA1 (writeTlv 0x06 (oid branch arc))) b := by
  have hlen : (oid branch arc).length < 2 ^ 32 := by simp [oid, oidPrefix]
  have hf := writeTlv_fault 0x06 hlen
  have hsize : (writeTlv 0x06 (oid branch arc)).size < 2 ^ 32 := by
    rw [Emit.size, writeTlv_data 0x06 hlen]
    simp [oid, oidPrefix, writeLen]
  refine Folds.constructed rfl hf hsize fun o => hstep _ rfl ?_
  obtain ⟨r', hr', -⟩ := readTlv_writeTlv 0x06 rfl hlen
    (Reader.withBase (writeTlv 0x06 (oid branch arc)).data o) [] (by simp)
  exact oidArc_ok.mpr ⟨branch, _, by rw [Tlv.reader, hr'], rfl, rfl⟩

theorem folds_implicit_oid {α : Type} {f : α → Tlv → Result α} {a b : α} {tag branch arc : UInt8}
    (htag : (tag &&& 0x1F == 0x1F) = false)
    (hstep : ∀ t, t.tag = tag → implicitOidArc t = .ok arc → f a t = .ok b) :
    Folds f a (writeTlv tag (oid branch arc)) b :=
  Folds.tlv htag (by simp [oid, oidPrefix]) fun _ =>
    hstep _ rfl (implicitOidArc_ok.mpr ⟨branch, rfl⟩)

/-- A value whose names are spelled as a decoder spells them. -/
structure Aarq.Canonical (v : Aarq) : Prop where
  applicationContext : ∀ c, v.applicationContext = some c → .fromArc c.arc = c
  mechanismName : ∀ m, v.mechanismName = some m → .fromArc m.arc = m

theorem Aarq.Fields.canonical {ts : List Tlv} {v : Aarq} (h : Fields ts v) : Canonical v where
  applicationContext c hc := by
    rw [h.applicationContext, Option.map_eq_some_iff] at hc
    obtain ⟨arc, -, rfl⟩ := hc
    rw [ApplicationContext.arc_fromArc]
  mechanismName m hm := by
    rw [h.mechanismName, Option.map_eq_some_iff] at hm
    obtain ⟨arc, -, rfl⟩ := hm
    rw [AuthMechanism.arc_fromArc]

theorem contextNumber_of_tag {t : Tlv} {tag n : UInt8} (ht : t.tag = tag)
    (hn : (if tag &&& 0xC0 == 0x80 then some (tag &&& 0x1F) else none) = some n) :
    t.contextNumber = some n := by
  rw [Tlv.contextNumber, ht, hn]

/-- An octet string that may be missing. -/
theorem folds_opt_octets {α : Type} {f : α → Tlv → Result α} {a : α} {container inner n : UInt8}
    {o : Option Bytes} (set : Option Bytes → α) (hnone : set none = a)
    (htag : (container &&& 0x1F == 0x1F) = false)
    (hcon : (container &&& 0x20 != 0) = true) (hin : (inner &&& 0x1F == 0x1F) = false)
    (hn : (if container &&& 0xC0 == 0x80 then some (container &&& 0x1F) else none) = some n)
    (hstep : ∀ t v, t.contextNumber = some n → innerOctets t inner = .ok v →
      f a t = .ok (set (some v)))
    (hw : WellSized (opt o (octets container inner))) :
    Folds f a (opt o (octets container inner)) (set o) :=
  .opt set hnone hw fun v _ hv => folds_octets htag hcon hin hv fun t ht ho =>
    hstep t v (contextNumber_of_tag ht hn) ho

/-- The loop over the body of a canonical AARQ rebuilds it. -/
theorem Aarq.folds_body {v : Aarq} (hv : v.Canonical) (hw : WellSized v.body) :
    Folds field {} v.body v := by
  have hctx (x : Aarq) (hx : x.applicationContext = none)
      (w : WellSized (opt v.applicationContext
        fun c => writeConstructed 0xA1 (writeTlv 0x06 (oid 1 c.arc)))) :
      Folds field x _ { x with applicationContext := v.applicationContext } :=
    .opt (fun o => { x with applicationContext := o }) (by simp [← hx]) w fun c hc _ =>
      folds_oid fun t ht hr => by
        simp [field, contextNumber_of_tag (n := 1) ht rfl, hr, hv.applicationContext c hc]
  have hcalled (x : Aarq) (hx : x.calledApTitle = none)
      (w : WellSized (opt v.calledApTitle (octets 0xA2 0x04))) :
      Folds field x _ { x with calledApTitle := v.calledApTitle } :=
    folds_opt_octets (n := 2) (fun o => { x with calledApTitle := o }) (by simp [← hx]) rfl rfl rfl rfl
      (fun t b ht ho => by simp [field, ht, ho]) w
  have hcalling (x : Aarq) (hx : x.callingApTitle = none)
      (w : WellSized (opt v.callingApTitle (octets 0xA6 0x04))) :
      Folds field x _ { x with callingApTitle := v.callingApTitle } :=
    folds_opt_octets (n := 6) (fun o => { x with callingApTitle := o }) (by simp [← hx]) rfl rfl rfl rfl
      (fun t b ht ho => by simp [field, ht, ho]) w
  have hqual (x : Aarq) (hx : x.callingAeQualifier = none)
      (w : WellSized (opt v.callingAeQualifier (octets 0xA7 0x04))) :
      Folds field x _ { x with callingAeQualifier := v.callingAeQualifier } :=
    folds_opt_octets (n := 7) (fun o => { x with callingAeQualifier := o }) (by simp [← hx]) rfl rfl rfl rfl
      (fun t b ht ho => by simp [field, ht, ho]) w
  have hbit (x : Aarq) (hx : x.senderAcseRequirements = false) :
      Folds field x (if v.senderAcseRequirements then writeTlv 0x8A [0x07, 0x80] else Emit.empty)
        { x with senderAcseRequirements := v.senderAcseRequirements } := by
    by_cases hb : v.senderAcseRequirements = true
    · rw [if_pos hb]
      refine Folds.tlv rfl (by simp) fun o => ?_
      have hn : (⟨0x8A, [0x07, 0x80], o⟩ : Tlv).contextNumber = some 10 :=
        contextNumber_of_tag (show _ = (0x8A : UInt8) from rfl) rfl
      simp only [field, hn, hb]
      rfl
    · rw [if_neg hb]
      rw [Bool.not_eq_true] at hb
      rw [hb, ← hx]; exact Folds.empty
  have hmech (x : Aarq) (hx : x.mechanismName = none)
      (w : WellSized (opt v.mechanismName fun m => writeTlv 0x8B (oid 2 m.arc))) :
      Folds field x _ { x with mechanismName := v.mechanismName } :=
    .opt (fun o => { x with mechanismName := o }) (by simp [← hx]) w fun c hc _ =>
      folds_implicit_oid rfl fun t ht hr => by
        simp [field, contextNumber_of_tag (n := 11) ht rfl, hr, hv.mechanismName c hc]
  have hauth (x : Aarq) (hx : x.callingAuthenticationValue = none)
      (w : WellSized (opt v.callingAuthenticationValue (octets 0xAC 0x80))) :
      Folds field x _ { x with callingAuthenticationValue := v.callingAuthenticationValue } :=
    folds_opt_octets (n := 12) (fun o => { x with callingAuthenticationValue := o }) (by simp [← hx]) rfl rfl rfl rfl
      (fun t b ht ho => by simp [field, ht, ho]) w
  have hinfo (x : Aarq) (hx : x.userInformation = none)
      (w : WellSized (opt v.userInformation (octets 0xBE 0x04))) :
      Folds field x _ { x with userInformation := v.userInformation } :=
    folds_opt_octets (n := 30) (fun o => { x with userInformation := o }) (by simp [← hx]) rfl rfl rfl rfl
      (fun t b ht ho => by simp [field, ht, ho]) w
  exact .snoc hw (fun hw => .snoc hw (fun hw => .snoc hw (fun hw => .snoc hw (fun hw => .snoc hw
    (fun hw => .snoc hw (fun hw => .snoc hw (hctx {} rfl) (hcalled _ rfl)) (hcalling _ rfl))
    (hqual _ rfl)) (fun _ => hbit _ rfl)) (hmech _ rfl)) (hauth _ rfl)) (hinfo _ rfl)

/-- A value whose names are spelled as a decoder spells them. -/
structure Aare.Canonical (v : Aare) : Prop where
  applicationContext : ∀ c, v.applicationContext = some c → .fromArc c.arc = c
  result : .fromU8 v.result.asU8 = v.result
  diagnostic : ∀ d, v.diagnostic = .user d → .fromU8 d.asU8 = d
  mechanismName : ∀ m, v.mechanismName = some m → .fromArc m.arc = m

/-- A byte in a TLV of its own, inside another. -/
theorem folds_byte {α : Type} {f : α → Tlv → Result α} {a b : α} {container inner v : UInt8}
    (htag : (container &&& 0x1F == 0x1F) = false) (hin : (inner &&& 0x1F == 0x1F) = false)
    (hstep : ∀ t, t.tag = container → (∃ i, (readTlv t.reader).1 = .ok i ∧ i.value = [v]) →
      f a t = .ok b) :
    Folds f a (writeConstructed container (writeTlv inner [v])) b := by
  have hlen : [v].length < 2 ^ 32 := by simp
  have hsize : (writeTlv inner [v]).size < 2 ^ 32 := by
    rw [Emit.size, writeTlv_data inner hlen]
    simp [writeLen]
  refine Folds.constructed htag (writeTlv_fault inner hlen) hsize fun o => hstep _ rfl ?_
  obtain ⟨r', hr', -⟩ := readTlv_writeTlv inner hin hlen
    (Reader.withBase (writeTlv inner [v]).data o) [] (by simp)
  exact ⟨_, by rw [Tlv.reader, hr'], rfl⟩

theorem readResult_ok {t : Tlv} {v : UInt8} (h : ∃ i, (readTlv t.reader).1 = .ok i ∧ i.value = [v]) :
    Aare.readResult t = .ok (.fromU8 v) := by
  obtain ⟨i, hr, hv⟩ := h
  rw [Aare.readResult, hr]
  change (i.asU8 >>= fun x => _) = _
  rw [Tlv.asU8, hv]
  rfl

theorem readDiagnostic_ok {t i j : Tlv} {v : UInt8} (hi : (readTlv t.reader).1 = .ok i)
    (hj : (readTlv i.reader).1 = .ok j) (hv : j.asU8 = .ok v) :
    Aare.readDiagnostic t =
      .ok (if i.contextNumber = some 1 then .user (.fromU8 v) else .provider v) := by
  refine Result.bind_ok.mpr ⟨i, hi, Result.bind_ok.mpr ⟨j, hj, Result.bind_ok.mpr ⟨v, hv, ?_⟩⟩⟩
  split
  · rename_i hn
    rw [if_pos hn]; rfl
  · rename_i hn
    rw [if_neg hn]; rfl

theorem folds_diagnostic {α : Type} {f : α → Tlv → Result α} {a b : α} {d : Diagnostic}
    (hd : ∀ u, d = .user u → .fromU8 u.asU8 = u)
    (hstep : ∀ t, t.tag = 0xA3 → Aare.readDiagnostic t = .ok d → f a t = .ok b) :
    Folds f a (writeConstructed 0xA3 (Aare.diagnosticBody d)) b := by
  have hlen (v : UInt8) : [v].length < 2 ^ 32 := by simp
  have hsize (v : UInt8) : (writeTlv 0x02 [v]).size = 3 := by
    rw [Emit.size, writeTlv_data 0x02 (hlen v)]
    simp [writeLen]
  have hfits (tag v : UInt8) := writeConstructed_of_fits tag (writeTlv_fault 0x02 (hlen v))
    (by rw [hsize]; norm_num)
  have hdata (tag v : UInt8) := (hfits tag v).2
  have hsize' (tag v : UInt8) : (writeConstructed tag (writeTlv 0x02 [v])).size < 2 ^ 32 := by
    have h3 : (writeTlv 0x02 [v]).data.length = 3 := hsize v
    rw [Emit.size, hdata, writeTlv_data tag (by rw [h3]; norm_num)]
    simp [h3, writeLen]
  -- Both containers hold the value in the same way; they differ in their tag.
  have hinner (tag v : UInt8) (htag : (tag &&& 0x1F == 0x1F) = false) (o : Nat) :
      ∃ i, (readTlv (Tlv.mk 0xA3 (writeConstructed tag (writeTlv 0x02 [v])).data o).reader).1 = .ok i ∧
        i.tag = tag ∧ ∃ j, (readTlv i.reader).1 = .ok j ∧ j.asU8 = .ok v := by
    have h3 : (writeTlv 0x02 [v]).data.length = 3 := hsize v
    obtain ⟨r₁, h₁, -⟩ := readTlv_writeTlv tag htag (by rw [h3]; norm_num)
      (Reader.withBase (writeConstructed tag (writeTlv 0x02 [v])).data o) [] (by rw [hdata]; simp)
    refine ⟨_, by rw [Tlv.reader, h₁], rfl, ?_⟩
    obtain ⟨r₂, h₂, -⟩ := readTlv_writeTlv 0x02 rfl (hlen v)
      (Reader.withBase (writeTlv 0x02 [v]).data _) [] (by simp)
    exact ⟨_, by rw [Tlv.reader, h₂], rfl⟩
  cases d with
  | user u =>
    refine Folds.constructed rfl (hfits _ _).1 (hsize' _ _) fun o => hstep _ rfl ?_
    obtain ⟨i, hi, htag, j, hj, hv⟩ := hinner 0xA1 u.asU8 rfl o
    rw [Aare.diagnosticBody, readDiagnostic_ok hi hj hv, contextNumber_of_tag (n := 1) htag rfl,
      if_pos rfl, hd u rfl]
  | provider v =>
    refine Folds.constructed rfl (hfits _ _).1 (hsize' _ _) fun o => hstep _ rfl ?_
    obtain ⟨i, hi, htag, j, hj, hv⟩ := hinner 0xA2 v rfl o
    rw [Aare.diagnosticBody, readDiagnostic_ok hi hj hv, contextNumber_of_tag (n := 2) htag rfl,
      if_neg (by decide)]

theorem Aare.Fields.canonical {ts : List Tlv} {v : Aare} (h : Fields ts v) : Canonical v where
  applicationContext c hc := by
    rw [h.applicationContext, Option.map_eq_some_iff] at hc
    obtain ⟨arc, -, rfl⟩ := hc
    rw [ApplicationContext.arc_fromArc]
  result := by
    rw [h.result]
    cases hr : valueOf ts 2 readResult with
    | none => rfl
    | some res =>
      obtain ⟨t, -, ht⟩ := valueOf_some hr
      obtain ⟨i, -, hi⟩ := Result.bind_ok.mp ht
      obtain ⟨b, -, hb⟩ := Result.bind_ok.mp hi
      obtain rfl := Except.ok.inj hb
      simp
  diagnostic d hd := by
    rw [h.diagnostic] at hd
    cases hr : valueOf ts 3 readDiagnostic with
    | none => rw [hr] at hd; cases hd; rfl
    | some res =>
      rw [hr] at hd
      obtain rfl : res = .user d := hd
      obtain ⟨t, -, ht⟩ := valueOf_some hr
      obtain ⟨i, -, hi⟩ := Result.bind_ok.mp ht
      obtain ⟨j, -, hj⟩ := Result.bind_ok.mp hi
      obtain ⟨b, -, hb⟩ := Result.bind_ok.mp hj
      split at hb
      · cases hb; simp
      · cases hb
  mechanismName m hm := by
    rw [h.mechanismName, Option.map_eq_some_iff] at hm
    obtain ⟨arc, -, rfl⟩ := hm
    rw [AuthMechanism.arc_fromArc]

/-- The loop over the body of a canonical AARE rebuilds it. -/
theorem Aare.folds_body {v : Aare} (hv : v.Canonical) (hw : WellSized v.body) :
    Folds field {} v.body v := by
  have hctx (x : Aare) (hx : x.applicationContext = none)
      (w : WellSized (opt v.applicationContext
        fun c => writeConstructed 0xA1 (writeTlv 0x06 (oid 1 c.arc)))) :
      Folds field x _ { x with applicationContext := v.applicationContext } :=
    .opt (fun o => { x with applicationContext := o }) (by simp [← hx]) w fun c hc _ =>
      folds_oid fun t ht hr => by
        simp [field, contextNumber_of_tag (n := 1) ht rfl, hr, hv.applicationContext c hc]
  have hresult (x : Aare) :
      Folds field x (writeConstructed 0xA2 (writeTlv 0x02 [v.result.asU8]))
        { x with result := v.result } :=
    folds_byte rfl rfl fun t ht hr => by
      simp [field, contextNumber_of_tag (n := 2) ht rfl, readResult_ok hr, hv.result]
  have hdiag (x : Aare) :
      Folds field x (writeConstructed 0xA3 (diagnosticBody v.diagnostic))
        { x with diagnostic := v.diagnostic } :=
    folds_diagnostic hv.diagnostic fun t ht hr => by
      simp [field, contextNumber_of_tag (n := 3) ht rfl, hr]
  have htitle (x : Aare) (hx : x.respondingApTitle = none)
      (w : WellSized (opt v.respondingApTitle (octets 0xA4 0x04))) :
      Folds field x _ { x with respondingApTitle := v.respondingApTitle } :=
    folds_opt_octets (n := 4) (fun o => { x with respondingApTitle := o }) (by simp [← hx]) rfl rfl rfl rfl
      (fun t b ht ho => by simp [field, ht, ho]) w
  have hbit (x : Aare) (hx : x.responderAcseRequirements = false) :
      Folds field x (if v.responderAcseRequirements then writeTlv 0x88 [0x07, 0x80] else Emit.empty)
        { x with responderAcseRequirements := v.responderAcseRequirements } := by
    by_cases hb : v.responderAcseRequirements = true
    · rw [if_pos hb]
      refine Folds.tlv rfl (by simp) fun o => ?_
      have hn : (⟨0x88, [0x07, 0x80], o⟩ : Tlv).contextNumber = some 8 :=
        contextNumber_of_tag (show _ = (0x88 : UInt8) from rfl) rfl
      simp only [field, hn, hb]
      rfl
    · rw [if_neg hb]
      rw [Bool.not_eq_true] at hb
      rw [hb, ← hx]; exact Folds.empty
  have hmech (x : Aare) (hx : x.mechanismName = none)
      (w : WellSized (opt v.mechanismName fun m => writeTlv 0x89 (oid 2 m.arc))) :
      Folds field x _ { x with mechanismName := v.mechanismName } :=
    .opt (fun o => { x with mechanismName := o }) (by simp [← hx]) w fun c hc _ =>
      folds_implicit_oid rfl fun t ht hr => by
        simp [field, contextNumber_of_tag (n := 9) ht rfl, hr, hv.mechanismName c hc]
  have hauth (x : Aare) (hx : x.respondingAuthenticationValue = none)
      (w : WellSized (opt v.respondingAuthenticationValue (octets 0xAA 0x80))) :
      Folds field x _ { x with respondingAuthenticationValue := v.respondingAuthenticationValue } :=
    folds_opt_octets (n := 10) (fun o => { x with respondingAuthenticationValue := o }) (by simp [← hx]) rfl rfl rfl rfl
      (fun t b ht ho => by simp [field, ht, ho]) w
  have hinfo (x : Aare) (hx : x.userInformation = none)
      (w : WellSized (opt v.userInformation (octets 0xBE 0x04))) :
      Folds field x _ { x with userInformation := v.userInformation } :=
    folds_opt_octets (n := 30) (fun o => { x with userInformation := o }) (by simp [← hx]) rfl rfl rfl rfl
      (fun t b ht ho => by simp [field, ht, ho]) w
  exact .snoc hw (fun hw => .snoc hw (fun hw => .snoc hw (fun hw => .snoc hw (fun hw => .snoc hw
    (fun hw => .snoc hw (fun hw => .snoc hw (hctx {} rfl) (fun _ => hresult _)) (fun _ => hdiag _))
    (htitle _ rfl)) (fun _ => hbit _ rfl)) (hmech _ rfl)) (hauth _ rfl)) (hinfo _ rfl)

/-- Whatever a buffer of any size takes of the encoding of `v` decodes to `v`. A buffer is at most
`isize::MAX` bytes long. -/
def Reencodes {α : Type} (decode : Read α) (encode : Emit) (v : α) : Prop :=
  ∀ buf out, buf.length < 2 ^ 63 → SliceWriter.encodeInto encode buf = .ok out →
    Read.fromBytes decode out = .ok v

/-- An APDU whose loop rebuilds the value is read as the value. -/
theorem takes_of_folds {α : Type} {tag : UInt8} {body : Emit} {f : α → Tlv → Result α} {init v : α}
    {decode : Read α} (htag : (tag &&& 0x1F == 0x1F) = false)
    (hdecode : ∀ r r' outer, readTlv r = (.ok outer, r') → outer.tag = tag →
      decode r = (foldTlvs f init (iterTlv outer.value outer.offset), r'))
    (hfolds : WellSized body → Folds f init body v) (hw : WellSized (writeConstructed tag body)) :
    Takes decode (writeConstructed tag body).data (v = ·) := by
  obtain ⟨hbody, hlen⟩ := hw.constructed
  rw [(writeConstructed_of_fits tag hbody.1 hlen).2]
  refine .ofReads fun r tail hr => ?_
  obtain ⟨r', hread, hadv⟩ := readTlv_writeTlv tag htag hlen r tail hr
  exact ⟨r', by rw [hdecode _ _ _ hread rfl, (hfolds hbody).run], hadv⟩

theorem reencodes_of_takes {α : Type} {decode : Read α} {e : Emit} {v : α}
    (h : WellSized e → Takes decode e.data (v = ·)) : Reencodes decode e v := by
  intro buf out hbuf hout
  obtain ⟨hf, rfl, hsize⟩ := SliceWriter.encodeInto_ok hout
  obtain ⟨a, ha, rfl⟩ := (h ⟨hf, by omega⟩).fromBytes
  exact ha

theorem Aarq.takes {v : Aarq} (hv : v.Canonical) (hw : WellSized v.encode) :
    Takes decode v.encode.data (v = ·) :=
  takes_of_folds rfl (fun r r' outer h ht => by
    rw [decode, Prog.bind_run_ok h, if_neg (by simp [ht]), Prog.ofExcept_run]) (folds_body hv) hw

theorem Aare.takes {v : Aare} (hv : v.Canonical) (hw : WellSized v.encode) :
    Takes decode v.encode.data (v = ·) :=
  takes_of_folds rfl (fun r r' outer h ht => by
    rw [decode, Prog.bind_run_ok h, if_neg (by simp [ht]), Prog.ofExcept_run]) (folds_body hv) hw

theorem Aarq.reencodes {v : Aarq} (hv : v.Canonical) : Reencodes decode v.encode v :=
  reencodes_of_takes (takes hv)

theorem Aare.reencodes {v : Aare} (hv : v.Canonical) : Reencodes decode v.encode v :=
  reencodes_of_takes (takes hv)

/-- A short AARE that was written reads back. -/
theorem Aare.readBack {v : Aare} {buf bytes : Bytes} {n : Nat} (hv : v.Canonical)
    (hb : Bounded v.encode n) (hn : n < 2 ^ 63)
    (h : SliceWriter.encodeInto v.encode buf = .ok bytes) : Read.fromBytes decode bytes = .ok v := by
  have hfits : SliceWriter.encodeInto v.encode (List.replicate n 0) = .ok v.encode.data :=
    SliceWriter.encodeInto_fits hb.1 (by simpa using hb.2)
  rw [← (SliceWriter.encodeInto_ok h).2.1] at hfits
  exact reencodes hv _ _ (by simpa using hn) hfits

end Dlms
