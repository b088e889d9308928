import DlmsCosem.Lib.Decimal
import DlmsCosem.Xdlms.Descriptor

/-!
# Logical names as text

`Obis.parse` reads the digits of a name one after another. It accepts three, five or six groups
(`Obis.Spelled`) and nothing else, and reads back what `Obis.toText` writes.
-/

namespace Dlms

/-- The text could not be read as an OBIS code. -/
structure ObisParseError where
  deriving Repr, DecidableEq

namespace Obis

open Decimal

/-- `-`, `:`, `.`, `*` and `&`. -/
def separators : List UInt8 := [0x2D, 0x3A, 0x2E, 0x2A, 0x26]

/-- Where `parse` is in the text: the groups that are finished, and the one it reads. -/
structure Scan where
  groups : List Nat
  haveDigit : Bool
  cur : Nat
  deriving Repr, DecidableEq

/-- One byte of the text. The accumulator has sixteen bits. -/
def Scan.step (s : Scan) (ch : UInt8) : Except ObisParseError Scan :=
  if IsDigit ch then
    let cur := (if s.haveDigit then s.cur else 0) * 10
    if 2 ^ 16 ≤ cur then .error {}
    else
      let cur := cur + digit ch
      if 2 ^ 16 ≤ cur then .error {}
      else if 255 < cur then .error {}
      else .ok { s with haveDigit := true, cur }
  else if ch ∈ separators then
    if !s.haveDigit || 6 ≤ s.groups.length then .error {}
    else .ok { s with groups := s.groups ++ [s.cur], haveDigit := false }
  else .error {}

/-- The places of three, five or six groups, with their defaults. -/
def place : List Nat → Except ObisParseError Obis
  | [c, d, e] => .ok ⟨1, 0, .ofNat c, .ofNat d, .ofNat e, 255⟩
  | [a, b, c, d, e] => .ok ⟨.ofNat a, .ofNat b, .ofNat c, .ofNat d, .ofNat e, 255⟩
  | [a, b, c, d, e, f] => .ok ⟨.ofNat a, .ofNat b, .ofNat c, .ofNat d, .ofNat e, .ofNat f⟩
  | _ => .error {}

/-- The end of the text. -/
def Scan.finish (s : Scan) : Except ObisParseError Obis :=
  if !s.haveDigit || 6 ≤ s.groups.length then .error {} else place (s.groups ++ [s.cur])

/-- `parse`, of the bytes of a text. -/
def parse (s : Bytes) : Except ObisParseError Obis := do
  let scan ← s.foldlM Scan.step ⟨[], false, 0⟩
  scan.finish

/-- `Display`: `A-B:C.D.E*F`. -/
def toText (o : Obis) : Bytes :=
  text o.a.toNat ++ 0x2D :: (text o.b.toNat ++ 0x3A :: (text o.c.toNat ++ 0x2E ::
    (text o.d.toNat ++ 0x2E :: (text o.e.toNat ++ 0x2A :: text o.f.toNat))))

/-- A group: one digit or more, of a value of one byte. -/
structure IsGroup (g : Bytes) : Prop where
  nonempty : g ≠ []
  digits : ∀ b ∈ g, IsDigit b
  le : value g ≤ 255

/-- Groups with one separator between each two of them. -/
def Joined : List Bytes → Bytes → Prop
  | [], _ => False
  | g :: gs, s => (gs = [] ∧ s = g) ∨ ∃ sep rest, sep ∈ separators ∧ s = g ++ sep :: rest ∧ Joined gs rest

/-- The values of three, five or six groups of `o`. The ones left out are 1, 0 and 255. -/
def Placed (vs : List Nat) (o : Obis) : Prop :=
  (vs = [o.c.toNat, o.d.toNat, o.e.toNat] ∧ o.a = 1 ∧ o.b = 0 ∧ o.f = 255) ∨
  (vs = [o.a.toNat, o.b.toNat, o.c.toNat, o.d.toNat, o.e.toNat] ∧ o.f = 255) ∨
  vs = [o.a.toNat, o.b.toNat, o.c.toNat, o.d.toNat, o.e.toNat, o.f.toNat]

/-- The text is groups that name `o`. -/
def Spelled (s : Bytes) (o : Obis) : Prop :=
  ∃ gs, Joined gs s ∧ (∀ g ∈ gs, IsGroup g) ∧ Placed (gs.map value) o

variable {o : Obis} {groups : List Nat} {g s : Bytes}

theorem not_isDigit_of_mem {b : UInt8} (h : b ∈ separators) : ¬ IsDigit b := by
  simp only [separators, List.mem_cons, List.not_mem_nil, or_false] at h
  rcases h with rfl | rfl | rfl | rfl | rfl <;> decide

theorem place_length {gs : List Nat} (h : place gs = .ok o) : gs.length ≤ 6 := by
  unfold place at h
  split at h
  · simp
  · simp
  · simp
  · cases h

/-- Where each value is one of a byte, `place` puts it where it belongs. -/
theorem place_iff {vs : List Nat} (h : ∀ v ∈ vs, v ≤ 255) : place vs = .ok o ↔ Placed vs o := by
  constructor
  · intro hplace
    unfold place at hplace
    split at hplace
    · cases hplace
      simp at h
      simp [Placed]
      omega
    · cases hplace
      simp at h
      simp [Placed]
      omega
    · cases hplace
      simp at h
      simp [Placed]
      omega
    · cases hplace
  · obtain ⟨a, b, c, d, e, f⟩ := o
    rintro (⟨rfl, rfl, rfl, rfl⟩ | ⟨rfl, rfl⟩ | rfl)
    · simp [place]
    · simp [place]
    · simp [place]

/-- The scan has read the digits `g` of the group that is not finished. -/
structure Reading (scan : Scan) (g : Bytes) : Prop where
  haveDigit : scan.haveDigit = !g.isEmpty
  cur : (if scan.haveDigit then scan.cur else 0) = value g
  digits : ∀ b ∈ g, IsDigit b
  le : value g ≤ 255

variable {scan : Scan} {b : UInt8}

theorem Reading.start (groups : List Nat) (cur : Nat) : Reading ⟨groups, false, cur⟩ [] :=
  ⟨rfl, by simp, by simp, by simp⟩

/-- A digit more, as long as the group is the value of a byte. -/
theorem Reading.digit (h : Reading scan g) (hb : IsDigit b) :
    (value (g ++ [b]) ≤ 255 ∧ ∃ scan', scan.step b = .ok scan' ∧ Reading scan' (g ++ [b]) ∧
      scan'.groups = scan.groups) ∨
    (255 < value (g ++ [b]) ∧ scan.step b = .error {}) := by
  have hle := h.le
  have hlt : Decimal.digit b < 256 := (b - 0x30).toNat_lt
  have hvalue : value g * 10 + Decimal.digit b = value (g ++ [b]) := by
    rw [value_concat, Nat.mul_comm]
  rw [Scan.step, if_pos hb, h.cur]
  dsimp only
  rw [if_neg (by omega), if_neg (by omega), hvalue]
  by_cases hfits : 255 < value (g ++ [b])
  · exact .inr ⟨hfits, if_pos hfits⟩
  · refine .inl ⟨by omega, _, if_neg hfits, ⟨by simp, by simp, fun x hx => ?_, by omega⟩, rfl⟩
    rcases List.mem_append.mp hx with hx | hx
    · exact h.digits x hx
    · rwa [List.mem_singleton.mp hx]

/-- A separator ends a group that has a digit. -/
theorem Reading.separator (h : Reading scan g) (hb : b ∈ separators) :
    (g ≠ [] ∧ scan.groups.length < 6 ∧ ∃ scan', scan.step b = .ok scan' ∧ Reading scan' [] ∧
      scan'.groups = scan.groups ++ [value g]) ∨
    ((g = [] ∨ 6 ≤ scan.groups.length) ∧ scan.step b = .error {}) := by
  rw [Scan.step, if_neg (not_isDigit_of_mem hb), if_pos hb]
  by_cases hempty : g = []
  · exact .inr ⟨.inl hempty, by simp [h.haveDigit, hempty]⟩
  · have hdigit : scan.haveDigit = true := by simp [h.haveDigit, hempty]
    have hcur : scan.cur = value g := by simpa [hdigit] using h.cur
    by_cases hfull : 6 ≤ scan.groups.length
    · exact .inr ⟨.inr hfull, by simp [hfull]⟩
    · refine .inl ⟨hempty, by omega, ⟨scan.groups ++ [value g], false, scan.cur⟩, ?_, .start .., rfl⟩
      simp [hdigit, hcur, hfull]

theorem joined_digit {gs : List Bytes} (hb : IsDigit b) : Joined (g :: gs) (b :: s) ↔
    ∃ g', g = b :: g' ∧ Joined (g' :: gs) s := by
  cases g with
  | nil =>
    refine iff_of_false ?_ (by simp)
    rintro (⟨-, heq⟩ | ⟨sep, rest, hsep, heq, -⟩)
    · cases heq
    · obtain ⟨rfl, -⟩ := List.cons.inj heq
      exact not_isDigit_of_mem hsep hb
  | cons x g =>
    simp only [Joined, List.cons_append, List.cons.injEq]
    constructor
    · rintro (⟨rfl, rfl, rfl⟩ | ⟨sep, rest, hsep, ⟨rfl, rfl⟩, hjoined⟩)
      · exact ⟨s, ⟨rfl, rfl⟩, .inl ⟨rfl, rfl⟩⟩
      · exact ⟨g, ⟨rfl, rfl⟩, .inr ⟨sep, rest, hsep, rfl, hjoined⟩⟩
    · rintro ⟨g', ⟨rfl, rfl⟩, ⟨rfl, rfl⟩ | ⟨sep, rest, hsep, rfl, hjoined⟩⟩
      · exact .inl ⟨rfl, rfl, rfl⟩
      · exact .inr ⟨sep, rest, hsep, ⟨rfl, rfl⟩, hjoined⟩

theorem joined_separator {gs : List Bytes} (hb : b ∈ separators) (hdigits : ∀ x ∈ g, IsDigit x) :
    Joined (g :: gs) (b :: s) ↔ g = [] ∧ Joined gs s := by
  cases g with
  | nil => simp [Joined, hb]
  | cons x g =>
    refine iff_of_false ?_ (by simp)
    have hx : x ≠ b := by
      rintro rfl
      exact not_isDigit_of_mem hb (hdigits x List.mem_cons_self)
    rintro (⟨-, heq⟩ | ⟨sep, rest, -, heq, -⟩)
    · exact hx (List.cons.inj heq).1.symm
    · exact hx (List.cons.inj heq).1.symm

/-- The end of the text ends the last group. -/
theorem Reading.finish (h : Reading scan g) :
    scan.finish = .ok o ↔ IsGroup g ∧ place (scan.groups ++ [value g]) = .ok o := by
  by_cases hempty : g = []
  · have hdigit : scan.haveDigit = false := by simp [h.haveDigit, hempty]
    refine iff_of_false (by simp [Scan.finish, hdigit]) fun hgroup => hgroup.1.nonempty hempty
  · have hdigit : scan.haveDigit = true := by simp [h.haveDigit, hempty]
    have hcur : scan.cur = value g := by simpa [hdigit] using h.cur
    have hgroup : IsGroup g := ⟨hempty, h.digits, h.le⟩
    by_cases hfull : 6 ≤ scan.groups.length
    · refine iff_of_false (by simp [Scan.finish, hfull]) fun ⟨_, hplace⟩ => ?_
      have := place_length hplace
      simp at this
      omega
    · simp [Scan.finish, hdigit, hcur, hfull, hgroup]

/-- What the rest of the text must be for a scan to end well. The induction is on the rest, for every
group that is not finished. -/
theorem Reading.run (h : Reading scan g) (s : Bytes) :
    (s.foldlM Scan.step scan >>= Scan.finish) = .ok o ↔ ∃ g' gs, Joined (g' :: gs) s ∧ IsGroup (g ++ g') ∧
      (∀ x ∈ gs, IsGroup x) ∧ place (scan.groups ++ value (g ++ g') :: gs.map value) = .ok o := by
  induction s generalizing scan g with
  | nil =>
    rw [List.foldlM_nil]
    refine h.finish.trans ⟨fun ⟨hgroup, hplace⟩ => ⟨[], [], .inl ⟨rfl, rfl⟩, ?_, by simp, ?_⟩, ?_⟩
    · rwa [List.append_nil]
    · rwa [List.append_nil]
    · rintro ⟨g', gs, ⟨rfl, rfl⟩ | ⟨sep, rest, -, heq, -⟩, hgroup, -, hplace⟩
      · rw [List.append_nil] at hgroup hplace
        exact ⟨hgroup, hplace⟩
      · cases g' <;> cases heq
  | cons b s ih =>
    rw [List.foldlM_cons]
    by_cases hdigit : IsDigit b
    · obtain ⟨hle, scan', hstep, hreading, hgroups⟩ | ⟨hlt, hstep⟩ := h.digit hdigit
      · rw [hstep]
        refine (ih hreading).trans ⟨?_, ?_⟩
        · rintro ⟨g', gs, hjoined, hgroup, hrest, hplace⟩
          rw [List.append_assoc] at hgroup hplace
          rw [hgroups] at hplace
          exact ⟨b :: g', gs, (joined_digit hdigit).mpr ⟨g', rfl, hjoined⟩, hgroup, hrest, hplace⟩
        · rintro ⟨g', gs, hjoined, hgroup, hrest, hplace⟩
          obtain ⟨more, rfl, hmore⟩ := (joined_digit hdigit).mp hjoined
          rw [List.append_cons g b more] at hgroup hplace
          exact ⟨more, gs, hmore, hgroup, hrest, by rw [hgroups]; exact hplace⟩
      · rw [hstep]
        refine iff_of_false (by rintro ⟨⟩) ?_
        rintro ⟨g', gs, hjoined, hgroup, -, -⟩
        obtain ⟨g', rfl, -⟩ := (joined_digit hdigit).mp hjoined
        have hle := hgroup.le
        rw [List.append_cons] at hle
        have := value_le_append (g ++ [b]) g'
        omega
    · by_cases hsep : b ∈ separators
      · obtain ⟨hne, hroom, scan', hstep, hreading, hgroups⟩ | ⟨hbad, hstep⟩ := h.separator hsep
        · rw [hstep]
          refine (ih hreading).trans ⟨?_, ?_⟩
          · rintro ⟨g', gs, hjoined, hgroup, hrest, hplace⟩
            refine ⟨[], g' :: gs, (joined_separator hsep (by simp)).mpr ⟨rfl, hjoined⟩, ?_, ?_, ?_⟩
            · rw [List.append_nil]
              exact ⟨hne, h.digits, h.le⟩
            · simpa using ⟨hgroup, hrest⟩
            · rw [hgroups] at hplace
              simpa using hplace
          · rintro ⟨g', gs, hjoined, hgroup, hrest, hplace⟩
            obtain ⟨rfl, hmore⟩ :=
              (joined_separator hsep fun x hx => hgroup.digits x (List.mem_append_right _ hx)).mp hjoined
            cases gs with
            | nil => exact hmore.elim
            | cons g' gs =>
              refine ⟨g', gs, hmore, hrest g' List.mem_cons_self,
                fun x hx => hrest x (List.mem_cons_of_mem _ hx), ?_⟩
              rw [hgroups]
              simpa using hplace
        · rw [hstep]
          refine iff_of_false (by rintro ⟨⟩) ?_
          rintro ⟨g', gs, hjoined, hgroup, -, hplace⟩
          obtain ⟨rfl, hmore⟩ :=
            (joined_separator hsep fun x hx => hgroup.digits x (List.mem_append_right _ hx)).mp hjoined
          rcases hbad with hempty | hfull
          · exact hgroup.nonempty (by rw [hempty, List.append_nil])
          · have hlen := place_length hplace
            cases gs with
            | nil => exact hmore
            | cons g' gs =>
              simp at hlen
              omega
      · have hstep : scan.step b = .error {} := by
          rw [Scan.step, if_neg hdigit, if_neg hsep]
        rw [hstep]
        refine iff_of_false (by rintro ⟨⟩) ?_
        rintro ⟨g', gs, hjoined, hgroup, -, -⟩
        cases g' with
        | nil =>
          rcases hjoined with ⟨-, heq⟩ | ⟨sep, rest, hmem, heq, -⟩
          · cases heq
          · obtain ⟨rfl, -⟩ := List.cons.inj heq
            exact hsep hmem
        | cons x g' =>
          have hx : IsDigit x := hgroup.digits x (by simp)
          rcases hjoined with ⟨-, heq⟩ | ⟨sep, rest, -, heq, -⟩
          · obtain ⟨rfl, -⟩ := List.cons.inj heq
            exact hdigit hx
          · obtain ⟨rfl, -⟩ := List.cons.inj heq
            exact hdigit hx

theorem values_le {gs : List Bytes} (h : ∀ g ∈ gs, IsGroup g) : ∀ v ∈ gs.map value, v ≤ 255 := by
  intro v hv
  obtain ⟨g, hg, rfl⟩ := List.mem_map.mp hv
  exact (h g hg).le

/-- `parse` accepts the texts that are three, five or six groups, and gives the name they spell. -/
theorem parse_iff (s : Bytes) (o : Obis) : parse s = .ok o ↔ Spelled s o := by
  refine ((Reading.start [] 0).run s).trans ⟨?_, ?_⟩
  · rintro ⟨g, gs, hjoined, hgroup, hrest, hplace⟩
    have hgroups : ∀ x ∈ g :: gs, IsGroup x := by simpa using ⟨hgroup, hrest⟩
    exact ⟨g :: gs, hjoined, hgroups, (place_iff (values_le hgroups)).mp hplace⟩
  · rintro ⟨gs, hjoined, hgroups, hplaced⟩
    have hplace := (place_iff (values_le hgroups)).mpr hplaced
    cases gs with
    | nil => exact hjoined.elim
    | cons g gs =>
      exact ⟨g, gs, hjoined, hgroups g List.mem_cons_self, fun x hx => hgroups x (List.mem_cons_of_mem _ hx),
        hplace⟩

example : parse [0x31, 0x2E, 0x38, 0x2E, 0x30] = .ok ⟨1, 0, 1, 8, 0, 255⟩ := by decide +kernel

/-- The text of a byte is a group. -/
theorem isGroup_text (v : UInt8) : IsGroup (text v.toNat) := by
  obtain ⟨hne, hdigits, hvalue⟩ := text_spec v.toNat
  have := v.toNat_lt
  exact ⟨hne, hdigits, by omega⟩

/-- The text of a name spells it. -/
theorem spelled_toText (o : Obis) : Spelled o.toText o := by
  refine ⟨[text o.a.toNat, text o.b.toNat, text o.c.toNat, text o.d.toNat, text o.e.toNat,
    text o.f.toNat], ?_, ?_, ?_⟩
  · refine .inr ⟨0x2D, _, by decide, rfl, .inr ⟨0x3A, _, by decide, rfl, .inr ⟨0x2E, _, by decide, rfl, ?_⟩⟩⟩
    exact .inr ⟨0x2E, _, by decide, rfl, .inr ⟨0x2A, _, by decide, rfl, .inl ⟨rfl, rfl⟩⟩⟩
  · simp [isGroup_text]
  · simp [Placed, (text_spec _).2.2]

/-- `parse` accepts its grammar and nothing else, and reads back what is written of a name. -/
theorem parse_grammar : (∀ s o, parse s = .ok o ↔ Spelled s o) ∧ ∀ o : Obis, parse o.toText = .ok o :=
  ⟨parse_iff, fun o => (parse_iff _ o).mpr (spelled_toText o)⟩

end Obis

end Dlms
