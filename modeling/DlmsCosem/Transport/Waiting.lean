import DlmsCosem.Transport.Telegrams

/-!
# What a reader of telegrams waits for

`nextTelegram` keeps what stands from the first `/` on that is not rejected. Where it wants a checksum,
that should be a telegram whose `!` or one of the four bytes behind it has not arrived (`CanComplete`).
It is not where the fourth byte behind the `!` ends inside a character (`CutCharacter`): the checksum
cannot be taken out of the text, and the code that does so says that it has not arrived.
-/

namespace Dlms.P1

/-- A `/`, with no `!` behind it yet or fewer than four bytes behind the first one. -/
def CanComplete (bytes : Bytes) : Prop :=
  bytes.head? = some slash ∧
    ∀ front behind, bytes = front ++ bang :: behind → bang ∉ front → behind.length < 4

/-- Text from a `/` on, where a character covers the end of the four bytes behind the first `!`. -/
def CutCharacter (bytes : Bytes) : Prop :=
  Text.Valid bytes ∧ ∃ head printed x more, bytes = slash :: head ++ bang :: (printed ++ x :: more) ∧
    bang ∉ head ∧ printed.length = 4 ∧ ¬ Text.Leads x

/-- Fewer than four bytes are there, or a character covers the end of the fourth. -/
theorem getFour_none_iff {text : Bytes} : getFour text = none ↔ text.length < 4 ∨
    ∃ printed x more, text = printed ++ x :: more ∧ printed.length = 4 ∧ ¬ Text.Leads x := by
  by_cases hlen : text.length < 4
  · simp [getFour_short hlen, hlen]
  · constructor
    · intro h
      have hfour : (text.take 4).length = 4 := by simp; omega
      refine .inr ⟨text.take 4, ?_⟩
      cases hrest : text.drop 4 with
      | nil =>
        have hsome : getFour text = some (text.take 4) :=
          getFour_iff.mpr ⟨[], by rw [← hrest, List.take_append_drop], hfour, by simp⟩
        simp [hsome] at h
      | cons x more =>
        refine ⟨x, more, by rw [← hrest, List.take_append_drop], hfour, fun hleads => ?_⟩
        have hsome : getFour text = some (text.take 4) :=
          getFour_iff.mpr ⟨x :: more, by rw [← hrest, List.take_append_drop], hfour, by simpa using hleads⟩
        simp [hsome] at h
    · rintro (hshort | ⟨printed, x, more, rfl, hfour, hleads⟩)
      · exact absurd hshort hlen
      · cases hget : getFour (printed ++ x :: more) with
        | none => rfl
        | some printed' =>
          obtain ⟨rest, heq, hfour', hleads'⟩ := getFour_iff.mp hget
          obtain ⟨-, rfl⟩ := List.append_inj heq (hfour.trans hfour'.symm)
          exact absurd (hleads' x rfl) hleads

namespace TelegramReader

variable {buf : Bytes}

/-- A checksum is waited for where four bytes of text cannot be taken. -/
theorem checksum_wait {checked after : Bytes} :
    new.checksum checked after = .ok none ↔ getFour after = none := by
  rw [checksum, if_pos (show new.requireChecksum = true from rfl)]
  cases getFour after with
  | none => simp
  | some printed =>
    dsimp only
    split
    · simp
    · split <;> simp

/-- Nothing of what does not begin with a `/`. -/
theorem parse_notSlash (h : ∀ head, buf ≠ slash :: head) : new.parse buf ≠ .ok none := by
  intro hwait
  by_cases hvalid : Text.Valid buf
  · have hhead : (buf.head? != some slash) = true := by
      cases buf with
      | nil => rfl
      | cons b bytes =>
        by_cases hb : b = slash
        · exact absurd (by rw [hb]) (h bytes)
        · simpa using hb
    rw [parse, if_neg (not_not.mpr hvalid), if_pos hhead] at hwait
    cases hwait
  · rw [parse, if_pos hvalid] at hwait
    cases hwait

/-- What has arrived is waited on where it is text from a `/` on, and the four bytes behind its first `!`
cannot be taken. -/
theorem parse_wait_iff : new.parse buf = .ok none ↔ Text.Valid buf ∧ ∃ head, buf = slash :: head ∧
    ∀ front behind, head = front ++ bang :: behind → bang ∉ front → getFour behind = none := by
  constructor
  · intro h
    have hvalid : Text.Valid buf := by
      by_contra hnot
      rw [parse, if_pos hnot] at h
      cases h
    obtain ⟨head, rfl⟩ : ∃ head, buf = slash :: head := by
      by_contra hnot
      exact parse_notSlash (fun head heq => hnot ⟨head, heq⟩) h
    refine ⟨hvalid, head, rfl, ?_⟩
    rintro front behind rfl hbang
    rw [← List.cons_append, parse_closed hvalid hbang] at h
    split at h
    · cases h
    · rename_i hwait
      exact checksum_wait.mp hwait
    · cases h
  · rintro ⟨hvalid, head, rfl, hfour⟩
    by_cases hbang : bang ∈ head
    · obtain ⟨front, behind, rfl, hnot⟩ := List.eq_append_cons_of_mem hbang
      rw [← List.cons_append, parse_closed hvalid hnot, checksum_wait.mpr (hfour front behind rfl hnot)]
    · exact parse_open hvalid hbang

/-- A reader waits on a telegram that may still be completed, or on a cut character. -/
theorem parse_wait_cases (h : new.parse buf = .ok none) : CanComplete buf ∨ CutCharacter buf := by
  obtain ⟨hvalid, head, rfl, hfour⟩ := parse_wait_iff.mp h
  by_cases hcut : CutCharacter (slash :: head)
  · exact .inr hcut
  · refine .inl ⟨rfl, fun front behind heq hnot => ?_⟩
    cases front with
    | nil => exact absurd (List.cons.inj heq).1 (by decide)
    | cons b front =>
      obtain ⟨rfl, rfl⟩ := List.cons.inj heq
      have hnot' : bang ∉ front := fun hmem => hnot (List.mem_cons_of_mem _ hmem)
      obtain hshort | ⟨printed, x, more, rfl, hlen, hleads⟩ :=
        getFour_none_iff.mp (hfour front behind rfl hnot')
      · exact hshort
      · exact absurd ⟨hvalid, front, printed, x, more, rfl, hnot', hlen, hleads⟩ hcut

/-- On a cut character a reader waits. -/
theorem parse_cut (h : CutCharacter buf) : new.parse buf = .ok none := by
  obtain ⟨hvalid, head, printed, x, more, rfl, hnot, hlen, hleads⟩ := h
  refine parse_wait_iff.mpr ⟨hvalid, _, rfl, fun front behind heq hnot' => ?_⟩
  have hplace : head.length = front.length := by
    have hidx := congrArg (·.idxOf? bang) heq
    exact Option.some.inj ((Text.idxOf?_append_cons hnot).symm.trans (hidx.trans (Text.idxOf?_append_cons hnot')))
  obtain ⟨-, hbehind⟩ := List.append_inj heq hplace
  obtain ⟨-, rfl⟩ := List.cons.inj hbehind
  exact getFour_none_iff.mpr (.inr ⟨printed, x, more, rfl, hlen, hleads⟩)

/-- What stands in front of a cut character cannot be completed either. -/
theorem not_canComplete_of_cut {i : Nat} (h : CutCharacter (buf.drop i)) : ¬ CanComplete buf := by
  obtain ⟨-, head, printed, x, more, hsplit, -, hlen, -⟩ := h
  rintro ⟨-, hfew⟩
  generalize htail : printed ++ x :: more = tail at hsplit
  have hbuf : buf.take i ++ slash :: head ++ bang :: tail = buf := by
    rw [List.append_assoc, ← hsplit, List.take_append_drop]
  have hmem : bang ∈ buf := by
    rw [← hbuf]
    simp
  obtain ⟨front, behind, heq, hnot⟩ := List.eq_append_cons_of_mem hmem
  have hshort := hfew front behind heq hnot
  have hlong : 5 ≤ tail.length := by
    rw [← htail, List.length_append, List.length_cons, hlen]
    omega
  -- Behind the first mark there is at least what stands behind the one of the cut character.
  obtain ⟨c, rfl, hc⟩ | ⟨c, -, hc⟩ := List.append_eq_append_iff.mp (hbuf.trans heq)
  · cases c with
    | nil =>
      obtain ⟨-, rfl⟩ := List.cons.inj hc
      omega
    | cons b c =>
      obtain ⟨rfl, -⟩ := List.cons.inj hc
      exact hnot (by simp)
  · have := congrArg List.length hc
    simp at this
    omega

/-- A reader that wants a checksum waits only for what can still be completed, if and only if the buffer
has no cut character or a telegram is found in it. -/
theorem telegram_waits_iff (reader : TelegramReader) (hreader : reader.requireChecksum = true) (buf : Bytes) :
    (∀ discard, (nextTelegram buf reader).1 = .ok (.incomplete discard) → discard < buf.length →
      CanComplete (buf.drop discard)) ↔
    (∀ i, ¬ CutCharacter (buf.drop i)) ∨ ∃ i core rest telegram, buf.drop i = core ++ rest ∧
      Text.Valid (core ++ rest) ∧ IsCore core telegram := by
  simp only [nextTelegram_iff hreader]
  constructor
  · intro hwaits
    by_contra hnot
    obtain ⟨hcut, hnone⟩ := not_or.mp hnot
    obtain ⟨i, hcut⟩ := not_forall_not.mp hcut
    have hwait : new.judge (buf.drop i) = .wait := by rw [judge, parse_cut hcut]
    have hi : i < buf.length := by
      by_contra hge
      rw [List.drop_of_length_le (by omega)] at hcut
      obtain ⟨-, head, printed, x, more, heq, -⟩ := hcut
      cases heq
    cases hfound : Framing.search new.judge 0 none buf with
    | item telegram n =>
      obtain ⟨j, used, -, hitem, -⟩ := Framing.search_item hfound
      obtain ⟨hvalid, core, rest, heq, hcore, -⟩ := parse_iff.mp (judge_item.mp hitem)
      exact hnone ⟨j, core, rest, telegram, heq, heq ▸ hvalid, hcore⟩
    | incomplete d =>
      obtain ⟨k, hd, -, hreject, -, -⟩ := Framing.search_incomplete hfound
      obtain rfl : d = k := by omega
      have hle : d ≤ i := by
        by_contra hlt
        have := hreject i (by omega)
        rw [hwait] at this
        cases this
      refine not_canComplete_of_cut (i := i - d) ?_ (hwaits d hfound (by omega))
      rwa [List.drop_drop, Nat.add_sub_cancel' hle]
  · intro h d hfound hd
    obtain ⟨k, hk, -, -, hwait, hnone⟩ := Framing.search_incomplete hfound
    obtain rfl : d = k := by omega
    obtain hcut | ⟨i, core, rest, telegram, heq, hvalid, hcore⟩ := h
    · have hparse : new.parse (buf.drop d) = .ok none := by
        have hjudge := hwait hd
        rw [judge] at hjudge
        split at hjudge
        · cases hjudge
        · assumption
        · cases hjudge
      exact (parse_wait_cases hparse).resolve_right (hcut d)
    · have hitem := judge_item.mpr (parse_iff.mpr ⟨heq ▸ hvalid, core, rest, heq, hcore, rfl⟩)
      have hi : i < buf.length := by
        have hlen := congrArg List.length heq
        have := hcore.six_le
        simp only [List.length_drop, List.length_append] at hlen
        omega
      exact absurd hitem (hnone i hi telegram _)

/-- The reader that `new` makes waits on no cut character in a telegram without any. -/
theorem telegram_waits_iff_sample :
    (∀ discard, (nextTelegram [slash, 0x41, bang, 0x30] new).1 = .ok (.incomplete discard) →
      discard < 4 → CanComplete ([slash, 0x41, bang, 0x30].drop discard)) ↔
    (∀ i, ¬ CutCharacter ([slash, 0x41, bang, 0x30].drop i)) ∨ ∃ i core rest telegram,
      [slash, 0x41, bang, 0x30].drop i = core ++ rest ∧ Text.Valid (core ++ rest) ∧ IsCore core telegram :=
  telegram_waits_iff new rfl [slash, 0x41, bang, 0x30]

/-- A `!`, three letters and a letter of two bytes: five bytes stand behind the mark, and all of it is
kept. -/
theorem cut_character_kept :
    (nextTelegram [slash, 0x41, bang, 0x61, 0x61, 0x61, 0xC3, 0xA9] new).1 = .ok (.incomplete 0) ∧
      ¬ CanComplete [slash, 0x41, bang, 0x61, 0x61, 0x61, 0xC3, 0xA9] := by
  refine ⟨by decide +kernel, fun ⟨_, hfew⟩ => ?_⟩
  exact absurd (hfew [slash, 0x41] [0x61, 0x61, 0x61, 0xC3, 0xA9] rfl (by decide)) (by decide)

end TelegramReader

end Dlms.P1
