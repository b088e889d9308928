import DlmsCosem.Transport.P1
import Mathlib.Data.List.Infix

/-!
# Telegrams in a stream

What `parse` accepts begins with the bytes of a telegram up to the last digit of its check (`parse_iff`).
It takes everything that has arrived for text, so a telegram is found behind noise if and only if what
follows it is text, and telegrams that arrive in chunks come out, each once and in order, where every
chunk is text on its own (`telegrams_found`).
-/

namespace Dlms.P1

theorem ascii_of_isHexdigit {b : UInt8} (h : isHexdigit b = true) : b < 0x80 ∧ b ≠ bang ∧ b ≠ slash := by
  have hall : ∀ n : Fin 256, isHexdigit (UInt8.ofFin n) = true →
      UInt8.ofFin n < 0x80 ∧ UInt8.ofFin n ≠ bang ∧ UInt8.ofFin n ≠ slash := by decide +kernel
  exact hall b.toFin h

/-! ## Line ends -/

/-- The line ends that `parse` takes. -/
theorem lineEnd_cases (bytes : Bytes) : lineEnd bytes = 0 ∨
    (∃ more, bytes = lf :: more ∧ lineEnd bytes = 1) ∨ ∃ more, bytes = cr :: lf :: more ∧ lineEnd bytes = 2 := by
  unfold lineEnd
  split
  · rename_i h
    obtain ⟨more, rfl⟩ := List.isPrefixOf_iff_prefix.mp h
    exact .inr (.inr ⟨more, rfl, rfl⟩)
  · split
    · rename_i h
      obtain ⟨more, rfl⟩ := List.isPrefixOf_iff_prefix.mp h
      exact .inr (.inl ⟨more, rfl, rfl⟩)
    · exact .inl rfl

theorem lineEnd_le (bytes : Bytes) : lineEnd bytes ≤ 2 := by
  unfold lineEnd
  split
  · exact le_rfl
  · split <;> omega

theorem lineEnd_le_length (bytes : Bytes) : lineEnd bytes ≤ bytes.length := by
  obtain h | ⟨more, rfl, h⟩ | ⟨more, rfl, h⟩ := lineEnd_cases bytes
  · omega
  · rw [h, List.length_cons]
    omega
  · rw [h, List.length_cons, List.length_cons]
    omega

/-- What arrives later may complete a line end, and takes none away. -/
theorem lineEnd_append (bytes more : Bytes) : lineEnd bytes ≤ lineEnd (bytes ++ more) := by
  obtain h | ⟨rest, rfl, h⟩ | ⟨rest, rfl, h⟩ := lineEnd_cases bytes
  · omega
  · exact h.le
  · exact h.le

theorem valid_drop_lineEnd {bytes : Bytes} (h : Text.Valid bytes) :
    Text.Valid (bytes.drop (lineEnd bytes)) := by
  obtain hend | ⟨more, rfl, hend⟩ | ⟨more, rfl, hend⟩ := lineEnd_cases bytes
  · rwa [hend]
  · rw [hend]
    exact .behind [] h (by decide)
  · rw [hend]
    exact .behind [cr] h (by decide)

/-! ## What `parse` accepts -/

/-- The bytes of a telegram, up to the last digit of its check. -/
def IsCore (core : Bytes) (telegram : Telegram) : Prop :=
  ∃ head printed, core = slash :: head ++ bang :: printed ∧ bang ∉ head ∧ printed.length = 4 ∧
    printed.all isHexdigit = true ∧ fromHex printed = crc16 (slash :: head ++ [bang]) ∧
    Telegram.ofHead head = telegram

theorem getFour_short {text : Bytes} (h : text.length < 4) : getFour text = none := if_pos h

theorem getFour_iff {text printed : Bytes} : getFour text = some printed ↔
    ∃ rest, text = printed ++ rest ∧ printed.length = 4 ∧ ∀ b ∈ rest.head?, Text.Leads b := by
  by_cases hlen : text.length < 4
  · rw [getFour_short hlen]
    constructor
    · intro h
      cases h
    · rintro ⟨rest, rfl, hfour, -⟩
      rw [List.length_append] at hlen
      omega
  · have hlen' : (text.take 4).length = 4 := List.length_take_of_le (by omega)
    have hhead : text[4]? = (text.drop 4).head? := by rw [List.head?_drop]
    rw [getFour, if_neg hlen, hhead]
    constructor
    · intro h
      refine ⟨text.drop 4, ?_⟩
      split at h
      · rename_i b hb
        split at h
        · rename_i hleads
          obtain rfl := Option.some.inj h
          refine ⟨(List.take_append_drop 4 text).symm, hlen', fun b' hb' => ?_⟩
          rw [hb] at hb'
          obtain rfl := Option.some.inj hb'
          exact hleads
        · cases h
      · rename_i hnone
        obtain rfl := Option.some.inj h
        refine ⟨(List.take_append_drop 4 text).symm, hlen', fun b' hb' => ?_⟩
        rw [hnone] at hb'
        cases hb'
    · rintro ⟨rest, rfl, hfour, hleads⟩
      rw [List.drop_left' hfour, List.take_left' hfour]
      cases hrest : rest.head? with
      | none => rfl
      | some b => exact if_pos (hleads b hrest)

/-- What follows the digits of a check in some text is text. -/
theorem valid_behind {printed rest : Bytes} (hlen : printed.length = 4)
    (hdigits : printed.all isHexdigit = true) (front : Bytes) (h : Text.Valid (front ++ printed ++ rest)) :
    Text.Valid rest := by
  obtain hnil | ⟨init, last, hlast⟩ := List.eq_nil_or_concat printed
  · rw [hnil] at hlen
    cases hlen
  · rw [List.concat_eq_append] at hlast
    have hascii : last < 0x80 := by
      refine (ascii_of_isHexdigit (List.all_eq_true.mp hdigits last ?_)).1
      rw [hlast]
      exact List.mem_append_right _ (List.mem_singleton_self last)
    refine .behind (front ++ init) (x := last) ?_ hascii
    rw [hlast] at h
    simpa using h

theorem IsCore.six_le {core : Bytes} {telegram : Telegram} (h : IsCore core telegram) : 6 ≤ core.length := by
  obtain ⟨head, printed, rfl, -, hlen, -⟩ := h
  rw [List.length_append, List.length_cons, List.length_cons, hlen]
  omega

theorem IsCore.slash {core : Bytes} {telegram : Telegram} (h : IsCore core telegram) :
    ∃ more, core = slash :: more := by
  obtain ⟨head, printed, rfl, -⟩ := h
  exact ⟨_, rfl⟩

theorem IsCore.valid_behind {core rest : Bytes} {telegram : Telegram} (h : IsCore core telegram)
    (hvalid : Text.Valid (core ++ rest)) : Text.Valid rest := by
  obtain ⟨head, printed, rfl, -, hlen, hdigits, -⟩ := h
  refine P1.valid_behind hlen hdigits (P1.slash :: head ++ [bang]) ?_
  simpa using hvalid

namespace TelegramReader

variable {buf head behind : Bytes} {telegram : Telegram} {used n : Nat} {reader : TelegramReader}

/-- Nothing yet where no `!` has arrived. -/
theorem parse_open (hvalid : Text.Valid (slash :: head)) (h : bang ∉ head) :
    reader.parse (slash :: head) = .ok none := by
  have hnone : (slash :: head).idxOf? bang = none := by
    rw [List.idxOf?_eq_none_iff, List.mem_cons]
    exact not_or.mpr ⟨by decide, h⟩
  rw [parse, if_neg (not_not.mpr hvalid), if_neg (by simp), hnone]

theorem parse_closed (hvalid : Text.Valid (slash :: head ++ bang :: behind)) (h : bang ∉ head) :
    reader.parse (slash :: head ++ bang :: behind) =
      match reader.checksum (slash :: head ++ [bang]) behind with
      | .error () => .error ()
      | .ok none => .ok none
      | .ok (some n) =>
        .ok (some (Telegram.ofHead head, head.length + 2 + n + lineEnd (behind.drop n))) := by
  have hfront : bang ∉ slash :: head := by
    rw [List.mem_cons]
    exact not_or.mpr ⟨by decide, h⟩
  have hsplit : slash :: head ++ bang :: behind = slash :: head ++ [bang] ++ behind := by simp
  have hlen : (slash :: head ++ [bang]).length = (slash :: head).length + 1 := List.length_append
  rw [parse, if_neg (not_not.mpr hvalid), if_neg (by simp), Text.idxOf?_append_cons hfront]
  dsimp only
  rw [List.take_left, hsplit, List.take_left' hlen, List.drop_left' hlen]
  cases reader.checksum (slash :: head ++ [bang]) behind with
  | error e => rfl
  | ok r =>
    cases r with
    | none => rfl
    | some n =>
      dsimp only
      rw [← List.drop_drop, List.drop_left' hlen]
      rfl

theorem checksum_new {checked after : Bytes} : new.checksum checked after = .ok (some n) ↔
    n = 4 ∧ ∃ printed, getFour after = some printed ∧ printed.all isHexdigit = true ∧
      fromHex printed = crc16 checked := by
  rw [checksum, if_pos (show new.requireChecksum = true from rfl)]
  cases getFour after with
  | none =>
    constructor
    · intro h
      cases h
    · rintro ⟨-, printed, h, -⟩
      cases h
  | some printed =>
    dsimp only
    constructor
    · intro h
      split at h
      · cases h
      · rename_i hdigits
        split at h
        · cases h
        · rename_i hcrc
          refine ⟨(Option.some.inj (Except.ok.inj h)).symm, printed, rfl, ?_, ?_⟩
          · simpa using hdigits
          · simpa using hcrc
    · rintro ⟨rfl, printed', ⟨⟩, hdigits, hcrc⟩
      rw [hdigits, if_neg (by decide), hcrc, if_neg (by simp)]

/-- Everything that has arrived is text and begins with a telegram. -/
theorem parse_iff : new.parse buf = .ok (some (telegram, used)) ↔
    Text.Valid buf ∧ ∃ core rest, buf = core ++ rest ∧ IsCore core telegram ∧
      used = core.length + lineEnd rest := by
  constructor
  · intro h
    have hvalid : Text.Valid buf := by
      by_contra hnot
      rw [parse, if_pos hnot] at h
      cases h
    obtain ⟨head, rfl⟩ : ∃ head, buf = slash :: head := by
      cases buf with
      | nil =>
        rw [parse, if_neg (not_not.mpr hvalid), if_pos (by decide)] at h
        cases h
      | cons b bytes =>
        by_cases hb : b = slash
        · exact ⟨bytes, by rw [hb]⟩
        · rw [parse, if_neg (not_not.mpr hvalid), if_pos (by simpa using hb)] at h
          cases h
    by_cases hbang : bang ∈ head
    · obtain ⟨front, behind, rfl, hnot⟩ := List.eq_append_cons_of_mem hbang
      rw [← List.cons_append, parse_closed hvalid hnot] at h
      split at h
      · cases h
      · cases h
      · rename_i n hn
        obtain ⟨rfl, printed, hfour, hdigits, hcrc⟩ := checksum_new.mp hn
        obtain ⟨rest, rfl, hlen, -⟩ := getFour_iff.mp hfour
        obtain ⟨rfl, rfl⟩ := Prod.mk.inj (Option.some.inj (Except.ok.inj h))
        refine ⟨hvalid, slash :: front ++ bang :: printed, rest, by simp,
          ⟨front, printed, rfl, hnot, hlen, hdigits, hcrc, rfl⟩, ?_⟩
        rw [List.drop_left' hlen, List.length_append, List.length_cons, List.length_cons, hlen]
    · rw [parse_open hvalid hbang] at h
      cases h
  · rintro ⟨hvalid, core, rest, rfl, ⟨head, printed, rfl, hnot, hlen, hdigits, hcrc, rfl⟩, rfl⟩
    have hassoc : slash :: head ++ bang :: printed ++ rest = slash :: head ++ bang :: (printed ++ rest) := by
      simp
    have hleads : ∀ b ∈ rest.head?, Text.Leads b := by
      intro b hb
      cases rest with
      | nil => cases hb
      | cons x rest =>
        obtain rfl := Option.some.inj hb
        have hbehind : Text.Valid (x :: rest) :=
          valid_behind hlen hdigits (slash :: head ++ [bang]) (by simpa using hvalid)
        exact hbehind.leads
    rw [hassoc] at hvalid ⊢
    rw [parse_closed hvalid hnot, checksum_new.mpr ⟨rfl, printed, getFour_iff.mpr ⟨rest, rfl, hlen, hleads⟩,
      hdigits, hcrc⟩]
    dsimp only
    rw [List.drop_left' hlen, List.length_append, List.length_cons, List.length_cons, hlen]

/-! ## The search -/

/-- What stands at the start of some bytes. -/
def judge (reader : TelegramReader) (bytes : Bytes) : Framing.Verdict Telegram :=
  match reader.parse bytes with
  | .ok (some (telegram, used)) => .item telegram used
  | .ok none => .wait
  | .error () => .reject

theorem judge_item : reader.judge buf = .item telegram used ↔
    reader.parse buf = .ok (some (telegram, used)) := by
  unfold judge
  match reader.parse buf with
  | .ok (some (telegram', used')) => simp
  | .ok none => simp
  | .error () => simp

theorem judge_notSlash {b : UInt8} (h : b ≠ slash) (bytes : Bytes) : reader.judge (b :: bytes) = .reject := by
  have herror : reader.parse (b :: bytes) = .error () := by
    unfold parse
    split
    · rfl
    · exact if_pos (by simpa using h)
  rw [judge, herror]

/-- Which bytes are a telegram depends only on whether a checksum is wanted. -/
theorem judge_congr {reader' : TelegramReader} (h : reader'.requireChecksum = reader.requireChecksum) :
    reader'.judge = reader.judge := by
  funext bytes
  have hcheck : reader'.checksum = reader.checksum := by
    funext checked after
    rw [checksum, checksum, h]
  rw [judge, judge, parse, parse, hcheck]

theorem discard_run {α : Type} (n : Nat) (a : α) : ∃ reader',
    reader'.requireChecksum = reader.requireChecksum ∧
      (discard n >>= fun _ => pure a) reader = (.ok a, reader') :=
  ⟨{ reader with discarded := min (reader.discarded + n) (2 ^ 64 - 1) }, rfl, rfl⟩

/-- The scan over the `/` is a search at every place. -/
theorem scan_search (bytes : Bytes) (start : Nat) (firstIncomplete : Option Nat) :
    ∃ reader', reader'.requireChecksum = reader.requireChecksum ∧ scan start firstIncomplete bytes reader =
      (.ok (Framing.search reader.judge start firstIncomplete bytes), reader') := by
  induction bytes generalizing start firstIncomplete with
  | nil => exact discard_run _ _
  | cons b bytes ih =>
    rw [scan, Framing.search]
    by_cases hb : b = slash
    · rw [if_neg (by simpa using hb), Prog.gets_bind_run, judge]
      cases reader.parse (b :: bytes) with
      | error e => exact ih _ _
      | ok r =>
        cases r with
        | none => exact ih _ _
        | some out => exact discard_run _ _
    · rw [if_pos (by simpa using hb), judge_notSlash hb]
      exact ih _ _

/-- A reader that wants a checksum. -/
theorem nextTelegram_run (h : reader.requireChecksum = true) (buf : Bytes) :
    ∃ reader', reader'.requireChecksum = true ∧
      nextTelegram buf reader = (.ok (Framing.search new.judge 0 none buf), reader') := by
  have hjudge : reader.judge = new.judge := judge_congr h
  obtain ⟨reader', hsame, hrun⟩ : ∃ reader', reader'.requireChecksum = reader.requireChecksum ∧
      nextTelegram buf reader = (.ok (Framing.search reader.judge 0 none buf), reader') :=
    scan_search buf 0 none
  rw [hjudge] at hrun
  exact ⟨reader', hsame.trans h, hrun⟩

theorem nextTelegram_iff (h : reader.requireChecksum = true) {found : Found} :
    (nextTelegram buf reader).1 = .ok found ↔ Framing.search new.judge 0 none buf = found := by
  obtain ⟨reader', -, hrun⟩ := nextTelegram_run h buf
  rw [hrun]
  exact ⟨Except.ok.inj, congrArg _⟩

variable {core rest gap : Bytes} {start : Nat} {firstWait : Option Nat}

/-- Noise without a `/` is passed over. -/
theorem search_gap (h : slash ∉ gap) (rest : Bytes) : Framing.search new.judge start firstWait (gap ++ rest) =
    Framing.search new.judge (start + gap.length) firstWait rest := by
  refine Framing.search_rejected (fun j hj => ?_) start firstWait
  rw [List.drop_append_of_le_length hj.le, List.drop_eq_getElem_cons hj]
  exact judge_notSlash (fun heq => h (heq ▸ List.getElem_mem hj)) _

/-- A telegram is found where it stands, if all that has arrived behind it is text. -/
theorem search_core (h : IsCore core telegram) (hvalid : Text.Valid (core ++ rest)) :
    Framing.search new.judge start firstWait (core ++ rest) =
      .item telegram (start + (core.length + lineEnd rest)) := by
  have hitem : new.judge (core ++ rest) = .item telegram (core.length + lineEnd rest) :=
    judge_item.mpr (parse_iff.mpr ⟨hvalid, core, rest, rfl, h, rfl⟩)
  obtain ⟨more, hmore⟩ := h.slash
  rw [hmore, List.cons_append] at hitem ⊢
  rw [Framing.search, hitem]

/-- No telegram stands in a part of a telegram that ends before it. -/
theorem not_item_of_part (h : IsCore core telegram) {k : Nat} (hk : k < core.length) (j : Nat)
    (telegram' : Telegram) (used : Nat) : new.judge ((core.take k).drop j) ≠ .item telegram' used := by
  intro hitem
  obtain ⟨-, core', rest', hsplit, ⟨head', printed', rfl, -, hlen', -⟩, -⟩ :=
    parse_iff.mp (judge_item.mp hitem)
  obtain ⟨head, printed, hcore, hhead, hlen, hdigits, -⟩ := h
  -- The `!` inside is the one of the whole, and its four digits end with it.
  have hone : (core.take k).take j ++ slash :: head' ++ bang :: (printed' ++ rest' ++ core.drop k) =
      slash :: head ++ bang :: printed := by
    rw [← hcore]
    conv_rhs => rw [← List.take_append_drop k core, ← List.take_append_drop j (core.take k), hsplit]
    simp
  have hfront : bang ∉ slash :: head := by
    rw [List.mem_cons]
    exact not_or.mpr ⟨by decide, hhead⟩
  have hbehind : bang ∉ printed := fun hmem =>
    (ascii_of_isHexdigit (List.all_eq_true.mp hdigits bang hmem)).2.1 rfl
  obtain ⟨-, -, hprinted⟩ := (List.append_cons_inj_of_notMem hfront hbehind).mp hone.symm
  have hlens := congrArg List.length hprinted
  rw [List.length_append, List.length_append, hlen, hlen', List.length_drop] at hlens
  omega

/-- Of a part of a telegram the reader keeps everything. -/
theorem search_part (h : IsCore core telegram) {k : Nat} (hpos : 0 < k) (hk : k < core.length)
    (hvalid : Text.Valid (core.take k)) :
    Framing.search new.judge start none (core.take k) = .incomplete start := by
  refine Framing.search_waits ?_ fun i _ => not_item_of_part h hk i
  obtain ⟨head, printed, rfl, hhead, hlen, -⟩ := h
  have hwait : new.parse ((slash :: head ++ bang :: printed).take k) = .ok none := by
    obtain ⟨k, rfl⟩ : ∃ n, k = n + 1 := ⟨k - 1, by omega⟩
    by_cases hle : k ≤ head.length
    · have htake : (slash :: head ++ bang :: printed).take (k + 1) = slash :: head.take k := by
        rw [List.cons_append, List.take_succ_cons, List.take_append_of_le_length hle]
      rw [htake] at hvalid ⊢
      exact parse_open hvalid fun hmem => hhead (List.mem_of_mem_take hmem)
    · obtain ⟨m, rfl⟩ : ∃ m, k = head.length + (m + 1) := ⟨k - head.length - 1, by omega⟩
      have htake : (slash :: head ++ bang :: printed).take (head.length + (m + 1) + 1) =
          slash :: head ++ bang :: printed.take m := by
        rw [List.cons_append, List.take_succ_cons, List.take_length_add_append, List.take_succ_cons,
          List.cons_append]
      rw [htake] at hvalid ⊢
      have hshort : (printed.take m).length < 4 := by
        simp only [List.length_append, List.length_cons, hlen] at hk
        rw [List.length_take]
        omega
      rw [parse_closed hvalid hhead, checksum, if_pos (show new.requireChecksum = true from rfl),
        getFour_short hshort]
  rw [judge, hwait]

/-! ## Behind noise -/

theorem used_le (h : new.parse buf = .ok (some (telegram, used))) : used ≤ buf.length := by
  obtain ⟨-, core, rest, rfl, -, rfl⟩ := parse_iff.mp h
  have := lineEnd_le_length rest
  rw [List.length_append]
  omega

/-- The telegram behind noise is found where what follows it is text, and nothing ends there else. -/
theorem search_behind_noise {noise : Bytes} (hnoise : slash ∉ noise)
    (h : new.parse buf = .ok (some (telegram, used))) :
    (∃ n ≤ 2, Framing.search new.judge 0 none (noise ++ buf ++ rest) =
      .item telegram (noise.length + used + n)) ↔ Text.Valid rest := by
  have hused := used_le h
  obtain ⟨hvalid, core, behind, rfl, hcore, rfl⟩ := parse_iff.mp h
  constructor
  · rintro ⟨n, hn, hfound⟩
    obtain ⟨i, used', hi, hitem, heq, -⟩ := Framing.search_item hfound
    obtain ⟨hvalid', core', behind', hsplit, hcore', rfl⟩ := parse_iff.mp (judge_item.mp hitem)
    have hsix := hcore'.six_le
    obtain ⟨more, rfl⟩ := hcore'.slash
    obtain hlt | ⟨j, rfl⟩ : i < noise.length ∨ ∃ j, i = noise.length + j :=
      (Nat.lt_or_ge i noise.length).imp_right Nat.exists_eq_add_of_le
    · -- In the noise: there is no `/`.
      have hhead : noise[i]? = some slash := by
        have hget := congrArg List.head? hsplit
        rwa [List.head?_drop, List.append_assoc, List.getElem?_append_left hlt] at hget
      exact absurd (List.mem_of_getElem? hhead) hnoise
    · rw [List.append_assoc, List.drop_length_add_append] at hvalid' hsplit
      obtain hlt | hge := Nat.lt_or_ge j (core ++ behind).length
      · -- In the telegram: what stands there is text, up to its end.
        rw [List.drop_append_of_le_length hlt.le] at hvalid' hsplit
        have hsuffix : Text.Valid ((core ++ behind).drop j) := by
          obtain ⟨b, tail, hb⟩ : ∃ b tail, (core ++ behind).drop j = b :: tail :=
            ⟨_, _, List.drop_eq_getElem_cons hlt⟩
          have hslash : b = slash := by
            rw [hb] at hsplit
            exact (List.cons.inj hsplit).1
          rw [← List.take_append_drop j (core ++ behind), hb, hslash] at hvalid
          rw [hb, hslash]
          exact (hvalid.split (by decide)).2
        exact hsuffix.append_iff.mp hvalid'
      · -- Behind it: what is found there uses more.
        omega
  · intro hrest
    have hall : Text.Valid (core ++ (behind ++ rest)) := by
      rw [← List.append_assoc]
      exact hvalid.append hrest
    have hle := lineEnd_append behind rest
    have hmost := lineEnd_le (behind ++ rest)
    refine ⟨lineEnd (behind ++ rest) - lineEnd behind, by omega, ?_⟩
    rw [List.append_assoc, List.append_assoc, search_gap hnoise, search_core hcore hall, Nat.zero_add]
    congr 1
    omega

/-! ## In chunks -/

/-- The line ends that `parse` takes whole. -/
theorem lineEnd_all {bytes : Bytes} (h : lineEnd bytes = bytes.length) :
    bytes = [] ∨ bytes = [lf] ∨ bytes = [cr, lf] := by
  obtain hend | ⟨more, rfl, hend⟩ | ⟨more, rfl, hend⟩ := lineEnd_cases bytes
  · exact .inl (List.eq_nil_of_length_eq_zero (h.symm.trans hend))
  · rw [hend, List.length_cons] at h
    obtain rfl := List.eq_nil_of_length_eq_zero (show more.length = 0 by omega)
    exact .inr (.inl rfl)
  · rw [hend, List.length_cons, List.length_cons] at h
    obtain rfl := List.eq_nil_of_length_eq_zero (show more.length = 0 by omega)
    exact .inr (.inr rfl)

/-- The next telegram adds nothing to a line end. -/
theorem lineEnd_next {bytes next : Bytes} (h : lineEnd bytes = bytes.length)
    (hnext : ∀ b ∈ next.head?, b = slash) : lineEnd (bytes ++ next) = bytes.length := by
  obtain rfl | rfl | rfl := lineEnd_all h
  · cases next with
    | nil => rfl
    | cons b next =>
      obtain rfl := hnext b rfl
      rfl
  · rfl
  · rfl

/-- What is retained and what is to arrive: the rest of a line end, and whole telegrams. -/
structure Stream (gap : Bytes) (ts : List (Bytes × Telegram)) (chunks : List Bytes) (buf : Bytes) : Prop where
  whole : ∀ t ∈ ts, new.parse t.1 = .ok (some (t.2, t.1.length))
  noise : slash ∉ gap
  bytes : buf ++ chunks.flatten = gap ++ ts.flatMap Prod.fst
  text : Text.Valid buf
  texts : ∀ chunk ∈ chunks, Text.Valid chunk

/-- The telegrams to come. -/
def Busy (chunks : List Bytes) (buf : Bytes) (telegrams : List Telegram) : Prop :=
  ∃ gap ts, Stream gap ts chunks buf ∧ ts.map Prod.snd = telegrams

/-- None of them is there whole. -/
def Idle (chunks : List Bytes) (buf : Bytes) (telegrams : List Telegram) : Prop :=
  Busy chunks buf telegrams ∧ (chunks = [] → telegrams = [])

variable {t : Bytes × Telegram} {ts : List (Bytes × Telegram)} {chunks : List Bytes}

theorem core_of_whole (h : new.parse t.1 = .ok (some (t.2, t.1.length))) :
    ∃ core ending, t.1 = core ++ ending ∧ IsCore core t.2 ∧ lineEnd ending = ending.length := by
  obtain ⟨-, core, ending, hsplit, hcore, hlen⟩ := parse_iff.mp h
  refine ⟨core, ending, hsplit, hcore, ?_⟩
  rw [hsplit, List.length_append] at hlen
  omega

theorem head_of_whole (h : ∀ t ∈ ts, new.parse t.1 = .ok (some (t.2, t.1.length))) :
    (∀ b ∈ (ts.flatMap Prod.fst).head?, b = slash) ∧ (ts.flatMap Prod.fst = [] → ts = []) := by
  cases ts with
  | nil => exact ⟨fun b hb => (nomatch hb), fun _ => rfl⟩
  | cons t ts =>
    obtain ⟨core, ending, hsplit, hcore, -⟩ := core_of_whole (h t (List.mem_cons_self ..))
    obtain ⟨more, rfl⟩ := hcore.slash
    rw [List.flatMap_cons, hsplit]
    refine ⟨fun b hb => (Option.some.inj hb).symm, fun hnil => ?_⟩
    cases hnil

/-- Nothing but the rest of a line end has arrived. -/
theorem Stream.dropped (h : Stream gap ts chunks buf) (hle : buf.length ≤ gap.length) :
    Framing.search new.judge 0 none buf = .incomplete buf.length ∧ Idle chunks [] (ts.map Prod.snd) := by
  obtain ⟨more, rfl⟩ : ∃ more, gap = buf ++ more := by
    have hpre : buf <+: gap ++ ts.flatMap Prod.fst := ⟨_, h.bytes⟩
    obtain ⟨more, hmore⟩ := List.prefix_of_prefix_length_le hpre (List.prefix_append gap _) hle
    exact ⟨more, hmore.symm⟩
  have hnoise := h.noise
  rw [List.mem_append, not_or] at hnoise
  have hbytes : chunks.flatten = more ++ ts.flatMap Prod.fst := by
    have := h.bytes
    rwa [List.append_assoc, List.append_cancel_left_eq] at this
  constructor
  · have hsearch : Framing.search new.judge 0 none (buf ++ []) =
        Framing.search new.judge (0 + buf.length) none [] := search_gap hnoise.1 []
    rw [List.append_nil, Nat.zero_add] at hsearch
    exact hsearch
  · refine ⟨⟨more, ts, ⟨h.whole, hnoise.2, hbytes, .nil, h.texts⟩, rfl⟩, fun hchunks => ?_⟩
    rw [hchunks, List.flatten_nil] at hbytes
    rw [(head_of_whole h.whole).2 (List.append_eq_nil_iff.mp hbytes.symm).2]
    rfl

/-- A part of the next telegram has arrived. -/
theorem Stream.kept {core ending : Bytes} (h : Stream gap (t :: ts) chunks (gap ++ rest))
    (hsplit : t.1 = core ++ ending) (hcore : IsCore core t.2) (hpos : rest ≠ [])
    (hlt : rest.length < core.length) (hvalid : Text.Valid rest) :
    Framing.search new.judge 0 none (gap ++ rest) = .incomplete gap.length ∧
      Idle chunks rest ((t :: ts).map Prod.snd) := by
  have hbytes : rest ++ chunks.flatten = core ++ (ending ++ ts.flatMap Prod.fst) := by
    have := h.bytes
    rwa [List.append_assoc, List.append_cancel_left_eq, List.flatMap_cons, hsplit, List.append_assoc] at this
  have hrest : rest = core.take rest.length := by
    have hpre : rest <+: core ++ (ending ++ ts.flatMap Prod.fst) := ⟨_, hbytes⟩
    exact List.prefix_iff_eq_take.mp
      (List.prefix_of_prefix_length_le hpre (List.prefix_append core _) hlt.le)
  constructor
  · rw [search_gap h.noise, Nat.zero_add, hrest]
    refine search_part hcore (List.length_pos_iff.mpr hpos) hlt ?_
    rwa [← hrest]
  · refine ⟨⟨[], t :: ts, ⟨h.whole, List.not_mem_nil, ?_, hvalid, h.texts⟩, rfl⟩, fun hchunks => ?_⟩
    · rw [hbytes, List.nil_append, List.flatMap_cons, hsplit, List.append_assoc]
    · rw [hchunks, List.flatten_nil, List.append_nil] at hbytes
      have hlen := congrArg List.length hbytes
      rw [List.length_append] at hlen
      omega

/-- The next telegram has arrived. -/
theorem Stream.taken {core ending : Bytes} (h : Stream gap (t :: ts) chunks (gap ++ (core ++ rest)))
    (hsplit : t.1 = core ++ ending) (hcore : IsCore core t.2) (hend : lineEnd ending = ending.length)
    (hvalid : Text.Valid (core ++ rest)) :
    Framing.search new.judge 0 none (gap ++ (core ++ rest)) =
        .item t.2 (gap.length + (core.length + lineEnd rest)) ∧
      Busy chunks (rest.drop (lineEnd rest)) (ts.map Prod.snd) := by
  have hbytes : rest ++ chunks.flatten = ending ++ ts.flatMap Prod.fst := by
    have := h.bytes
    rwa [List.append_assoc, List.append_cancel_left_eq, List.flatMap_cons, hsplit, List.append_assoc,
      List.append_assoc, List.append_cancel_left_eq] at this
  have hwhole : ∀ t ∈ ts, new.parse t.1 = .ok (some (t.2, t.1.length)) := fun t ht =>
    h.whole t (List.mem_cons_of_mem _ ht)
  -- Of the line end at most all of it goes with the telegram.
  have hle : lineEnd rest ≤ ending.length := by
    have := lineEnd_append rest chunks.flatten
    rwa [hbytes, lineEnd_next hend (head_of_whole hwhole).1] at this
  constructor
  · rw [search_gap h.noise, search_core hcore hvalid, Nat.zero_add]
  · refine ⟨ending.drop (lineEnd rest), ts, ⟨hwhole, fun hmem => ?_, ?_, ?_, h.texts⟩, rfl⟩
    · have hmem := List.mem_of_mem_drop hmem
      obtain rfl | rfl | rfl := lineEnd_all hend <;> revert hmem <;> decide
    · rw [← List.drop_append_of_le_length (lineEnd_le_length rest), hbytes,
        List.drop_append_of_le_length hle]
    · exact valid_drop_lineEnd (hcore.valid_behind hvalid)

/-- Each answer of the reader keeps account of the telegrams to come. -/
theorem accounts : Framing.Accounts nextTelegram (·.requireChecksum = true) Busy Idle where
  turn := by
    rintro chunks buf telegrams reader ⟨gap, ts, h, rfl⟩ hreader
    obtain ⟨reader', hreader', hrun⟩ := nextTelegram_run hreader buf
    refine ⟨reader', hreader', ?_⟩
    obtain hle | hgt : buf.length ≤ gap.length ∨ gap.length < buf.length := by omega
    · obtain ⟨hsearch, hidle⟩ := h.dropped hle
      refine .inr ⟨buf.length, by rw [hrun, hsearch], ?_⟩
      rwa [List.drop_length]
    · obtain ⟨rest, rfl⟩ : ∃ rest, buf = gap ++ rest := by
        have hpre : gap <+: buf ++ chunks.flatten := ⟨_, h.bytes.symm⟩
        obtain ⟨rest, hrest⟩ := List.prefix_of_prefix_length_le hpre (List.prefix_append buf _) hgt.le
        exact ⟨rest, hrest.symm⟩
      have hpos : rest ≠ [] := by
        rintro rfl
        rw [List.append_nil] at hgt
        exact Nat.lt_irrefl _ hgt
      have hbytes : rest ++ chunks.flatten = ts.flatMap Prod.fst := by
        have := h.bytes
        rwa [List.append_assoc, List.append_cancel_left_eq] at this
      cases ts with
      | nil => exact absurd (List.append_eq_nil_iff.mp hbytes).1 hpos
      | cons t ts =>
        obtain ⟨core, ending, hsplit, hcore, hend⟩ := core_of_whole (h.whole t (List.mem_cons_self ..))
        have hvalid : Text.Valid rest := by
          obtain ⟨b, tail, rfl⟩ := List.exists_cons_of_ne_nil hpos
          have hslash : b = slash := by
            refine (head_of_whole h.whole).1 b ?_
            rw [← hbytes]
            rfl
          subst hslash
          exact (h.text.split (by decide)).2
        obtain hlt | hge := Nat.lt_or_ge rest.length core.length
        · obtain ⟨hsearch, hidle⟩ := h.kept hsplit hcore hpos hlt hvalid
          refine .inr ⟨gap.length, by rw [hrun, hsearch], ?_⟩
          rwa [List.drop_left]
        · obtain ⟨rest, rfl⟩ : ∃ more, rest = core ++ more := by
            rw [List.flatMap_cons, hsplit, List.append_assoc] at hbytes
            have hpre : core <+: rest ++ chunks.flatten := ⟨_, hbytes.symm⟩
            obtain ⟨more, hmore⟩ := List.prefix_of_prefix_length_le hpre (List.prefix_append rest _) hge
            exact ⟨more, hmore.symm⟩
          obtain ⟨hsearch, hbusy⟩ := h.taken hsplit hcore hend hvalid
          have hsix := hcore.six_le
          have hle := lineEnd_le_length rest
          refine .inl ⟨t.2, ts.map Prod.snd, _, by rw [hrun, hsearch], rfl, by omega, ?_, ?_⟩
          · rw [List.length_append, List.length_append]
            omega
          · rwa [List.drop_length_add_append, List.drop_length_add_append]
  arrival := by
    rintro chunk chunks rest telegrams ⟨⟨gap, ts, h, htelegrams⟩, -⟩
    refine ⟨gap, ts, ⟨h.whole, h.noise, ?_, h.text.append (h.texts chunk (List.mem_cons_self ..)),
      fun c hc => h.texts c (List.mem_cons_of_mem _ hc)⟩, htelegrams⟩
    rw [List.append_assoc, ← h.bytes, List.flatten_cons]
  done h := h.2 rfl

/-- A telegram that the reader accepts is found behind noise, whatever else is in the buffer, if and only
if all that follows it is text. Telegrams one after the other come out as they were sent, each once and
in order, where no chunk ends inside a character. -/
theorem telegrams_found (reader : TelegramReader) (hreader : reader.requireChecksum = true) :
    (∀ noise t rest telegram used, slash ∉ noise → new.parse t = .ok (some (telegram, used)) →
      ((∃ n ≤ 2, (nextTelegram (noise ++ t ++ rest) reader).1 =
        .ok (.item telegram (noise.length + used + n))) ↔ Text.Valid rest)) ∧
    ∀ (ts : List (Bytes × Telegram)) chunks, (∀ t ∈ ts, new.parse t.1 = .ok (some (t.2, t.1.length))) →
      chunks.flatten = ts.flatMap Prod.fst → (∀ chunk ∈ chunks, Text.Valid chunk) →
        ∃ rest reader', receive chunks reader = (.ok (ts.map Prod.snd, rest), reader') := by
  refine ⟨fun noise t rest telegram used hnoise h => ?_, fun ts chunks hts hchunks htexts => ?_⟩
  · simp only [nextTelegram_iff hreader]
    exact search_behind_noise hnoise h
  · have hstream : Stream [] ts chunks [] := ⟨hts, List.not_mem_nil, hchunks, .nil, htexts⟩
    refine accounts.feed ⟨⟨[], ts, hstream, rfl⟩, fun hnil => ?_⟩ hreader
    rw [hnil, List.flatten_nil] at hchunks
    rw [(head_of_whole hts).2 hchunks.symm]
    rfl

/-- A telegram with a character of two bytes. -/
def cubicMetres : Bytes := [0x2F, 0x41, 0x0A, 0x6D, 0xC2, 0xB3, 0x21, 0x41, 0x41, 0x34, 0x31]

theorem parse_cubicMetres :
    new.parse cubicMetres = .ok (some (⟨[0x41], [0x6D, 0xC2, 0xB3]⟩, cubicMetres.length)) := by
  decide +kernel

/-- A byte that is no text behind a telegram, and a chunk that ends inside a character, each lose it. -/
theorem telegram_lost : new.parse cubicMetres =
      .ok (some (⟨[0x41], [0x6D, 0xC2, 0xB3]⟩, cubicMetres.length)) ∧
    (nextTelegram (cubicMetres ++ [0xFF]) new).1 = .ok (.incomplete 12) ∧
    (receive [cubicMetres.take 5, cubicMetres.drop 5] new).1 = .ok ([], []) :=
  ⟨parse_cubicMetres, by decide +kernel, by decide +kernel⟩

theorem telegrams_found_sample :
    (∃ n ≤ 2, (nextTelegram ([0x21] ++ cubicMetres ++ [0x0D]) new).1 =
      .ok (.item ⟨[0x41], [0x6D, 0xC2, 0xB3]⟩ ([0x21].length + cubicMetres.length + n))) ∧
    ∃ rest reader', receive [cubicMetres.take 6, cubicMetres.drop 6] new =
      (.ok ([⟨[0x41], [0x6D, 0xC2, 0xB3]⟩], rest), reader') := by
  have h := telegrams_found new rfl
  refine ⟨(h.1 _ _ _ _ _ (by decide) parse_cubicMetres).mpr (by decide +kernel), ?_⟩
  refine h.2 [(cubicMetres, ⟨[0x41], [0x6D, 0xC2, 0xB3]⟩)] _ (fun t ht => ?_) rfl (by decide +kernel)
  obtain rfl := List.mem_singleton.mp ht
  exact parse_cubicMetres

end TelegramReader

end Dlms.P1
