import DlmsCosem.Lib.Prog
import Mathlib.Data.List.Infix
import Mathlib.Tactic.Cases

/-!
# Items in a stream

A receiver keeps what has arrived and asks a finder for the next item in it. A finder answers with an
item and how much it uses, or with how much can be dropped while it waits.

* `feed` is the loop of a receiver over chunks. Items sent one after the other come out as they were
  sent, wherever the chunks are cut, exactly where the finder waits for what has arrived of an item
  (`feed_iff`).
* A finder may use less than an item, or more: where each of its answers keeps account of what is still
  to come, the loop gives it all (`Accounts.feed`).
* `search` looks for an item at every place in turn. Where a place that is rejected stays rejected,
  whatever arrives, what it says can be dropped makes no difference (`search_append`).
-/

namespace Framing

variable {α β ε S : Type}

/-- What a finder answers. -/
inductive Found (β : Type)
  | item (b : β) (consumed : Nat)
  | incomplete (discard : Nat)
  deriving Repr, DecidableEq

/-- An answer about what stands `d` further on. -/
def Found.shift (d : Nat) : Found β → Found β
  | item b consumed => item b (d + consumed)
  | incomplete discard => incomplete (d + discard)

/-! ## The loop of a receiver -/

/-- Take items out of what has arrived, `fuel` answers at most, until the finder waits. -/
def drain (next : List α → Prog ε S (Found β)) : (fuel : Nat) → List α → Prog ε S (List β × List α)
  | 0, buf => pure ([], buf)
  | fuel + 1, buf => do
    match ← next buf with
    | .item b consumed =>
      let (bs, rest) ← drain next fuel (buf.drop consumed)
      return (b :: bs, rest)
    | .incomplete discard => return ([], buf.drop discard)

/-- Append each chunk to what is retained and take the items out. -/
def feed (next : List α → Prog ε S (Found β)) : List α → List (List α) → Prog ε S (List β × List α)
  | retained, [] => pure ([], retained)
  | retained, chunk :: chunks => do
    let buf := retained ++ chunk
    let (bs, rest) ← drain next (buf.length + 1) buf
    let (bs', rest') ← feed next rest chunks
    return (bs ++ bs', rest')

/-- The finder keeps everything and waits. -/
def Waits (next : List α → Prog ε S (Found β)) (buf : List α) : Prop :=
  (next buf).Always (.incomplete 0)

/-- The items that are whole in the first `n` elements of a list of items. -/
def arrived (enc : β → List α) : List β → Nat → List β
  | [], _ => []
  | b :: bs, n => if (enc b).length ≤ n then b :: arrived enc bs (n - (enc b).length) else []

/-- What the first `n` elements hold of the item after these. -/
def pending (enc : β → List α) : List β → Nat → List α
  | [], _ => []
  | b :: bs, n => if (enc b).length ≤ n then pending enc bs (n - (enc b).length) else (enc b).take n

section Cutting

variable {enc : β → List α} {bs : List β}

theorem take_flatMap (enc : β → List α) (bs : List β) (n : Nat) :
    (bs.flatMap enc).take n = (arrived enc bs n).flatMap enc ++ pending enc bs n := by
  induction bs generalizing n with
  | nil => simp [arrived, pending]
  | cons b bs ih =>
    rw [List.flatMap_cons, arrived, pending, List.take_append]
    split
    · rename_i h
      rw [List.take_of_length_le h, ih, List.flatMap_cons, List.append_assoc]
    · rename_i h
      rw [Nat.sub_eq_zero_of_le (by omega)]
      simp

theorem arrived_prefix (enc : β → List α) (bs : List β) {m n : Nat} (h : m ≤ n) :
    arrived enc bs m <+: arrived enc bs n := by
  induction bs generalizing m n with
  | nil => exact List.prefix_rfl
  | cons b bs ih =>
    rw [arrived, arrived]
    by_cases hm : (enc b).length ≤ m
    · rw [if_pos hm, if_pos (hm.trans h)]
      exact List.cons_prefix_cons.mpr ⟨rfl, ih (Nat.sub_le_sub_right h _)⟩
    · rw [if_neg hm]
      exact List.nil_prefix

/-- What is pending is a part of the first item that is not whole. -/
theorem pending_part (enc : β → List α) (bs : List β) (n : Nat) :
    (arrived enc bs n = bs ∧ pending enc bs n = []) ∨ ∃ b more k, bs = arrived enc bs n ++ b :: more ∧
      k < (enc b).length ∧ pending enc bs n = (enc b).take k := by
  induction bs generalizing n with
  | nil => exact .inl ⟨rfl, rfl⟩
  | cons b bs ih =>
    rw [arrived, pending]
    split
    · obtain ⟨harrived, hpending⟩ | ⟨b', more, k, harrived, hk, hpending⟩ := ih (n - (enc b).length)
      · exact .inl ⟨by rw [harrived], hpending⟩
      · exact .inr ⟨b', more, k, by rw [List.cons_append, ← harrived], hk, hpending⟩
    · rename_i h
      exact .inr ⟨b, bs, n, rfl, Nat.not_le.mp h, rfl⟩

theorem arrived_prefix_self (enc : β → List α) (bs : List β) (n : Nat) : arrived enc bs n <+: bs := by
  obtain ⟨h, -⟩ | ⟨b, more, k, h, -⟩ := pending_part enc bs n
  · rw [h]
  · exact ⟨b :: more, h.symm⟩

theorem arrived_all {n : Nat} (h : (bs.flatMap enc).length ≤ n) :
    arrived enc bs n = bs ∧ pending enc bs n = [] := by
  obtain hall | ⟨b, more, k, hbs, hk, hpending⟩ := pending_part enc bs n
  · exact hall
  · have htake := take_flatMap enc bs n
    rw [List.take_of_length_le h, hpending] at htake
    have hlen := congrArg List.length htake
    nth_rewrite 1 [hbs] at hlen
    simp only [List.flatMap_append, List.flatMap_cons, List.length_append, List.length_take] at hlen
    omega

/-- A chunk goes to what is pending: it may complete items, and what is left is pending. -/
theorem pending_append {n : Nat} {chunk more : List α} (h : (bs.flatMap enc).drop n = chunk ++ more) :
    ∃ items, arrived enc bs (n + chunk.length) = arrived enc bs n ++ items ∧
      pending enc bs n ++ chunk = items.flatMap enc ++ pending enc bs (n + chunk.length) := by
  obtain ⟨items, hitems⟩ := arrived_prefix enc bs (Nat.le_add_right n chunk.length)
  refine ⟨items, hitems.symm, (List.append_right_inj ((arrived enc bs n).flatMap enc)).mp ?_⟩
  calc (arrived enc bs n).flatMap enc ++ (pending enc bs n ++ chunk)
      = (bs.flatMap enc).take n ++ chunk := by rw [take_flatMap, List.append_assoc]
    _ = (bs.flatMap enc).take (n + chunk.length) := by rw [List.take_add, h, List.take_left]
    _ = (arrived enc bs n).flatMap enc ++ (items.flatMap enc ++ pending enc bs (n + chunk.length)) := by
        rw [take_flatMap, ← hitems, List.flatMap_append, List.append_assoc]

theorem pending_map {γ : Type} (g : γ → β) (cs : List γ) (n : Nat) :
    pending enc (cs.map g) n = pending (fun c => enc (g c)) cs n := by
  induction cs generalizing n with
  | nil => rfl
  | cons c cs ih => rw [List.map_cons, pending, pending, ih]

end Cutting

/-- `next` finds an item that stands at the start, whatever follows. Of a part of it, it waits for the
rest or takes the part for something else. -/
structure Finds (next : List α → Prog ε S (Found β)) (enc : β → List α) (b : β) : Prop where
  nonempty : enc b ≠ []
  whole : ∀ rest, (next (enc b ++ rest)).Always (.item b (enc b).length)
  part : ∀ k < (enc b).length, Waits next ((enc b).take k) ∨
    ∃ g used, g ≠ b ∧ (next ((enc b).take k)).Always (.item g used)

section Loop

variable {next : List α → Prog ε S (Found β)} {enc : β → List α} {bs : List β}

/-- Whole items are taken out one after the other. -/
theorem drain_items {items : List β} (hitems : ∀ b ∈ items, Finds next enc b) (fuel : Nat)
    (tail : List α) (s : S) : ∃ s', drain next (items.length + fuel) (items.flatMap enc ++ tail) s =
      (drain next fuel tail >>= fun r => pure (items ++ r.1, r.2)) s' := by
  induction items generalizing s with
  | nil =>
    refine ⟨s, ?_⟩
    rw [List.length_nil, Nat.zero_add, List.flatMap_nil, List.nil_append, Prog.bind_run]
    match drain next fuel tail s with
    | (.ok (found, rest), s') => rfl
    | (.error e, s') => rfl
  | cons b items ih =>
    have hb := hitems b (List.mem_cons_self ..)
    obtain ⟨s₁, hnext⟩ := hb.whole (items.flatMap enc ++ tail) s
    obtain ⟨s₂, hdrain⟩ := ih (fun b' h => hitems b' (List.mem_cons_of_mem _ h)) s₁
    refine ⟨s₂, ?_⟩
    rw [List.length_cons, Nat.add_right_comm, List.flatMap_cons, List.append_assoc, drain,
      Prog.bind_run_ok hnext]
    dsimp only
    rw [List.drop_left, Prog.bind_run, hdrain, Prog.bind_run, Prog.bind_run]
    match drain next fuel tail s₂ with
    | (.ok (found, rest), s') => rfl
    | (.error e, s') => rfl

/-- Where the finder waits for what is left behind whole items, these come out. -/
theorem drain_waits {items : List β} (hitems : ∀ b ∈ items, Finds next enc b) {tail : List α}
    (hwaits : Waits next tail) {fuel : Nat} (hfuel : items.length < fuel) :
    (drain next fuel (items.flatMap enc ++ tail)).Always (items, tail) := by
  intro s
  obtain ⟨more, rfl⟩ : ∃ more, fuel = items.length + (more + 1) := ⟨fuel - items.length - 1, by omega⟩
  obtain ⟨s₁, hrun⟩ := drain_items hitems (more + 1) tail s
  obtain ⟨s₂, hnext⟩ := hwaits s₁
  refine ⟨s₂, hrun.trans ?_⟩
  rw [drain, Prog.bind_run, Prog.bind_run_ok hnext]
  simp

/-- Items are not empty, so there are fewer of them than elements. -/
theorem length_le_flatMap {items : List β} (hitems : ∀ b ∈ items, enc b ≠ []) :
    items.length ≤ (items.flatMap enc).length := by
  induction items with
  | nil => exact Nat.zero_le _
  | cons b items ih =>
    have hb := List.length_pos_iff.mpr (hitems b (List.mem_cons_self ..))
    have := ih fun b' h => hitems b' (List.mem_cons_of_mem _ h)
    rw [List.flatMap_cons, List.length_append, List.length_cons]
    omega

/-- A chunk behind the first `n` elements. -/
theorem drain_chunk (hbs : ∀ b ∈ bs, Finds next enc b) {n : Nat} {chunk more : List α}
    (h : (bs.flatMap enc).drop n = chunk ++ more) :
    ∃ items, arrived enc bs (n + chunk.length) = arrived enc bs n ++ items ∧
      (∀ b ∈ items, Finds next enc b) ∧
      pending enc bs n ++ chunk = items.flatMap enc ++ pending enc bs (n + chunk.length) ∧
      items.length < (pending enc bs n ++ chunk).length + 1 := by
  obtain ⟨items, harrived, hpending⟩ := pending_append h
  have hmem : ∀ b ∈ items, Finds next enc b := by
    intro b hb
    refine hbs b ((arrived_prefix_self enc bs (n + chunk.length)).subset ?_)
    rw [harrived]
    exact List.mem_append_right _ hb
  refine ⟨items, harrived, hmem, hpending, ?_⟩
  have := length_le_flatMap fun b hb => (hmem b hb).nonempty
  rw [hpending, List.length_append]
  omega

/-- From `n` elements on, the loop gives the items that are not whole yet, where the finder waits at
every cut behind. -/
theorem feed_waits (hbs : ∀ b ∈ bs, Finds next enc b) {chunks : List (List α)} {n : Nat}
    (hchunks : (bs.flatMap enc).drop n = chunks.flatten)
    (hwaits : ∀ past, past <+: chunks → past ≠ [] →
      Waits next (pending enc bs (n + past.flatten.length))) :
    ∃ items, arrived enc bs n ++ items = bs ∧
      (feed next (pending enc bs n) chunks).Always (items, []) := by
  induction chunks generalizing n with
  | nil =>
    rw [List.flatten_nil, List.drop_eq_nil_iff] at hchunks
    obtain ⟨harrived, hpending⟩ := arrived_all hchunks
    rw [hpending]
    exact ⟨[], by rw [harrived, List.append_nil], .pure _⟩
  | cons chunk chunks ih =>
    rw [List.flatten_cons] at hchunks
    obtain ⟨items, harrived, hmem, hpending, hfuel⟩ := drain_chunk hbs hchunks
    have hmore : (bs.flatMap enc).drop (n + chunk.length) = chunks.flatten := by
      rw [← List.drop_drop, hchunks, List.drop_left]
    obtain ⟨items', hitems', hfeed⟩ := ih hmore fun past hpast _ => by
      have h := hwaits (chunk :: past) (List.cons_prefix_cons.mpr ⟨rfl, hpast⟩) (List.cons_ne_nil _ _)
      rwa [List.flatten_cons, List.length_append, ← Nat.add_assoc] at h
    have hwait := hwaits [chunk] (List.cons_prefix_cons.mpr ⟨rfl, List.nil_prefix⟩) (List.cons_ne_nil _ _)
    rw [List.flatten_singleton] at hwait
    refine ⟨items ++ items', by rw [← List.append_assoc, ← harrived, hitems'], ?_⟩
    have hdrain := drain_waits hmem hwait hfuel
    rw [← hpending] at hdrain
    exact hdrain.bind (hfeed.bind (.pure _))

/-- Where the loop gives the items, the finder waits at every cut: anything else that it takes for an
item comes out in the place of the one that is pending. -/
theorem waits_of_feed (hempty : Waits next []) (hbs : ∀ b ∈ bs, Finds next enc b)
    {chunks : List (List α)} {n : Nat} (hchunks : (bs.flatMap enc).drop n = chunks.flatten) {s s' : S}
    {items : List β} {rest : List α} (hitems : arrived enc bs n ++ items = bs)
    (hrun : feed next (pending enc bs n) chunks s = (.ok (items, rest), s')) :
    ∀ past, past <+: chunks → past ≠ [] → Waits next (pending enc bs (n + past.flatten.length)) := by
  induction chunks generalizing n s s' items with
  | nil =>
    intro past hpast hne
    exact absurd (List.prefix_nil.mp hpast) hne
  | cons chunk chunks ih =>
    rw [List.flatten_cons] at hchunks
    obtain ⟨whole, harrived, hmem, hpending, hfuel⟩ := drain_chunk hbs hchunks
    have hmore : (bs.flatMap enc).drop (n + chunk.length) = chunks.flatten := by
      rw [← List.drop_drop, hchunks, List.drop_left]
    obtain ⟨⟨found, left⟩, s₁, hdrain, hrun⟩ := Prog.bind_ok hrun
    obtain ⟨⟨items', rest'⟩, s₂, hfeed, hrun⟩ := Prog.bind_ok hrun
    obtain ⟨rfl, rfl⟩ : found ++ items' = items ∧ rest' = rest := by simpa using (Prod.mk.inj hrun).1
    have hwait : Waits next (pending enc bs (n + chunk.length)) := by
      obtain ⟨-, hnil⟩ | ⟨b, after, k, hbs', hk, hpart⟩ := pending_part enc bs (n + chunk.length)
      · rwa [hnil]
      have hb := hbs b (by rw [hbs']; exact List.mem_append_right _ (List.mem_cons_self ..))
      rw [hpart]
      obtain hwait | ⟨g, used, hg, hnext⟩ := hb.part k hk
      · exact hwait
      -- What is found there comes out where `b` should.
      obtain ⟨fuel, hsplit⟩ : ∃ fuel, (pending enc bs n ++ chunk).length + 1 = whole.length + (fuel + 1) :=
        ⟨(pending enc bs n ++ chunk).length - whole.length, by omega⟩
      obtain ⟨s₃, hwhole⟩ := drain_items hmem (fuel + 1) (pending enc bs (n + chunk.length)) s
      rw [hsplit, hpending, hwhole] at hdrain
      obtain ⟨⟨behind, left'⟩, s₄, hbehind, hfound⟩ := Prog.bind_ok hdrain
      obtain ⟨s₅, hnext⟩ := hnext s₃
      rw [hpart, drain, Prog.bind_run_ok hnext] at hbehind
      obtain ⟨⟨later, left''⟩, s₆, -, hlater⟩ := Prog.bind_ok hbehind
      obtain ⟨rfl, -⟩ : g :: later = behind ∧ left'' = left' := by simpa using (Prod.mk.inj hlater).1
      obtain ⟨rfl, -⟩ : whole ++ g :: later = found ∧ left' = left := by simpa using (Prod.mk.inj hfound).1
      have hplace : arrived enc bs (n + chunk.length) ++ g :: (later ++ items') =
          arrived enc bs (n + chunk.length) ++ b :: after := by
        rw [← hbs', harrived]
        simpa using hitems
      have hhead := List.append_cancel_left hplace
      rw [List.cons.injEq] at hhead
      exact absurd hhead.1 hg
    have hstep := drain_waits hmem hwait hfuel
    rw [← hpending] at hstep
    obtain ⟨rfl, rfl⟩ : whole = found ∧ pending enc bs (n + chunk.length) = left := by
      simpa using hstep.unique hdrain
    have hrest := ih hmore (by rw [harrived, List.append_assoc, hitems]) hfeed
    intro past hpast hne
    match past with
    | first :: past =>
      obtain ⟨rfl, hlater⟩ := List.cons_prefix_cons.mp hpast
      rw [List.flatten_cons, List.length_append, ← Nat.add_assoc]
      by_cases hnil : past = []
      · rw [hnil, List.flatten_nil, List.length_nil, Nat.add_zero]
        exact hwait
      · exact hrest past hlater hnil

/-- However a stream of items is cut, the loop gives these items, each once and in order, exactly where
at every cut the finder waits for the item that is pending. Nothing is retained then. -/
theorem feed_iff (hempty : Waits next []) (hbs : ∀ b ∈ bs, Finds next enc b) {chunks : List (List α)}
    (hchunks : chunks.flatten = bs.flatMap enc) (s : S) :
    ((∃ rest s', feed next [] chunks s = (.ok (bs, rest), s')) ↔
      ∀ past, past <+: chunks → Waits next (pending enc bs past.flatten.length)) ∧
    ∀ rest s', feed next [] chunks s = (.ok (bs, rest), s') → rest = [] := by
  have hstart : pending enc bs 0 = [] ∧ arrived enc bs 0 = [] := by
    cases bs with
    | nil => exact ⟨rfl, rfl⟩
    | cons b bs =>
      have hb := List.length_pos_iff.mpr (hbs b (List.mem_cons_self ..)).nonempty
      rw [pending, arrived, if_neg (by omega), if_neg (by omega)]
      exact ⟨rfl, rfl⟩
  have hdrop : (bs.flatMap enc).drop 0 = chunks.flatten := hchunks.symm
  have hto : ∀ rest s', feed next [] chunks s = (.ok (bs, rest), s') →
      ∀ past, past <+: chunks → past ≠ [] → Waits next (pending enc bs (0 + past.flatten.length)) := by
    intro rest s' hrun
    rw [← hstart.1] at hrun
    exact waits_of_feed hempty hbs hdrop (by rw [hstart.2, List.nil_append]) hrun
  have hfrom : (∀ past, past <+: chunks → past ≠ [] →
      Waits next (pending enc bs (0 + past.flatten.length))) →
      (feed next [] chunks).Always (bs, []) := by
    intro hwaits
    obtain ⟨items, hitems, hfeed⟩ := feed_waits hbs hdrop hwaits
    rw [hstart.1] at hfeed
    rwa [hstart.2, List.nil_append, ← hitems] at *
  refine ⟨⟨?_, ?_⟩, ?_⟩
  · rintro ⟨rest, s', hrun⟩ past hpast
    by_cases hne : past = []
    · rw [hne, List.flatten_nil, List.length_nil, hstart.1]
      exact hempty
    · have h := hto rest s' hrun past hpast hne
      rwa [Nat.zero_add] at h
  · intro hwaits
    obtain ⟨s', hrun⟩ := hfrom (fun past hpast _ => by rw [Nat.zero_add]; exact hwaits past hpast) s
    exact ⟨[], s', hrun⟩
  · intro rest s' hrun
    have h := (hfrom (hto rest s' hrun)).unique hrun
    exact (Prod.mk.inj h).2.symm

end Loop

/-! ## The account of a receiver -/

/-- What is retained and the chunks to arrive account for the items to come: `busy` before an answer of
the finder, `idle` when it waits. `I` is what the finder keeps of its own state. -/
structure Accounts (next : List α → Prog ε S (Found β)) (I : S → Prop)
    (busy idle : List (List α) → List α → List β → Prop) : Prop where
  turn : ∀ {chunks buf bs s}, busy chunks buf bs → I s → ∃ s', I s' ∧
    ((∃ b bs' n, next buf s = (.ok (.item b n), s') ∧ bs = b :: bs' ∧ 0 < n ∧ n ≤ buf.length ∧
      busy chunks (buf.drop n) bs') ∨
    ∃ d, next buf s = (.ok (.incomplete d), s') ∧ idle chunks (buf.drop d) bs)
  arrival : ∀ {chunk chunks rest bs}, idle (chunk :: chunks) rest bs → busy chunks (rest ++ chunk) bs
  done : ∀ {rest bs}, idle [] rest bs → bs = []

namespace Accounts

variable {next : List α → Prog ε S (Found β)} {I : S → Prop}
  {busy idle : List (List α) → List α → List β → Prop} {chunks : List (List α)} {buf : List α}
  {bs : List β} {s : S}

theorem drain (h : Accounts next I busy idle) (hbusy : busy chunks buf bs) (hs : I s) {fuel : Nat}
    (hfuel : buf.length < fuel) : ∃ found rest bs' s', I s' ∧
      drain next fuel buf s = (.ok (found, rest), s') ∧ bs = found ++ bs' ∧ idle chunks rest bs' := by
  induction fuel generalizing buf bs s with
  | zero => exact absurd hfuel (Nat.not_lt_zero _)
  | succ fuel ih =>
    obtain ⟨s₁, hs₁, ⟨b, bs', n, hnext, rfl, hn, hle, hbusy'⟩ | ⟨d, hnext, hidle⟩⟩ := h.turn hbusy hs
    · obtain ⟨found, rest, bs'', s₂, hs₂, hdrain, rfl, hidle⟩ :=
        ih hbusy' hs₁ (by rw [List.length_drop]; omega)
      refine ⟨b :: found, rest, bs'', s₂, hs₂, ?_, rfl, hidle⟩
      rw [Framing.drain, Prog.bind_run_ok hnext]
      exact Prog.bind_run_ok hdrain
    · refine ⟨[], buf.drop d, bs, s₁, hs₁, ?_, rfl, hidle⟩
      rw [Framing.drain, Prog.bind_run_ok hnext]
      rfl

/-- The loop gives all the items to come, each once and in order. -/
theorem feed (h : Accounts next I busy idle) (hidle : idle chunks buf bs) (hs : I s) :
    ∃ rest s', feed next buf chunks s = (.ok (bs, rest), s') := by
  induction chunks generalizing buf bs s with
  | nil =>
    obtain rfl := h.done hidle
    exact ⟨buf, s, rfl⟩
  | cons chunk chunks ih =>
    obtain ⟨found, rest, bs', s₁, hs₁, hdrain, rfl, hidle'⟩ :=
      h.drain (h.arrival hidle) hs (Nat.lt_succ_self _)
    obtain ⟨rest', s₂, hfeed⟩ := ih hidle' hs₁
    refine ⟨rest', s₂, ?_⟩
    rw [Framing.feed, Prog.bind_run_ok hdrain]
    exact Prog.bind_run_ok hfeed

end Accounts

/-! ## A search at every place -/

/-- What stands at a place: an item and how much it uses, what may still become one, or neither. -/
inductive Verdict (β : Type)
  | item (b : β) (used : Nat)
  | wait
  | reject

/-- The item at the first place that has one. Where none has, everything in front of the first place
that may still get one can be dropped. -/
def search (judge : List α → Verdict β) (start : Nat) (firstWait : Option Nat) : List α → Found β
  | [] => .incomplete (firstWait.getD start)
  | x :: xs =>
    match judge (x :: xs) with
    | .item b used => .item b (start + used)
    | .wait => search judge (start + 1) (some (firstWait.getD start)) xs
    | .reject => search judge (start + 1) firstWait xs

section Search

variable {judge : List α → Verdict β} {xs ys : List α}

theorem search_cons_reject {x : α} (h : judge (x :: xs) = .reject) (start : Nat)
    (firstWait : Option Nat) :
    search judge start firstWait (x :: xs) = search judge (start + 1) firstWait xs := by
  rw [search, h]

/-- A search that starts further on finds the same, further on. -/
theorem search_shift (d start : Nat) (firstWait : Option Nat) (xs : List α) :
    search judge (d + start) (firstWait.map (d + ·)) xs = (search judge start firstWait xs).shift d := by
  induction xs generalizing start firstWait with
  | nil => cases firstWait <;> rfl
  | cons x xs ih =>
    rw [search, search]
    cases judge (x :: xs) with
    | item b used => simp [Found.shift, Nat.add_assoc]
    | wait =>
      have h := ih (start + 1) (some (firstWait.getD start))
      rw [← h]
      cases firstWait <;> rfl
    | reject => exact ih (start + 1) firstWait

/-- The search gives the item at the leftmost place that has one. -/
theorem search_item {start n : Nat} {firstWait : Option Nat} {b : β}
    (h : search judge start firstWait xs = .item b n) : ∃ i used, i < xs.length ∧
      judge (xs.drop i) = .item b used ∧ n = start + i + used ∧
      ∀ j < i, ∀ g used', judge (xs.drop j) ≠ .item g used' := by
  induction xs generalizing start firstWait with
  | nil => cases h
  | cons x xs ih =>
    rw [search] at h
    have hlater : (∀ g used, judge (x :: xs) ≠ .item g used) → ∀ {firstWait'},
        search judge (start + 1) firstWait' xs = .item b n → ∃ i used, i < (x :: xs).length ∧
          judge ((x :: xs).drop i) = .item b used ∧ n = start + i + used ∧
          ∀ j < i, ∀ g used', judge ((x :: xs).drop j) ≠ .item g used' := by
      intro hx firstWait' h
      obtain ⟨i, used, hi, hitem, hn, hleft⟩ := ih h
      refine ⟨i + 1, used, by simpa using hi, hitem, by omega, fun j hj => ?_⟩
      cases j with
      | zero => exact hx
      | succ j => exact hleft j (Nat.lt_of_succ_lt_succ hj)
    cases hx : judge (x :: xs) with
    | item b' used =>
      rw [hx] at h
      obtain ⟨rfl, rfl⟩ := Found.item.inj h
      exact ⟨0, used, Nat.succ_pos _, hx, rfl, fun j hj => absurd hj (Nat.not_lt_zero j)⟩
    | wait =>
      rw [hx] at h
      exact hlater (by rw [hx]; exact nofun) h
    | reject =>
      rw [hx] at h
      exact hlater (by rw [hx]; exact nofun) h

/-- What is kept while it waits begins at the leftmost place that may still get an item, and no place
has one. -/
theorem search_incomplete {start d : Nat} (h : search judge start none xs = .incomplete d) :
    ∃ k, d = start + k ∧ k ≤ xs.length ∧ (∀ j < k, judge (xs.drop j) = .reject) ∧
      (k < xs.length → judge (xs.drop k) = .wait) ∧
      ∀ i < xs.length, ∀ g used, judge (xs.drop i) ≠ .item g used := by
  -- Behind the first place that waits only items matter.
  have hbehind : ∀ {ys : List α} {start w : Nat}, search judge start (some w) ys = .incomplete d →
      d = w ∧ ∀ i < ys.length, ∀ g used, judge (ys.drop i) ≠ .item g used := by
    intro ys
    induction ys with
    | nil =>
      intro start w h
      exact ⟨(Found.incomplete.inj h).symm, fun i hi => absurd hi (Nat.not_lt_zero i)⟩
    | cons y ys ih =>
      intro start w h
      rw [search] at h
      cases hy : judge (y :: ys) with
      | item g used =>
        rw [hy] at h
        cases h
      | wait | reject =>
        rw [hy] at h
        obtain ⟨hd, hitems⟩ := ih h
        refine ⟨hd, fun i hi g used => ?_⟩
        cases i with
        | zero =>
          rw [List.drop_zero, hy]
          exact nofun
        | succ i => exact hitems i (Nat.lt_of_succ_lt_succ hi) g used
  induction xs generalizing start with
  | nil => exact ⟨0, (Found.incomplete.inj h).symm, le_rfl, fun j hj => absurd hj (Nat.not_lt_zero j),
      fun hk => absurd hk (Nat.not_lt_zero 0), fun i hi => absurd hi (Nat.not_lt_zero i)⟩
  | cons x xs ih =>
    rw [search] at h
    cases hx : judge (x :: xs) with
    | item g used =>
      rw [hx] at h
      cases h
    | wait =>
      rw [hx] at h
      obtain ⟨hd, hitems⟩ := hbehind h
      refine ⟨0, hd, Nat.zero_le _, fun j hj => absurd hj (Nat.not_lt_zero j), fun _ => hx, ?_⟩
      intro i hi g used
      cases i with
      | zero =>
        rw [List.drop_zero, hx]
        exact nofun
      | succ i => exact hitems i (Nat.lt_of_succ_lt_succ hi) g used
    | reject =>
      rw [hx] at h
      obtain ⟨k, hd, hk, hreject, hwait, hitems⟩ := ih h
      refine ⟨k + 1, by omega, by simpa using hk, fun j hj => ?_, fun hlt => hwait (by simpa using hlt),
        fun i hi g used => ?_⟩
      · cases j with
        | zero => exact hx
        | succ j => exact hreject j (Nat.lt_of_succ_lt_succ hj)
      · cases i with
        | zero =>
          rw [List.drop_zero, hx]
          exact nofun
        | succ i => exact hitems i (Nat.lt_of_succ_lt_succ hi) g used

/-- Rejected places are passed over. -/
theorem search_rejected {pre : List α} (h : ∀ j < pre.length, judge ((pre ++ ys).drop j) = .reject)
    (start : Nat) (firstWait : Option Nat) :
    search judge start firstWait (pre ++ ys) = search judge (start + pre.length) firstWait ys := by
  induction pre generalizing start with
  | nil => rfl
  | cons x pre ih =>
    have hx : judge (x :: (pre ++ ys)) = .reject := h 0 (Nat.succ_pos _)
    rw [List.cons_append, search_cons_reject hx, ih fun j hj => h (j + 1) (Nat.succ_lt_succ hj),
      List.length_cons, Nat.add_right_comm, Nat.add_assoc]

/-- Where nothing is found, everything from a place that waits on is kept. -/
theorem search_waits {start : Nat} (hwait : judge xs = .wait)
    (hnone : ∀ i < xs.length, ∀ g used, judge (xs.drop i) ≠ .item g used) :
    search judge start none xs = .incomplete start := by
  cases hfound : search judge start none xs with
  | item b n =>
    obtain ⟨i, used, hi, hitem, -⟩ := search_item hfound
    exact absurd hitem (hnone i hi b used)
  | incomplete d =>
    obtain ⟨k, rfl, -, hreject, -⟩ := search_incomplete hfound
    cases k with
    | zero => rfl
    | succ k =>
      have hzero := hreject 0 (Nat.succ_pos k)
      rw [List.drop_zero, hwait] at hzero
      cases hzero

/-- Where a place that is rejected stays rejected, what the search says can be dropped makes no
difference to what is found later. -/
theorem search_append (hfinal : ∀ x xs ys, judge (x :: xs) = .reject → judge (x :: xs ++ ys) = .reject)
    {d : Nat} (h : search judge 0 none xs = .incomplete d) (ys : List α) :
    search judge 0 none (xs ++ ys) = (search judge 0 none (xs.drop d ++ ys)).shift d := by
  obtain ⟨k, hd, hk, hreject, -, -⟩ := search_incomplete h
  obtain rfl : d = k := by omega
  have hpre : (xs.take d).length = d := List.length_take_of_le hk
  have hall : ∀ j < (xs.take d).length, judge ((xs.take d ++ (xs.drop d ++ ys)).drop j) = .reject := by
    intro j hj
    rw [hpre] at hj
    rw [← List.append_assoc, List.take_append_drop, List.drop_append_of_le_length (by omega)]
    have hj' := hreject j hj
    match hsplit : xs.drop j with
    | [] =>
      rw [List.drop_eq_nil_iff] at hsplit
      omega
    | x :: rest =>
      rw [hsplit] at hj'
      exact hfinal x rest ys hj'
  have hskip := search_rejected hall 0 none
  rw [← List.append_assoc, List.take_append_drop, hpre, Nat.add_comm] at hskip
  rw [hskip, ← search_shift]
  rfl

end Search

end Framing
