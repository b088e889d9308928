import DlmsCosem.Axdr.Constructed
import DlmsCosem.Client.PushReplay
import DlmsCosem.Client.PushSoundness
import DlmsCosem.Security.Delivery
import DlmsCosem.Server.Push

/-!
# A push and its listener

Sender and listener each make the policy of a push out of the one they were given: the sender puts it under
the global key (`SecurityPolicy.global`), and the listener under the key set that the tag of the frame
stands for. They meet in all policies but those of the broadcast key set, which both of them lose.
`PushLink` is what they keep to between pushes, and `pushes_delivered` what comes of it.
-/

namespace Dlms

/-! ## A notification is read back -/

namespace DataNotification

variable {q : DataNotification}

theorem encode_sized (h : q.body.encode.fault = none) :
    q.encode.Sized (4 + (if q.dateTime.val.isSome then 13 else 1) + q.body.encode.size) :=
  ((Emit.Sized.u32 _).append q.dateTime.encode_sized).append ⟨h, rfl⟩

theorem body_fault (h : q.encode.fault = none) : q.body.encode.fault = none :=
  (Emit.append_fault_eq_none.mp h).2

/-- What is read has the number, the time and the value that was written. -/
theorem takes (h : q.body.ComesBack) : Takes decode q.encode.data fun q' =>
    q.longInvokeId = q'.longInvokeId ∧ q.dateTime = q'.dateTime ∧ q.body.Alike q'.body := by
  have htwo := (Emit.Sized.u32 q.longInvokeId.val).append q.dateTime.encode_sized
  have hdata : q.encode.data = (Emit.u32 q.longInvokeId.val).data ++ (q.dateTime.encode.data ++
      q.body.encode.data) := by
    unfold encode
    rw [Emit.append_data htwo.fault, Emit.append_data (Emit.Sized.u32 _).fault, List.append_assoc]
  rw [hdata]
  refine (Takes.u32 _).bind fun id hid => q.dateTime.takes.bind fun time htime => h.takes.map fun body hbody => ?_
  subst hid htime
  exact ⟨rfl, rfl, hbody⟩

end DataNotification

namespace PushSender

variable {π : Type} {N : Nat} {s : PushSender π N} {capturedAt : Option DateTime} {body : Data}

theorem plain_sized (s : PushSender π N) (capturedAt : Option DateTime) (h : body.encode.fault = none) :
    (s.plain capturedAt body).Sized (1 + (4 + (if capturedAt.isSome then 13 else 1) + body.encode.size)) :=
  (Emit.Sized.u8 0x0F).append (DataNotification.encode_sized h)

theorem plain_size (h : (s.plain capturedAt body).fault = none) :
    (s.plain capturedAt body).data.length ≤ 18 + body.encode.size := by
  have hbody : body.encode.fault = none := DataNotification.body_fault (Emit.append_fault_eq_none.mp h).2
  have hsize : (s.plain capturedAt body).data.length = _ := (s.plain_sized capturedAt hbody).size
  rw [hsize]
  split <;> omega

/-- The tag, and the notification under it. -/
theorem plain_data (s : PushSender π N) (capturedAt : Option DateTime) (body : Data) :
    (s.plain capturedAt body).data = 0x0F :: (s.notification capturedAt body).encode.data := rfl

/-- The number of a push does not look like a tag. -/
theorem notification_head :
    (s.notification capturedAt body).encode.data.head? = some 0 := by
  have htwo := (Emit.Sized.u32 (s.notification capturedAt body).longInvokeId.val).append
    (s.notification capturedAt body).dateTime.encode_sized
  have hlt : (s.notification capturedAt body).longInvokeId.val.toNat < 256 ^ 3 := by
    change (_ &&& 0x00FFFFFF : UInt32).toNat < _
    rw [UInt32.toNat_and]
    exact Nat.lt_of_le_of_lt Nat.and_le_right (by decide)
  unfold DataNotification.encode
  rw [Emit.append_data htwo.fault, Emit.append_data (Emit.Sized.u32 _).fault, Emit.u32, Emit.bytes_data]
  change some (UInt8.ofNat ((s.notification capturedAt body).longInvokeId.val.toNat / 256 ^ 3)) = _
  rw [Nat.div_eq_of_lt hlt]
  rfl

end PushSender

/-! ## A frame comes off at the listener -/

namespace NotificationListener

variable {σ π : Type} {C : CryptoProvider π} {L : PushKeyLookup σ π} {required : SecurityPolicy}
variable {sender : Option SystemTitle} {size : Nat}

theorem open_bare (hnone : required.isNone = true) {rest : Bytes} (hsize : rest.length ≤ size) (s : σ) :
    open' C L required (0x0F :: rest) sender size s = (.ok ⟨none, none, rest⟩, s) := by
  obtain ⟨_, r, hskip, -⟩ := Takes.skip_one 0x0F (Reader.new (0x0F :: rest)) rest rfl
  have hplain : takePlain required rest size = .ok rest := by
    unfold takePlain
    rw [hnone, if_neg (by simp), if_neg (by omega)]
  have hunwrap : (Read.skip 1 >>= fun _ => unwrap sender .dataNotification) (Reader.new (0x0F :: rest)) =
      (.ok (none, none), r) := Prog.bind_run_ok hskip
  unfold open'
  rw [List.headD_cons, show ApduTag.fromU8 0x0F = some .dataNotification from rfl]
  dsimp only
  rw [hunwrap, Prog.ofExcept_ok, Prog.pure_bind_run]
  dsimp only
  rw [List.drop_one, List.tail_cons, hplain]
  rfl

/-- What stands behind the tag of a general wrapper. -/
theorem takes_general {title : SystemTitle} {c : CipheredService} (h : 5 + c.payload.length < 2 ^ 32) :
    Takes (Read.skip 1 >>= fun _ => unwrap sender .generalGloCiphering)
      (0xDB :: ((Emit.lengthPrefixed title.bytes).data ++ c.encode.data)) ((some title, some c) = ·) := by
  have htitle : SystemTitle.fromSlice title.bytes = .ok title := dif_pos title.length_eq
  have hall : Takes (Read.skip 1 >>= fun _ => unwrap sender .generalGloCiphering)
      ([0xDB] ++ ((Emit.lengthPrefixed title.bytes).data ++ c.encode.data ++ []))
      ((some title, some c) = ·) := by
    refine (Takes.skip_one _).bind fun _ _ => (GeneralGloCiphering.takes h).bind fun g hg => ?_
    subst hg
    rw [htitle]
    exact .pure rfl
  rwa [List.append_nil, List.singleton_append] at hall

theorem open_general {title : SystemTitle} {c : CipheredService} (h : 5 + c.payload.length < 2 ^ 32) (s : σ) :
    open' C L required (0xDB :: ((Emit.lengthPrefixed title.bytes).data ++ c.encode.data)) sender size s =
      (decipher C L required .generalGloCiphering (some title) c size >>= fun plain =>
        pure ⟨some title, some c.invocationCounter, plain⟩) s := by
  have htakes : Takes (Read.skip 1 >>= fun _ => unwrap sender .generalGloCiphering)
    (0xDB :: ((Emit.lengthPrefixed title.bytes).data ++ c.encode.data)) ((some title, some c) = ·) :=
    takes_general h
  obtain ⟨_, r, hunwrap, rfl, -⟩ := htakes (Reader.new _) [] (List.append_nil _).symm
  unfold open'
  rw [List.headD_cons, show ApduTag.fromU8 0xDB = some .generalGloCiphering from rfl]
  dsimp only
  rw [hunwrap, Prog.ofExcept_ok, Prog.pure_bind_run]

/-- Under the global key the control byte says nothing of a key set, as any policy but one demands. -/
theorem received_global (hset : required.keySet ≠ .globalBroadcast) :
    required.checkReceived required.global.control = .ok () := by
  obtain ⟨suite, a, e, keySet⟩ := required
  cases keySet with
  | globalBroadcast => exact absurd rfl hset
  | globalUnicast | dedicated => cases suite <;> cases a <;> cases e <;> rfl

/-- What was protected under the global key is opened, where its number is fresh and there is room. -/
theorem decipher_protects {p : Protector π} {keys : π} {title : SystemTitle} {value : UInt32}
    {key plain payload : Bytes} {w : ReplayWindow} {s : σ} (hp : required.isNone = false)
    (hset : required.keySet ≠ .globalBroadcast) (hkeys : keysOf C L title s = .ok (keys, key))
    (hw : L.window s title = some w) (hcheck : w.check value = .ok ())
    (hi : C.Inverts p.provider keys required.global.keyUsage required.global.suite)
    (hprotects : Protector.Protects C p required.global (nonce title value) key plain payload)
    (hsize : payload.length ≤ size) :
    decipher C L required .generalGloCiphering (some title) ⟨required.global.control, value, payload⟩ size s =
      (.ok plain, L.setWindow s title (w.record value)) := by
  have hwindow : windowOf L title s = .ok w := by
    unfold windowOf
    rw [hw]
  have haccept : w.accept value = .ok (w.record value) := by
    unfold ReplayWindow.accept
    rw [hcheck]
    rfl
  obtain ⟨buf, hopen, -⟩ := Protector.unprotectAs_protects (q := ⟨keys, required.global⟩) hi hp hprotects
  unfold decipher
  dsimp only
  rw [received_global hset, Prog.ofExcept_ok, Prog.pure_bind_run, Prog.gets_bind_run]
  dsimp only [id]
  rw [hkeys, Prog.ofExcept_ok, Prog.pure_bind_run]
  dsimp only
  rw [Prog.gets_bind_run]
  dsimp only [id]
  rw [hwindow, Prog.ofExcept_ok, Prog.pure_bind_run, hcheck, Prog.ofExcept_ok, Prog.pure_bind_run,
    if_neg (by omega), required.global.control_suite, SecuritySuite.fromId_id, Prog.ofExcept_ok,
    Prog.pure_bind_run]
  have hpolicy : openingPolicy required .generalGloCiphering required.global.suite = required.global := rfl
  rw [hpolicy, hopen, Prog.ofExcept_ok, Prog.pure_bind_run, Prog.gets_bind_run]
  dsimp only [id]
  rw [hwindow, Prog.ofExcept_ok, Prog.pure_bind_run, haccept, Prog.ofExcept_ok, Prog.pure_bind_run,
    Prog.modify_bind_run]
  rfl

theorem peekU8_cons (b : UInt8) (tail : Bytes) : (Read.peekU8 (Reader.new (b :: tail))).1 = .ok b := by
  have hpos : (Reader.new (b :: tail)).pos < (Reader.new (b :: tail)).buf.length := Nat.succ_pos _
  unfold Read.peekU8
  rw [dif_pos hpos]
  rfl

/-- A notification without its tag is read where its number does not look like one. -/
theorem readNotification_bare {q : DataNotification} (hbody : q.body.ComesBack)
    (hhead : q.encode.data.head? = some 0) : ∃ q', readNotification q.encode.data = .ok q' ∧
      q.dateTime = q'.dateTime ∧ q.body.Alike q'.body := by
  obtain ⟨q', r, hr, ⟨-, htime, halike⟩, -⟩ := DataNotification.takes hbody (Reader.new q.encode.data) []
    (List.append_nil _).symm
  refine ⟨q', ?_, htime, halike⟩
  obtain ⟨tail, hcons⟩ := List.head?_eq_some_iff.mp hhead
  unfold readNotification
  rw [hr, hcons, peekU8_cons]
  rfl

/-- A notification with its tag is read. -/
theorem readNotification_tagged {q : DataNotification} (hbody : q.body.ComesBack) :
    ∃ q', readNotification (0x0F :: q.encode.data) = .ok q' ∧ q.dateTime = q'.dateTime ∧
      q.body.Alike q'.body := by
  have htakes : Takes Apdu.decode ([0x0F] ++ q.encode.data) fun a => ∃ q', a = .dataNotification q' ∧
      q.dateTime = q'.dateTime ∧ q.body.Alike q'.body := by
    have hservice : Takes (Read.skip 1 >>= fun _ => Apdu.decodePlain .dataNotification)
        ([0x0F] ++ q.encode.data) fun a => ∃ q', a = .dataNotification q' ∧
          q.dateTime = q'.dateTime ∧ q.body.Alike q'.body :=
      (Takes.skip_one _).bind fun _ _ => (DataNotification.takes hbody).map fun q' hq => ⟨q', rfl, hq.2⟩
    intro r tail hr
    have hrest : r.rest = ApduTag.dataNotification.asU8 :: (q.encode.data ++ tail) := hr
    rw [Apdu.decode_service ⟨by decide, by decide⟩ hrest]
    exact hservice r tail hr
  obtain ⟨a, ha, q', rfl, htime, halike⟩ := htakes.fromBytes
  have ha : Apdu.fromBytes (0x0F :: q.encode.data) = .ok (.dataNotification q') := ha
  refine ⟨q', ?_, htime, halike⟩
  unfold readNotification
  rw [peekU8_cons, ha]
  rfl

end NotificationListener

/-! ## Lengths under protection -/

section Lengths

variable {π : Type} {C : CryptoProvider π} {q : Protector π} {ctx : Outgoing} {plain frame : Bytes} {room : Nat}

/-- What is protected has a length that a header can say. -/
theorem protectApdu_short (hp : ctx.policy.isNone = false)
    (h : protectApdu C q ctx plain room = .ok frame) (hlt : 5 + ctx.payloadLen plain < 2 ^ 64) :
    5 + ctx.payloadLen plain < 2 ^ 32 := by
  unfold protectApdu at h
  rw [hp, if_neg Bool.false_ne_true] at h
  split at h
  · cases h
  · split at h
    · cases h
    · obtain ⟨header, hheader, -⟩ := Result.bind_ok.mp h
      unfold Outgoing.header at hheader
      obtain ⟨start, -, hheader⟩ := Result.bind_ok.mp hheader
      obtain ⟨hf, -, -⟩ := SliceWriter.encodeInto_ok hheader
      obtain ⟨-, hrest⟩ := Emit.append_fault_eq_none.mp hf
      obtain ⟨hrest, -⟩ := Emit.append_fault_eq_none.mp hrest
      exact Emit.length_lt hrest hlt

/-- A header and the payload. -/
theorem protectApdu_le (hp : ctx.policy.isNone = false)
    (h : protectApdu C q ctx plain room = .ok frame) : frame.length ≤ headerMax + ctx.payloadLen plain := by
  unfold protectApdu at h
  rw [hp, if_neg Bool.false_ne_true] at h
  split at h
  · cases h
  · split at h
    · cases h
    · obtain ⟨header, hheader, h⟩ := Result.bind_ok.mp h
      unfold Outgoing.header at hheader
      obtain ⟨start, -, hheader⟩ := Result.bind_ok.mp hheader
      obtain ⟨-, rfl, hfit⟩ := SliceWriter.encodeInto_ok hheader
      rw [length_zeros] at hfit
      split at h
      · cases h
      · obtain ⟨payload, -, h⟩ := Result.bind_ok.mp h
        split at h
        · cases h
        · rename_i hpay
          rw [← Except.ok.inj h, List.length_append]
          change _ ≤ headerMax at hfit
          have hlen := not_not.mp hpay
          unfold Emit.size at hfit
          omega

end Lengths

/-! ## The two ends -/

/-- What a sender and a listener keep to between pushes: the policy of the sender is the one demanded under
the global key, the listener has the meter's keys, and its window has taken nothing above the last number
sent. -/
structure PushLink {σ π : Type} {N : Nat} (C : CryptoProvider π) (L : PushKeyLookup σ π)
    (required : SecurityPolicy) (p : PushSender π N) (s : σ) : Prop where
  policy : p.protector.policy = required.global
  keys : ∃ keys, L.keysFor s p.systemTitle = some keys ∧
    C.authenticationKey keys = C.authenticationKey p.protector.provider ∧
    C.Inverts p.protector.provider keys required.global.keyUsage required.global.suite
  authKey : ∀ bytes, C.authenticationKey p.protector.provider = some bytes →
    bytes.length = 16 ∨ bytes.length = 32
  window : ∃ w, L.window s p.systemTitle = some w ∧ w.UpTo p.invocationCounter.last

namespace PushLink

open NotificationListener

variable {σ π : Type} {N : Nat} {C : CryptoProvider π} {L : PushKeyLookup σ π} {required : SecurityPolicy}
variable {p p' : PushSender π N} {s : σ} {capturedAt : Option DateTime} {body : Data} {room size : Nat}
variable {frame : Bytes}

/-- A notification goes out in the general wrapper of the global key. -/
theorem general_start {ctx : Outgoing} {start : Emit} (hpolicy : ctx.policy.dedicated = false)
    (h : ctx.start .dataNotification = .ok start) :
    start.data = 0xDB :: (Emit.lengthPrefixed ctx.systemTitle.bytes).data := by
  have hprotection : ctx.protection = .global := by
    unfold Outgoing.protection
    rw [hpolicy, if_neg Bool.false_ne_true]
  unfold Outgoing.start at h
  rw [hprotection] at h
  change (if _ then _ else _) = _ at h
  split at h
  · cases h
  · rw [← Except.ok.inj h]
    rfl

/-- A notification that is sent is received, where its body is read back at all. -/
theorem delivers (hL : L.Lawful) (h : PushLink C L required p s)
    (hset : required.isNone = true ∨ required.keySet ≠ .globalBroadcast) (hN : N < 2 ^ 63)
    (hbody : body.ComesBack) (hsent : PushSender.notify C capturedAt body room p = (.ok frame, p'))
    (hsize : frame.length ≤ size) : ∃ n t, handle C L required frame size s = (.ok n, t) ∧
      n.capturedAt = capturedAt ∧ n.body.Alike body ∧
      (required.isNone = false → n.invocationCounter = some p'.invocationCounter.last) ∧
      PushLink C L required p' t := by
  obtain ⟨hf, hfit, hnotified⟩ := PushSender.notify_ok hsent
  cases hnotified with
  | bare hnone =>
    have hnone' : required.isNone = true := by rw [← required.isNone_global, ← h.policy, hnone]
    have hopen : open' C L required (p.plain capturedAt body).data none size s =
        (.ok ⟨none, none, (p.notification capturedAt body).encode.data⟩, s) := by
      rw [p.plain_data] at hsize ⊢
      exact open_bare hnone' (Nat.le_of_succ_le hsize) s
    obtain ⟨q', hread, htime, halike⟩ := readNotification_bare (q := p.notification capturedAt body) hbody
      PushSender.notification_head
    refine ⟨⟨none, none, q'.dateTime.val, q'.body⟩, s, ?_, ?_, ?_, fun hno => ?_, ?_⟩
    · unfold handle handleInner
      rw [Prog.bind_run_ok hopen, hread, Prog.ofExcept_ok, Prog.pure_bind_run]
      rfl
    · exact (congrArg OptionalDateTime.val htime).symm
    · exact halike.symm
    · rw [hnone'] at hno
      cases hno
    · exact ⟨h.policy, h.keys, h.authKey, h.window⟩
  | @covered id value _ hnone hlt hprotect =>
    have hnone' : required.isNone = false := by rw [← required.isNone_global, ← h.policy, hnone]
    have hset' := hset.resolve_left (by rw [hnone']; exact Bool.false_ne_true)
    have hpay : (p.outgoing C value).payloadLen (p.plain capturedAt body).data ≤ N + 12 := by
      unfold Outgoing.payloadLen SecuritySuite.tagLen
      split <;> omega
    have hshort := protectApdu_short hnone hprotect (by omega)
    have htag : (p.plain capturedAt body).data.head?.bind ApduTag.fromU8 = some .dataNotification := rfl
    obtain ⟨key, start, payload, hkey, hstart, hprotects, hlen, rfl⟩ :=
      protectApdu_protects hnone htag hshort hprotect
    obtain ⟨keys, hkeys, hauth, hi⟩ := h.keys
    obtain ⟨w, hw, hupTo⟩ := h.window
    have hcheck : w.check value = .ok () := hupTo.check (by omega)
    have hkey' : C.authenticationKey p.protector.provider = some key := hkey
    have hkeysOf : keysOf C L p.systemTitle s = .ok (keys, key) := by
      unfold keysOf
      rw [hkeys]
      dsimp only
      rw [hauth, hkey']
      dsimp only
      unfold Key.fromSlice
      rw [dif_pos (h.authKey key hkey')]
      rfl
    have hpolicy : (p.outgoing C value).policy = required.global := h.policy
    rw [hpolicy] at hprotects hsize ⊢
    rw [general_start (by rw [hpolicy]; rfl) hstart, List.cons_append] at hsize ⊢
    let c : CipheredService := ⟨required.global.control, value, payload⟩
    have hshort' : 5 + c.payload.length < 2 ^ 32 := by
      change 5 + payload.length < _
      omega
    have hroom : payload.length ≤ size := by
      have hbody := c.length_body
      have hdata : c.encode.data = (Emit.length c.body.length).data ++ c.body := by
        rw [CipheredService.encode_data hshort', Emit.lengthPrefixed,
          Emit.append_data (Emit.length_sized (by rw [hbody]; exact hshort')).fault, Emit.bytes_data]
      change c.body.length = 5 + payload.length at hbody
      change (_ :: (_ ++ c.encode.data)).length ≤ size at hsize
      rw [List.length_cons, List.length_append, hdata, List.length_append] at hsize
      omega
    have hrun : decipher C L required .generalGloCiphering (some p.systemTitle) c size s =
        (.ok (p.plain capturedAt body).data, L.setWindow s p.systemTitle (w.record value)) :=
      decipher_protects hnone' hset' hkeysOf hw hcheck hi hprotects hroom
    have hopen : open' C L required (0xDB :: ((Emit.lengthPrefixed p.systemTitle.bytes).data ++
        c.encode.data)) none size s = (.ok ⟨some p.systemTitle, some value, (p.plain capturedAt body).data⟩,
          L.setWindow s p.systemTitle (w.record value)) :=
      (open_general hshort' s).trans (Prog.bind_run_ok hrun)
    obtain ⟨q', hread, htime, halike⟩ := readNotification_tagged (q := p.notification capturedAt body) hbody
    refine ⟨⟨some p.systemTitle, some value, q'.dateTime.val, q'.body⟩,
      L.setWindow s p.systemTitle (w.record value), ?_, ?_, ?_, fun _ => rfl, ?_⟩
    · have hread' : readNotification (p.plain capturedAt body).data = .ok q' := hread
      unfold handle handleInner
      refine (Prog.bind_run_ok hopen).trans ?_
      rw [hread', Prog.ofExcept_ok, Prog.pure_bind_run]
      rfl
    · exact (congrArg OptionalDateTime.val htime).symm
    · exact halike.symm
    · refine ⟨h.policy, ⟨keys, ?_, hauth, hi⟩, h.authKey, w.record value, ?_, ?_⟩
      · exact (hL.keysFor_set ..).trans hkeys
      · exact hL.window_set s p.systemTitle w _ hw
      · exact hupTo.record (by omega)

end PushLink

namespace PushSender

variable {π : Type} {N : Nat} {C : CryptoProvider π} {p p' : PushSender π N} {capturedAt : Option DateTime}
variable {body : Data} {room : Nat} {frame : Bytes}

/-- What goes out is at most fifty bytes longer than its body. -/
theorem notify_length (h : notify C capturedAt body room p = (.ok frame, p')) :
    frame.length ≤ body.encode.size + 50 := by
  obtain ⟨hf, -, hnotified⟩ := notify_ok h
  have hplain := plain_size hf
  cases hnotified with
  | bare => omega
  | covered hnone _ hprotect =>
    have hle := protectApdu_le hnone hprotect
    unfold headerMax Outgoing.payloadLen SecuritySuite.tagLen at hle
    split at hle <;> omega

theorem checkBodyFits_ok {m : UInt16} (h : checkBodyFits body m = .ok ()) : body.encode.size + 50 ≤ m.toNat := by
  unfold checkBodyFits at h
  dsimp only at h
  split at h
  · cases h
  · omega

/-- A notification is built, where there is room, and the keys and a number are left. -/
theorem notify_fits (hbody : body.encode.fault = none) (hN : body.encode.size + 18 ≤ N)
    (hroom : body.encode.size + 50 ≤ room) (hcovered : p.protector.policy.isNone = false →
      body.encode.size + 35 < 2 ^ 32 ∧ p.invocationCounter.last ≠ 0xFFFFFFFF ∧
      ∃ key, C.authenticationKey p.protector.provider = some key ∧
        C.Seals p.protector.provider p.protector.policy key) (capturedAt : Option DateTime) :
    ∃ frame p', notify C capturedAt body room p = (.ok frame, p') := by
  have hsized := p.plain_sized capturedAt hbody
  have hsize := plain_size hsized.fault
  have hplain : SliceWriter.encodeInto (Apdu.dataNotification ⟨(p.notification capturedAt body).longInvokeId,
      ⟨capturedAt⟩, body⟩).encode (zeros N) = .ok (p.plain capturedAt body).data :=
    SliceWriter.encodeInto_fits hsized.fault (by rw [length_zeros]; exact hsize.trans (by omega))
  have hid : nextLongInvokeId p = (.ok (p.notification capturedAt body).longInvokeId,
      { p with longInvokeId := (p.longInvokeId + 1) &&& 0x00FFFFFF }) := rfl
  unfold notify
  rw [Prog.bind_run_ok hid, hplain, Prog.ofExcept_ok, Prog.pure_bind_run, Prog.gets_bind_run]
  cases hnone : p.protector.policy.isNone with
  | true =>
    rw [if_pos rfl, SliceWriter.encodeInto_fits (Emit.bytes_fault _) (by
      rw [length_zeros, Emit.size, Emit.bytes_data]
      omega)]
    exact ⟨_, _, rfl⟩
  | false =>
    obtain ⟨hlen, hlast, key, hkey, hseals⟩ := hcovered hnone
    have hnext : p.invocationCounter.next =
        .ok (p.invocationCounter.last + 1, ⟨p.invocationCounter.last + 1⟩) := if_neg hlast
    have hvalue (id : UInt32) : nextCounter ({ p with longInvokeId := id } : PushSender π N) =
        (.ok (p.invocationCounter.last + 1), { p with
          longInvokeId := id, invocationCounter := ⟨p.invocationCounter.last + 1⟩ }) := by
      unfold nextCounter
      rw [Prog.gets_bind_run]
      dsimp only
      rw [hnext]
      rfl
    let ctx := p.outgoing C (p.invocationCounter.last + 1)
    have hpay : ctx.payloadLen (p.plain capturedAt body).data ≤ (p.plain capturedAt body).data.length + 12 := by
      unfold Outgoing.payloadLen SecuritySuite.tagLen
      split <;> omega
    have htag : (p.plain capturedAt body).data.head?.bind ApduTag.fromU8 = some .dataNotification := rfl
    have hagreed : ctx.Agreed .dataNotification := .inr rfl
    have hwrapped : ctx.wrapped .dataNotification (p.plain capturedAt body).data.length ≤ room := by
      have hle := Emit.lengthSize_le (5 + ctx.payloadLen (p.plain capturedAt body).data)
      have hstart : ctx.startSize .dataNotification ≤ 10 := by
        unfold Outgoing.startSize
        split <;> omega
      change ctx.startSize .dataNotification + (Emit.lengthSize (5 + ctx.payloadLen _) +
        (5 + ctx.payloadLen _)) ≤ room
      omega
    obtain ⟨frame, hframe⟩ := protectApdu_fits hnone htag (by omega) hagreed hkey hseals hwrapped
    rw [if_neg Bool.false_ne_true, Prog.gets_bind_run, Prog.bind_run_ok (hvalue _)]
    exact ⟨frame, _, by rw [Prog.ofExcept_run]; exact Prod.ext hframe rfl⟩

end PushSender

/-! ## Pushes -/

open NotificationListener

/-- What a push has of its way. -/
structure PushDelivery {σ π : Type} (C : CryptoProvider π) (L : PushKeyLookup σ π)
    (required : SecurityPolicy) (N : Nat) : Prop where
  /-- With room and keys, a notification is built. -/
  built (p : PushSender π N) (capturedAt : Option DateTime) (body : Data) (room : Nat) :
    body.encode.fault = none → body.encode.size + 18 ≤ N → body.encode.size + 50 ≤ room →
    (p.protector.policy.isNone = false → body.encode.size + 35 < 2 ^ 32 ∧
      p.invocationCounter.last ≠ 0xFFFFFFFF ∧ ∃ key, C.authenticationKey p.protector.provider = some key ∧
        C.Seals p.protector.provider p.protector.policy key) →
    ∃ frame p', PushSender.notify C capturedAt body room p = (.ok frame, p')
  /-- What was built is taken, and yields the time and the value. The next is taken then too. -/
  taken {p p' : PushSender π N} {s : σ} {capturedAt : Option DateTime} {body : Data} {room size : Nat}
    {frame : Bytes} : required.isNone = true ∨ required.keySet ≠ .globalBroadcast →
    PushLink C L required p s → body.Public → body.Described →
    PushSender.notify C capturedAt body room p = (.ok frame, p') → frame.length ≤ size →
    ∃ n t, handle C L required frame size s = (.ok n, t) ∧ n.capturedAt = capturedAt ∧ n.body.Alike body ∧
      (required.isNone = false → n.invocationCounter = some p'.invocationCounter.last) ∧
      PushLink C L required p' t
  /-- A protected frame is taken once, and no other with its number. -/
  once {apdu : Bytes} {sender : Option SystemTitle} {size : Nat} {s t : σ} {n : ReceivedNotification}
    {value : UInt32} : handleInner C L required apdu sender size s = (.ok n, t) →
    n.invocationCounter = some value → ∃ title c, claimed sender apdu = some (title, c) ∧
      c.invocationCounter = value ∧ ∀ arrivals apdu' sender' size' c',
        claimed sender' apdu' = some (title, c') → c'.invocationCounter = value →
        ∃ e, (handleInner C L required apdu' sender' size' (listen C L required arrivals t)).1 = .error e
  /-- A frame that does not verify leaves the windows as they were. -/
  unverified (apdu : Bytes) (sender : Option SystemTitle) (size : Nat) (s : σ) :
    (∀ title c plain, claimed sender apdu = some (title, c) → ¬ Verifies C L required s title c plain) →
    (handleInner C L required apdu sender size s).2 = s
  /-- What was found to fit fits. -/
  fits {p p' : PushSender π N} {capturedAt : Option DateTime} {body : Data} {room : Nat} {frame : Bytes}
    {m : UInt16} : PushSender.checkBodyFits body m = .ok () →
    PushSender.notify C capturedAt body room p = (.ok frame, p') → frame.length ≤ m.toNat

/-- Under any policy, a push is delivered: where it is protected, under a key set that is not the broadcast
one. -/
theorem pushes_delivered {σ π : Type} {N : Nat} (C : CryptoProvider π) {L : PushKeyLookup σ π}
    (hL : L.Lawful) (required : SecurityPolicy) (hN : N < 2 ^ 63) : PushDelivery C L required N where
  built p capturedAt body room hbody hscratch hroom hcovered :=
    PushSender.notify_fits hbody hscratch hroom hcovered capturedAt
  taken hset hlink hpublic hdescribed hsent hsize := by
    obtain ⟨hf, -, -⟩ := PushSender.notify_ok hsent
    have hbody := hpublic.comesBack (DataNotification.body_fault (Emit.append_fault_eq_none.mp hf).2) hdescribed
    exact hlink.delivers hL hset hN hbody hsent hsize
  once hrun hn := by
    obtain ⟨title, c, hclaimed, hc, -, hspent⟩ := taken_spends hL hrun hn
    exact ⟨title, c, hclaimed, hc, fun arrivals apdu' sender' size' c' hclaimed' hc' =>
      (hspent.listen hL arrivals).refuses hclaimed' hc'⟩
  unverified apdu sender size s hno := by
    obtain ht | ⟨title, c, plain, w, hclaimed, hverifies, -, -⟩ := handleInner_step apdu sender size s
    · exact ht
    · exact absurd hverifies (hno title c plain hclaimed)
  fits hfits hsent := (PushSender.notify_length hsent).trans (PushSender.checkBodyFits_ok hfits)

/-- A meter and its key, which the cipher of the sample provider undoes with itself. -/
def sampleKeys : SampleKeys := { SampleKeys.involutive with authentication := some (List.replicate 16 1) }

def samplePushSender (policy : SecurityPolicy) : PushSender SampleKeys 64 :=
  .new 64 sampleKeys sampleTitle policy 0

def sampleListened : SingleMeterKeys SampleKeys := .new sampleTitle sampleKeys

theorem sample_linked (required : SecurityPolicy) :
    PushLink sampleProvider (SingleMeterKeys.lookup SampleKeys) required (samplePushSender required)
      sampleListened where
  policy := rfl
  keys := ⟨sampleKeys, rfl, rfl, sampleProvider_inverts _ rfl⟩
  authKey := by
    rintro _ ⟨⟩
    exact .inl rfl
  window := ⟨.strict, rfl, nofun⟩

/-- A number is pushed under general ciphering. -/
theorem pushes_delivered_sample : ∃ frame p' n t,
    PushSender.notify sampleProvider none (.unsigned 42) 114 (samplePushSender samplePolicy) =
      (.ok frame, p') ∧
    handle sampleProvider (SingleMeterKeys.lookup SampleKeys) samplePolicy frame 114 sampleListened =
      (.ok n, t) ∧ n.body.Alike (.unsigned 42) := by
  have hN : 64 < 2 ^ 63 := by norm_num
  have h : PushDelivery sampleProvider (SingleMeterKeys.lookup SampleKeys) samplePolicy 64 :=
    pushes_delivered sampleProvider (SingleMeterKeys.lawful SampleKeys) samplePolicy hN
  have hseals : sampleProvider.Seals sampleKeys samplePolicy.global (List.replicate 16 1) :=
    ⟨by decide, fun _ _ _ => ⟨_, rfl⟩, fun _ _ => ⟨_, rfl⟩⟩
  obtain ⟨frame, p', hsent⟩ := h.built (samplePushSender samplePolicy) none (.unsigned 42) 114 rfl
    (by decide) (by decide) fun _ => ⟨by decide, by decide, _, rfl, hseals⟩
  have hfits : frame.length ≤ (52 : UInt16).toNat := h.fits (by decide) hsent
  have hdescribed : (Data.unsigned 42).Described := by
    rintro c ⟨⟩
  have hsize : frame.length ≤ 114 := hfits.trans (by decide)
  obtain ⟨n, t, hrun, -, hbody, -⟩ := h.taken (.inr (by decide)) (sample_linked samplePolicy)
    (.scalar (by decide)) hdescribed hsent hsize
  exact ⟨frame, p', n, t, hsent, hrun, hbody⟩

/-- The number without protection. -/
def plainPush : Bytes := [0x0F, 0x00, 0x00, 0x00, 0x01, 0x00, 0x11, 0x2A]

def broadcastPolicy : SecurityPolicy := { samplePolicy with keySet := .globalBroadcast }

/-- The number as a sender under the broadcast key set sends it: under the unicast key. -/
def broadcastPush : Bytes :=
  [0xDB, 0x08, 0x4D, 0x4D, 0x4D, 0x00, 0x00, 0x00, 0x00, 0x01, 0x19, 0x30, 0x00, 0x00, 0x00, 0x01, 0x8F,
    0x80, 0x80, 0x80, 0x81, 0x80, 0x91, 0xAA, 0x4C, 0xA0, 0x0B, 0x11, 0x46, 0xB8, 0x28, 0x4B, 0xFA, 0x44,
    0xE0, 0x19]

/-- A value that is written and not read back. -/
def deepValue : Data := .compactArray ⟨Data.deepDescription, [0x07], 0, 0, maxDepth⟩

def deepPush : Bytes := [0x0F, 0x00, 0x00, 0x00, 0x01, 0x00] ++ deepValue.encode.data

/-- A plain push is taken twice, one under the broadcast key set is refused, and so is one whose value is
not read back. -/
theorem push_undelivered :
    let L := SingleMeterKeys.lookup SampleKeys
    let n : ReceivedNotification := ⟨none, none, none, .unsigned 42⟩
    let sent (policy : SecurityPolicy) (body : Data) :=
      (PushSender.notify sampleProvider none body 64 (samplePushSender policy)).1
    (sent .none (.unsigned 42) = .ok plainPush ∧
      (handle sampleProvider L .none plainPush 64 sampleListened).1 = .ok n ∧
      (handle sampleProvider L .none plainPush 64
        (handle sampleProvider L .none plainPush 64 sampleListened).2).1 = .ok n) ∧
    (sent broadcastPolicy (.unsigned 42) = .ok broadcastPush ∧
      (handle sampleProvider L broadcastPolicy broadcastPush 64 sampleListened).1 =
        .error ⟨.unexpectedMessage, 0⟩) ∧
    sent .none deepValue = .ok deepPush ∧
      (handle sampleProvider L .none deepPush 64 sampleListened).1 = .error ⟨.depthExceeded, 36⟩ := by
  decide +kernel

end Dlms
