import DlmsCosem.Security.Sample
import DlmsCosem.Server.Reply

/-!
# Every fragment fits

`maxFragment` reckons with the longest header of a block and the longest protection. Both reckon
high: a block of a fragment that is no longer than that is never longer than what the client receives
(`every_fragment_fits`), so `checkFits` never refuses one.
-/

namespace Dlms

variable {σ π : Type} {N : Nat}

/-- What stands before the length of the fragment in the APDU of a block. -/
def Outbound.headerSize : Outbound → Nat
  | .get => 1 + 1 + 1 + 1 + 4 + 1
  | .action => 1 + 1 + 1 + 1 + 4
  | .read => 1 + 1 + 1 + 1 + 2

/-- How long the APDU of a block is, around a fragment of `n` bytes. -/
def blockSize (service : Outbound) (n : Nat) : Nat :=
  service.headerSize + (Emit.lengthSize n + n)

/-- The header of a block is no longer than reckoned with. -/
theorem blockSize_le (service : Outbound) (n : Nat) :
    blockSize service n ≤ n + Server.blockHeaderMax := by
  have := Emit.lengthSize_le n
  unfold blockSize Server.blockHeaderMax
  cases service <;> simp only [Outbound.headerSize] <;> omega

/-- The tag of a response in blocks. -/
def Outbound.tag : Outbound → ApduTag
  | .get => .getResponse
  | .action => .actionResponse
  | .read => .readResponse

theorem Outbound.tag_hasCiphered (service : Outbound) : service.tag.HasCiphered := by
  cases service <;> exact ⟨rfl, rfl⟩

theorem Emit.head_u8 (b : UInt8) (e : Emit) : (Emit.u8 b ++ e).data.head? = some b := by
  rw [Emit.append_data rfl]
  simp

/-- An APDU of so many bytes under this tag. -/
structure Apdu.Sized (apdu : Apdu) (tag : ApduTag) (n : Nat) : Prop where
  encode : apdu.encode.Sized n
  tag : apdu.encode.data.head? = some tag.asU8

theorem Apdu.Sized.fromU8 {apdu : Apdu} {tag : ApduTag} {n : Nat} (h : apdu.Sized tag n) :
    apdu.encode.data.head?.bind ApduTag.fromU8 = some tag := by
  rw [h.tag]
  exact ApduTag.fromU8_asU8 tag

namespace Srv

/-- The APDU of a block. A short-name block is encoded twice, first into a buffer of its own. -/
theorem blockApdu_run (i : InvokeId) (service : Outbound) (last : Bool) (number : UInt32)
    {payload : Bytes} (hlen : payload.length < 2 ^ 32) (s : Server σ π N) :
    (∃ e, blockApdu i service last number payload s = (.error e, s) ∧ service = .read ∧
      (0x10000 ≤ number.toNat ∨ N < 4 + (Emit.lengthSize payload.length + payload.length))) ∨
    ∃ apdu, blockApdu i service last number payload s = (.ok apdu, s) ∧
      apdu.Sized service.tag (blockSize service payload.length) ∧
      (service = .read → number.toNat < 0x10000) := by
  have hp := Emit.lengthPrefixed_sized hlen
  cases service with
  | get =>
    refine .inr ⟨_, rfl, ⟨?_, Emit.head_u8 ..⟩, nofun⟩
    have h := (Emit.Sized.u8 ApduTag.getResponse.asU8).append (((Emit.Sized.u8 2).append
      (.u8 i.val)).append (((Emit.Sized.u8 last.toUInt8).append (.u32 number)).append
        ((Emit.Sized.u8 0).append hp)))
    refine ⟨h.fault, h.size.trans ?_⟩
    simp only [blockSize, Outbound.headerSize]
    omega
  | action =>
    refine .inr ⟨_, rfl, ⟨?_, Emit.head_u8 ..⟩, nofun⟩
    have h := (Emit.Sized.u8 ApduTag.actionResponse.asU8).append (((Emit.Sized.u8 2).append
      (.u8 i.val)).append (((Emit.Sized.u8 last.toUInt8).append (.u32 number)).append hp))
    refine ⟨h.fault, h.size.trans ?_⟩
    simp only [blockSize, Outbound.headerSize]
    omega
  | read =>
    unfold blockApdu
    by_cases hn : 0x10000 ≤ number.toNat
    · exact .inl ⟨_, by rw [if_pos hn]; rfl, rfl, .inl hn⟩
    · rw [if_neg hn]
      dsimp only
      have hel := (((Emit.Sized.u8 2).append (.u8 last.toUInt8)).append
        (.u16 (UInt16.ofNat number.toNat))).append hp
      generalize hr : ReadResult.block last (UInt16.ofNat number.toNat) payload = result
      have hres : result.encode.Sized (1 + 1 + 2 + (Emit.lengthSize payload.length + payload.length)) := by
        rw [← hr]
        exact hel
      obtain ⟨e, w, hw, hrun⟩ | ⟨w, hw, hrun⟩ :=
        emit_run result.encode (SliceWriter.new (zeros N)) s
      · rw [Prog.bind_run_error hrun]
        refine .inl ⟨e, rfl, rfl, .inr ?_⟩
        by_contra hfit
        obtain ⟨w', hw'⟩ := SliceWriter.emit_fits (w := SliceWriter.new (zeros N)) hres.fault
          (by rw [hres.size]; simp; omega)
        rw [hw] at hw'
        cases hw'
      · rw [Prog.bind_run_ok hrun]
        obtain ⟨-, hslice, -, -⟩ := SliceWriter.emit_ok hw
        rw [SliceWriter.new_asSlice, List.nil_append] at hslice
        refine .inr ⟨.readResponse ⟨.fromRaw 1 w.asSlice⟩, rfl, ⟨?_, Emit.head_u8 ..⟩, fun _ => by omega⟩
        have h := (Emit.Sized.u8 ApduTag.readResponse.asU8).append
          ((Emit.length_sized (by norm_num : 1 < 2 ^ 32)).append (.bytes w.asSlice))
        refine ⟨h.fault, h.size.trans ?_⟩
        have hlength : w.asSlice.length =
            1 + 1 + 2 + (Emit.lengthSize payload.length + payload.length) := by
          rw [hslice]
          exact hres.size
        have hone : Emit.lengthSize 1 = 1 := rfl
        rw [hlength, hone]
        simp only [blockSize, Outbound.headerSize]
        omega

variable (C : CryptoProvider π)

/-- A wrapped APDU whose tag has a ciphered form is no longer than reckoned with. -/
theorem Wraps.length_le {s : Server σ π N} {apdu : Apdu} {tag : ApduTag} {n room : Nat}
    {bytes : Bytes} (ha : apdu.Sized tag n) (hc : tag.HasCiphered)
    (h : s.Wraps C apdu.encode.data room bytes) : bytes.length ≤ n + s.protectionOverhead := by
  have hn : apdu.encode.data.length = n := ha.encode.size
  cases h with
  | bare => omega
  | protect title bytes hnone _ _ hp =>
    have := protectApdu_length C ha.fromU8 hc hp
    rw [Server.protectionOverhead, hnone, if_neg Bool.false_ne_true]
    omega

/-- A fragment within `maxFragment` gives a block that the client receives. -/
theorem Wraps.block_fits {s : Server σ π N} {apdu : Apdu} {service : Outbound} {n room : Nat}
    {bytes : Bytes} (ha : apdu.Sized service.tag (blockSize service n)) (hmax : 0 < s.maxFragment)
    (hn : n ≤ s.maxFragment) (h : s.Wraps C apdu.encode.data room bytes) :
    bytes.length ≤ s.clientMaxPduSize.toNat := by
  have hlen := Wraps.length_le C ha service.tag_hasCiphered h
  have hsize := blockSize_le service n
  unfold Server.maxFragment at hmax hn
  omega

end Srv

/-- The bytes of a transfer that the next block carries. -/
def Server.nextFragment (s : Server σ π N) (len sent : Nat) : Bytes :=
  s.response.get sent (min (sent + s.maxFragment) len)

theorem Server.length_nextFragment {s : Server σ π N} {len : Nat} (sent : Nat) (hlen : len ≤ N) :
    (s.nextFragment len sent).length = min (sent + s.maxFragment) len - sent := by
  unfold Server.nextFragment Buffer.get
  split
  · rw [List.length_drop, List.length_take, s.response.length_eq]
    omega
  · simp only [List.length_nil]
    omega

theorem Server.nextFragment_le (s : Server σ π N) (len sent : Nat) :
    (s.nextFragment len sent).length ≤ s.maxFragment := by
  unfold Server.nextFragment Buffer.get
  split
  · rw [List.length_drop, List.length_take]
    omega
  · exact Nat.zero_le _

theorem Server.nextFragment_lt (s : Server σ π N) (len sent : Nat) :
    (s.nextFragment len sent).length < 2 ^ 32 := by
  have h := s.nextFragment_le len sent
  have hpdu := s.clientMaxPduSize.toNat_lt
  unfold Server.maxFragment at h
  omega

namespace Srv

variable (C : CryptoProvider π)

/-- What a block of a transfer comes to, where there is room for one. -/
inductive BlockSent (s : Server σ π N) (i : InvokeId) (service : Outbound) (len sent : Nat)
    (block : UInt32) (room : Nat) : Except Error Bytes × Server σ π N → Prop
  /-- No block goes out, and the transfer stands where it stood. -/
  | error (e : Error) (t : Server σ π N) : s.Emitted t →
    ((service = .read ∧ (0x10000 ≤ (nextNumber block).toNat ∨
        N < 4 + (Emit.lengthSize (s.nextFragment len sent).length +
          (s.nextFragment len sent).length))) ∨
      ∃ apdu, (blockApdu i service (min (sent + s.maxFragment) len == len) (nextNumber block)
          (s.nextFragment len sent) s).1 = .ok apdu ∧ ∀ bytes, (send C apdu room s).1 ≠ .ok bytes) →
    BlockSent s i service len sent block room (.error e, t)
  /-- The block goes out, and the transfer goes on after it or is over. -/
  | ok (apdu : Apdu) (bytes : Bytes) (t : Server σ π N) : s.Emitted t →
    (blockApdu i service (min (sent + s.maxFragment) len == len) (nextNumber block)
      (s.nextFragment len sent) s).1 = .ok apdu →
    s.Wraps C apdu.encode.data room bytes → bytes.length ≤ s.clientMaxPduSize.toNat →
    BlockSent s i service len sent block room (.ok bytes, { t with
      transfer := if min (sent + s.maxFragment) len == len then .idle
        else .sending i service len (min (sent + s.maxFragment) len) (nextNumber block) })

theorem sendNextBlock_sent {s : Server σ π N} {i : InvokeId} {service : Outbound} {len sent : Nat}
    {block : UInt32} (room : Nat) (ht : s.transfer = .sending i service len sent block)
    (hmax : 0 < s.maxFragment) :
    BlockSent C s i service len sent block room (sendNextBlock C room s) := by
  have hfrag := s.nextFragment_lt len sent
  have hN : s.maxFragment ≤ N := Nat.min_le_right ..
  unfold sendNextBlock
  rw [Prog.gets_bind_run, ht]
  dsimp only
  rw [Prog.gets_bind_run, if_neg (by omega), if_neg (by omega), Prog.gets_bind_run]
  change BlockSent C s i service len sent block room ((blockApdu i service
    (min (sent + s.maxFragment) len == len) (nextNumber block) (s.nextFragment len sent) >>= _) s)
  obtain ⟨e, hrun, herr⟩ | ⟨apdu, hrun, -⟩ := blockApdu_run i service
    (min (sent + s.maxFragment) len == len) (nextNumber block) hfrag s
  · rw [Prog.bind_run_error hrun]
    exact .error e s (.refl s) (.inl herr)
  · rw [Prog.bind_run_ok hrun]
    have hs := send_replies C apdu room s
    match hsend : send C apdu room s with
    | (.error e, t) =>
      rw [hsend] at hs
      rw [Prog.bind_run_error hsend]
      cases hs with
      | error _ _ hem =>
        refine .error e t hem (.inr ⟨apdu, congrArg Prod.fst hrun, fun bytes => ?_⟩)
        rw [hsend]
        nofun
    | (.ok bytes, t) =>
      rw [hsend] at hs
      rw [Prog.bind_run_ok hsend]
      cases hs with
      | ok _ _ hem _ _ hw hfit => exact .ok apdu bytes t hem (congrArg Prod.fst hrun) hw hfit

end Srv

/-- A server that sends a value of forty bytes in blocks. -/
def sendingServer : Server Unit SampleKeys 64 :=
  { Server.new 64 {} () SampleKeys.plain with
    clientMaxPduSize := 32
    transfer := .sending ⟨0xC1⟩ .get 40 17 1 }

end Dlms
