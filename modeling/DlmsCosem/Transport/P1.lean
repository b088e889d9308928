import DlmsCosem.Codec.Error
import DlmsCosem.Lib.Framing
import DlmsCosem.Lib.Text

/-!
# The customer interface

A P1 telegram is text from a `/` to a `!`, with four hexadecimal digits of a CRC and a line end behind
it. `TelegramReader.parse` reads a telegram at the start of some bytes, and
`TelegramReader.nextTelegram` tries every `/` of what has arrived. `receive` is the loop of a caller.
-/

namespace Dlms.P1

/-- The `/` that opens a telegram. -/
def slash : UInt8 := 0x2F

/-- The `!` that closes it. -/
def bang : UInt8 := 0x21

def lf : UInt8 := 0x0A

def cr : UInt8 := 0x0D

/-! ## The check -/

/-- One bit of the CRC. -/
def crcBit (crc : UInt16) : UInt16 := if crc &&& 1 != 0 then (crc >>> 1) ^^^ 0xA001 else crc >>> 1

/-- One byte of the CRC. -/
def crcByte (crc : UInt16) (b : UInt8) : UInt16 := Nat.repeat crcBit 8 (crc ^^^ b.toUInt16)

/-- `crc16`: CRC-16/ARC. -/
def crc16 (data : Bytes) : UInt16 := data.foldl crcByte 0

/-- The published check value, of the text `123456789`. -/
example : crc16 [0x31, 0x32, 0x33, 0x34, 0x35, 0x36, 0x37, 0x38, 0x39] = 0xBB3D := by decide +kernel

/-- `is_ascii_hexdigit`. -/
def isHexdigit (b : UInt8) : Bool :=
  (0x30 ≤ b && b ≤ 0x39) || (0x41 ≤ b && b ≤ 0x46) || (0x61 ≤ b && b ≤ 0x66)

/-- The value of a hexadecimal digit. -/
def hexdigit (b : UInt8) : Nat :=
  if b ≤ 0x39 then b.toNat - 0x30 else if b ≤ 0x46 then b.toNat - 0x41 + 10 else b.toNat - 0x61 + 10

/-- `u16::from_str_radix(printed, 16)`, of four digits at most. -/
def fromHex (printed : Bytes) : UInt16 := UInt16.ofNat (printed.foldl (fun v b => 16 * v + hexdigit b) 0)

/-! ## Text -/

/-- The characters that `char::is_whitespace` names. -/
def whitespace : List Char :=
  ([0x09, 0x0A, 0x0B, 0x0C, 0x0D, 0x20, 0x85, 0xA0, 0x1680, 0x2000, 0x2001, 0x2002, 0x2003, 0x2004, 0x2005,
    0x2006, 0x2007, 0x2008, 0x2009, 0x200A, 0x2028, 0x2029, 0x202F, 0x205F, 0x3000] : List Nat).map Char.ofNat

/-- Text without a white space character at its end, if it has one there. -/
def trimOne (text : Bytes) : Bytes :=
  match whitespace.find? fun c => (String.utf8EncodeChar c).isSuffixOf text with
  | some c => text.take (text.length - (String.utf8EncodeChar c).length)
  | none => text

/-- `str::trim_end`: there are no more characters than bytes. -/
def trimEnd (text : Bytes) : Bytes := Nat.repeat trimOne text.length text

example : trimEnd [0x41, 0x20, 0x42, 0xC2, 0xA0, 0x20, 0x0D] = [0x41, 0x20, 0x42] := by decide +kernel

/-- `str::get(..4)`: four bytes, where a character ends behind them. -/
def getFour (text : Bytes) : Option Bytes :=
  if text.length < 4 then none
  else
    match text[4]? with
    | some b => if Text.Leads b then some (text.take 4) else none
    | none => some (text.take 4)

/-! ## A telegram -/

/-- A complete telegram whose checksum has been verified: its texts, in bytes. -/
structure Telegram where
  identification : Bytes
  body : Bytes
  deriving Repr, DecidableEq

/-- What stands between the `/` and the `!`: a line of identification, and the rest. -/
def Telegram.ofHead (head : Bytes) : Telegram :=
  match head.idxOf? lf with
  | some at' => ⟨trimEnd (head.take at'), head.drop (at' + 1)⟩
  | none => ⟨trimEnd head, []⟩

/-- The line end that the bytes begin with. -/
def lineEnd (bytes : Bytes) : Nat :=
  if [cr, lf].isPrefixOf bytes then 2 else if [lf].isPrefixOf bytes then 1 else 0

/-- `Found`: a telegram, or how many leading bytes may be dropped. -/
abbrev Found := Framing.Found Telegram

/-- Whether a reader wants a checksum, and how many bytes it has thrown away. -/
structure TelegramReader where
  discarded : Nat
  requireChecksum : Bool
  deriving Repr, DecidableEq

namespace TelegramReader

def new : TelegramReader := ⟨0, true⟩

def withoutChecksum : TelegramReader := ⟨0, false⟩

/-- `self.discarded.saturating_add(n)`. -/
def discard (n : Nat) : Prog Error TelegramReader Unit :=
  .modify fun reader => { reader with discarded := min (reader.discarded + n) (2 ^ 64 - 1) }

/-- What `parse` makes of the characters behind the `!`: the length of the checksum, or nothing where
it has not arrived. -/
def checksum (reader : TelegramReader) (checked after : Bytes) : Except Unit (Option Nat) :=
  if reader.requireChecksum then
    match getFour after with
    | none => .ok none
    | some printed =>
      if !printed.all isHexdigit then .error ()
      else if fromHex printed != crc16 checked then .error ()
      else .ok (some 4)
  else if (getFour after).any fun s => s.all isHexdigit then .ok (some 4)
  else .ok (some 0)

/-- `parse`: a telegram and the bytes that it takes, nothing yet, or an error. -/
def parse (reader : TelegramReader) (buf : Bytes) : Except Unit (Option (Telegram × Nat)) :=
  -- `core::str::from_utf8`, of all that has arrived.
  if ¬ Text.Valid buf then .error ()
  else if buf.head? != some slash then .error ()
  else
    match buf.idxOf? bang with
    | none => .ok none
    | some at' =>
      match reader.checksum (buf.take (at' + 1)) (buf.drop (at' + 1)) with
      | .error () => .error ()
      | .ok none => .ok none
      | .ok (some n) =>
        let used := at' + 1 + n
        .ok (some (Telegram.ofHead ((buf.take at').drop 1), used + lineEnd (buf.drop used)))

/-- The loop of `next_telegram`, on what stands from `start` on. -/
def scan (start : Nat) (firstIncomplete : Option Nat) : Bytes → Prog Error TelegramReader Found
  | [] => do
    -- Here `start` is the length of the buffer.
    let discard := firstIncomplete.getD start
    TelegramReader.discard discard
    return .incomplete discard
  | b :: bytes =>
    if b != slash then scan (start + 1) firstIncomplete bytes
    else do
      match ← Prog.gets (parse · (b :: bytes)) with
      | .ok (some (telegram, used)) =>
        TelegramReader.discard start
        return .item telegram (start + used)
      | .ok none => scan (start + 1) (some (firstIncomplete.getD start)) bytes
      | .error () => scan (start + 1) firstIncomplete bytes

def nextTelegram (buf : Bytes) : Prog Error TelegramReader Found := scan 0 none buf

/-- The loop of a caller: append a chunk, call `next_telegram` until it has none, drop what it says. -/
def receive (chunks : List Bytes) : Prog Error TelegramReader (List Telegram × Bytes) :=
  Framing.feed nextTelegram [] chunks

end TelegramReader

end Dlms.P1
