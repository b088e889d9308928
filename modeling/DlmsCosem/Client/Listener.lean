import DlmsCosem.Security.Wrap

/-!
# The notification listener

A meter pushes a DataNotification without being asked and outside any association, so what a frame has
to be protected with is the listener's to say (`required`), and the keys are found by the system title in
the frame. Where the frame names no meter, the caller says which one it is from (`handleFrom`).

What a listener keeps of its meters is its caller's `PushKeyLookup`, over a state `σ`. A key ring is of
the type of the provider's keys: the provider of a message resolves its keys in the ring.
-/

namespace Dlms

/-! ## Keys by system title -/

/-- Finds the keys and the window of a meter. -/
structure PushKeyLookup (σ π : Type) where
  keysFor : σ → SystemTitle → Option π
  window : σ → SystemTitle → Option ReplayWindow
  setWindow : σ → SystemTitle → ReplayWindow → σ

/-- The keys and the window of one meter. -/
structure SingleMeterKeys (π : Type) where
  systemTitle : SystemTitle
  keys : π
  replay : ReplayWindow

namespace SingleMeterKeys

/-- `new`. -/
def new {π : Type} (systemTitle : SystemTitle) (keys : π) : SingleMeterKeys π :=
  ⟨systemTitle, keys, .strict⟩

/-- The lookup of one meter. -/
def lookup (π : Type) : PushKeyLookup (SingleMeterKeys π) π where
  keysFor s title := if title = s.systemTitle then some s.keys else none
  window s title := if title = s.systemTitle then some s.replay else none
  setWindow s title w := if title = s.systemTitle then { s with replay := w } else s

end SingleMeterKeys

/-! ## Handling a frame -/

/-- What a notification carried. -/
structure ReceivedNotification where
  systemTitle : Option SystemTitle
  invocationCounter : Option UInt32
  capturedAt : Option DateTime
  body : Data
  deriving DecidableEq

/-- A frame whose protection is off: who it is from, its number where it had one, and the plain text. -/
structure Heard where
  systemTitle : Option SystemTitle
  invocationCounter : Option UInt32
  plain : Bytes
  deriving DecidableEq

namespace NotificationListener

/-- What the wrapper says, once its tag is read. A DataNotification has none. -/
def unwrap (sender : Option SystemTitle) (tag : ApduTag) :
    Read (Option SystemTitle × Option CipheredService) :=
  match tag with
  | .dataNotification => return (none, none)
  | .generalGloCiphering | .generalDedCiphering => do
    let g ← GeneralGloCiphering.decode
    let title ← Prog.ofExcept (SystemTitle.fromSlice g.systemTitle)
    return (some title, some g.ciphered)
  | .gloEventNotification | .dedEventNotification => do
    return (sender, some (← CipheredService.decode))
  | _ => Prog.throw ⟨.unexpectedMessage, 0⟩

/-- The tags of the dedicated key set. -/
def isDedicated (tag : ApduTag) : Bool := tag = .generalDedCiphering || tag = .dedEventNotification

variable {σ π : Type} (C : CryptoProvider π) (L : PushKeyLookup σ π) (required : SecurityPolicy)

/-- A notification without protection, into a buffer of `size` bytes. -/
def takePlain (rest : Bytes) (size : Nat) : Result Bytes :=
  if !required.isNone then Error.fail .unexpectedMessage 0
  else if size < rest.length then Error.fail (.bufferTooSmall rest.length) 0
  else .ok rest

/-- The keys of a meter, and its authentication key. -/
def keysOf (title : SystemTitle) (s : σ) : Result (π × Bytes) :=
  match L.keysFor s title with
  | none => Error.fail .unsupported 0
  | some keys =>
    match C.authenticationKey keys with
    | none => Error.fail .unsupported 0
    | some key => do return (keys, (← Key.fromSlice key).bytes)

/-- The window of a meter. -/
def windowOf (title : SystemTitle) (s : σ) : Result ReplayWindow :=
  match L.window s title with
  | none => Error.fail .unsupported 0
  | some w => .ok w

/-- The policy that a frame is opened under: the one demanded, under the key set of the tag. -/
def openingPolicy (tag : ApduTag) (suite : SecuritySuite) : SecurityPolicy :=
  { required with suite }.withDedicated (isDedicated tag)

/-- Open the payload of a frame from `title`. -/
def decipher (tag : ApduTag) (title : Option SystemTitle) (c : CipheredService) (size : Nat) :
    Prog Error σ Bytes := do
  Prog.ofExcept (required.checkReceived c.securityControl)
  match title with
  | none => Prog.throw ⟨.unsupported, 0⟩
  | some title => do
    let (keys, authKey) ← Prog.ofExcept (keysOf C L title (← Prog.gets id))
    Prog.ofExcept ((← Prog.ofExcept (windowOf L title (← Prog.gets id))).check c.invocationCounter)
    if size < c.payload.length then Prog.throw ⟨.bufferTooSmall c.payload.length, 0⟩
    else do
      let suite ← Prog.ofExcept (SecuritySuite.fromId c.securityControl.suite)
      let protector : Protector π := ⟨keys, openingPolicy required tag suite⟩
      let plain ← Prog.ofExcept (protector.unprotectAs C protector.policy c.securityControl title
        c.invocationCounter authKey c.payload).1
      let w ← Prog.ofExcept ((← Prog.ofExcept (windowOf L title (← Prog.gets id))).accept
        c.invocationCounter)
      Prog.modify fun s => L.setWindow s title w
      return plain

/-- Take the protection off a frame. -/
def open' (apdu : Bytes) (sender : Option SystemTitle) (size : Nat) : Prog Error σ Heard := do
  match ApduTag.fromU8 (apdu.headD 0) with
  | none => Prog.throw ⟨.invalidTag (apdu.headD 0), 0⟩
  | some tag => do
    match ← Prog.ofExcept ((do Read.skip 1; unwrap sender tag : Read _) (Reader.new apdu)).1 with
    | (systemTitle, none) => do
      let plain ← Prog.ofExcept (takePlain required (apdu.drop 1) size)
      return ⟨systemTitle, none, plain⟩
    | (systemTitle, some c) => do
      let plain ← decipher C L required tag systemTitle c size
      return ⟨systemTitle, some c.invocationCounter, plain⟩

/-- Read the notification in the plain text. The first byte decides whether it has its tag. -/
def readNotification (plain : Bytes) : Result DataNotification := do
  let tagByte ← (Read.peekU8 (Reader.new plain)).1
  if ApduTag.fromU8 tagByte = some .dataNotification then
    match ← Apdu.fromBytes plain with
    | .dataNotification n => return n
    | _ => Error.fail .unexpectedMessage 0
  else
    (DataNotification.decode (Reader.new plain)).1

/-- `handle_inner`. -/
def handleInner (apdu : Bytes) (sender : Option SystemTitle) (size : Nat) :
    Prog Error σ ReceivedNotification := do
  let heard ← open' C L required apdu sender size
  let notification ← Prog.ofExcept (readNotification heard.plain)
  return {
    systemTitle := heard.systemTitle
    invocationCounter := heard.invocationCounter
    capturedAt := notification.dateTime.val
    body := notification.body }

/-- `handle`, with a buffer of `size` bytes. -/
def handle (apdu : Bytes) (size : Nat) : Prog Error σ ReceivedNotification :=
  handleInner C L required apdu none size

/-- `handle_from`: on a link whose meter is known. -/
def handleFrom (sender : SystemTitle) (apdu : Bytes) (size : Nat) : Prog Error σ ReceivedNotification :=
  handleInner C L required apdu (some sender) size

end NotificationListener

end Dlms
