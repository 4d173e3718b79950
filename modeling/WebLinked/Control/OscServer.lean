import Mathlib

/-!
# The OSC receiver

`src/control/osc_server.h:29–50`, `src/control/osc_server.cpp:38–189`. A packet is a message, whose
arguments are read one after another by their type tags, or a bundle of packets, each with its size.
What the handler is called with is the list of messages decoded, in order.
-/

namespace WebLinked.Control.Osc

/-- Bytes. -/
abbrev Bytes := List UInt8

/-- The bytes of a text. -/
def ascii (text : String) : Bytes := text.toList.map fun c ↦ UInt8.ofNat c.toNat

/-- `padded`; `src/control/osc_server.cpp:38`. -/
def padded (textLength : ℕ) : ℕ := (textLength + 4) / 4 * 4

/-- `Message`; `src/control/osc_server.h:33`. A float is given by its bits. -/
structure Message where
  address : Bytes := []
  stringArgs : List Bytes := []
  intArgs : List (BitVec 32) := []
  floatArgs : List (BitVec 32) := []
  deriving DecidableEq

/-- `readString`; `src/control/osc_server.cpp:43`. -/
def readString (data : Bytes) (offset : ℕ) : Option (Bytes × ℕ) :=
  if data.length ≤ offset then none
  else
    let text := (data.drop offset).takeWhile (· ≠ 0)
    if text.length = data.length - offset then none
    else if offset + padded text.length ≤ data.length then some (text, offset + padded text.length)
    else none

/-- `ntohl` of four bytes. -/
def ntohl (a b c d : UInt8) : BitVec 32 :=
  .ofNat 32 (((a.toNat * 256 + b.toNat) * 256 + c.toNat) * 256 + d.toNat)

/-- `readInt32`; `src/control/osc_server.cpp:67`. -/
def readInt32 (data : Bytes) (offset : ℕ) : Option (BitVec 32 × ℕ) :=
  if data.length < offset + 4 then none
  else
    match data.drop offset with
    | a :: b :: c :: d :: _ => some (ntohl a b c d, offset + 4)
    | _ => none

/-- `readFloat32`; `src/control/osc_server.cpp:78`. -/
def readFloat32 (data : Bytes) (offset : ℕ) : Option (BitVec 32 × ℕ) := readInt32 data offset

/-- An offset that has been moved on, if it is still within the data. -/
def skipTo (data : Bytes) (offset : ℕ) : Option ℕ :=
  if data.length < offset then none else some offset

/-- One argument; `src/control/osc_server.cpp:137–185`. -/
def readArgument (data : Bytes) (tag : UInt8) (offset : ℕ) (message : Message) :
    Option (ℕ × Message) :=
  match Char.ofNat tag.toNat with
  | 'i' =>
    (readInt32 data offset).map fun (value, offset) ↦
      (offset, { message with intArgs := message.intArgs ++ [value] })
  | 'f' =>
    (readFloat32 data offset).map fun (value, offset) ↦
      (offset, { message with floatArgs := message.floatArgs ++ [value] })
  | 's' | 'S' =>
    (readString data offset).map fun (value, offset) ↦
      (offset, { message with stringArgs := message.stringArgs ++ [value] })
  | 'T' => some (offset, { message with intArgs := message.intArgs ++ [1] })
  | 'F' => some (offset, { message with intArgs := message.intArgs ++ [0] })
  | 'N' | 'I' => some (offset, message)
  | 'b' =>
    (readInt32 data offset).bind fun (size, offset) ↦
      if size.toInt < 0 then none
      else (skipTo data (offset + padded size.toInt.toNat)).map fun offset ↦ (offset, message)
  | 'd' | 'h' | 't' => (skipTo data (offset + 8)).map fun offset ↦ (offset, message)
  | _ => none

/-- The arguments, by their tags. -/
def readArguments (data : Bytes) : Bytes → ℕ → Message → Option Message
  | [], _, message => some message
  | tag :: tags, offset, message =>
    (readArgument data tag offset message).bind fun (offset, message) ↦
      readArguments data tags offset message

/-- A packet that is no bundle; `src/control/osc_server.cpp:118–189`. -/
def decodeMessage (data : Bytes) : Option Message :=
  (readString data 0).bind fun (address, offset) ↦
    if address.head? ≠ some (UInt8.ofNat '/'.toNat) then none
    else
      let message : Message := { address }
      if data[offset]? = some (UInt8.ofNat ','.toNat) then
        (readString data offset).bind fun (typeTags, offset) ↦
          readArguments data typeTags.tail offset message
      else some message

mutual

/-- `decodePacket`, to a depth; `src/control/osc_server.cpp:91`. -/
def decodePacketTo : ℕ → Bytes → List Message
  | 0, _ => []
  | depth + 1, data =>
    if data.length < 4 then []
    else if 8 ≤ data.length && data.take 7 = ascii "#bundle" then decodeBundleTo depth data 16
    else (decodeMessage data).toList

/-- The packets of a bundle from an offset on; `src/control/osc_server.cpp:98–113`. -/
def decodeBundleTo : ℕ → Bytes → ℕ → List Message
  | 0, _, _ => []
  | depth + 1, data, offset =>
    if offset + 4 ≤ data.length then
      match readInt32 data offset with
      | none => []
      | some (size, offset) =>
        if size.toInt ≤ 0 || data.length < offset + size.toInt.toNat then []
        else
          decodePacketTo depth ((data.drop offset).take size.toInt.toNat) ++
            decodeBundleTo depth data (offset + size.toInt.toNat)
    else []

end

/-- `decodePacket`: packets are not nested deeper than they are long. -/
def decodePacket (data : Bytes) : List Message := decodePacketTo (data.length + 1) data

/-- An argument of a message, by OSC 1.0; a number of 64 bits by its halves. -/
inductive Argument where
  | int (value : BitVec 32)
  | float (bits : BitVec 32)
  | string (text : Bytes)
  | symbol (text : Bytes)
  | blob (content : Bytes)
  | true
  | false
  | nil
  | infinitum
  | double (high low : BitVec 32)
  | long (high low : BitVec 32)
  | timetag (high low : BitVec 32)

/-- A number of 32 bits, the highest byte first. -/
def encodeWord (word : BitVec 32) : Bytes :=
  [.ofNat (word.toNat / 2 ^ 24), .ofNat (word.toNat / 2 ^ 16 % 256), .ofNat (word.toNat / 2 ^ 8 % 256),
    .ofNat (word.toNat % 256)]

/-- A text, ended by one to four zeros. -/
def encodeString (text : Bytes) : Bytes := text ++ List.replicate (4 - text.length % 4) 0

/-- A blob: its size, and its content with up to three zeros. -/
def encodeBlob (content : Bytes) : Bytes :=
  encodeWord (.ofNat 32 content.length) ++ content ++
    List.replicate ((4 - content.length % 4) % 4) 0

namespace Argument

/-- Its type tag. -/
def tag : Argument → Char
  | int _ => 'i'
  | float _ => 'f'
  | string _ => 's'
  | symbol _ => 'S'
  | blob _ => 'b'
  | true => 'T'
  | false => 'F'
  | nil => 'N'
  | infinitum => 'I'
  | double _ _ => 'd'
  | long _ _ => 'h'
  | timetag _ _ => 't'

/-- Its bytes. -/
def encode : Argument → Bytes
  | int word | float word => encodeWord word
  | string text | symbol text => encodeString text
  | blob content => encodeBlob content
  | true | false | nil | infinitum => []
  | double high low | long high low | timetag high low => encodeWord high ++ encodeWord low

/-- A text has no zero in it. -/
def WellFormed : Argument → Prop
  | string text | symbol text => 0 ∉ text
  | _ => True

/-- What the handler is to get of it. -/
def addTo (argument : Argument) (message : Message) : Message :=
  match argument with
  | int value => { message with intArgs := message.intArgs ++ [value] }
  | float bits => { message with floatArgs := message.floatArgs ++ [bits] }
  | string text | symbol text => { message with stringArgs := message.stringArgs ++ [text] }
  | true => { message with intArgs := message.intArgs ++ [1] }
  | false => { message with intArgs := message.intArgs ++ [0] }
  | _ => message

/-- The argument with this in place of the content of a blob. -/
def fill (f : Bytes → Bytes) : Argument → Argument
  | blob content => blob (f content)
  | argument => argument

/-- It is no blob with a length that is a multiple of four. -/
def isOdd : Argument → Bool
  | blob content => content.length % 4 ≠ 0
  | _ => Bool.true

end Argument

/-- A message as it is sent. -/
structure Sent where
  address : Bytes
  arguments : List Argument

namespace Sent

/-- Its bytes. -/
def encode (m : Sent) : Bytes :=
  encodeString m.address ++
    encodeString (UInt8.ofNat ','.toNat :: m.arguments.map fun a ↦ UInt8.ofNat a.tag.toNat) ++
    m.arguments.flatMap Argument.encode

/-- The address starts with a slash, and texts have no zero in them. -/
structure WellFormed (m : Sent) : Prop where
  slash : m.address.head? = some (UInt8.ofNat '/'.toNat)
  address : 0 ∉ m.address
  arguments : ∀ a ∈ m.arguments, a.WellFormed

/-- What the handler is to be called with. -/
def message (m : Sent) : Message :=
  m.arguments.foldl (fun message a ↦ a.addTo message) { address := m.address }

end Sent

/-- An element of a bundle: its size, and its content. -/
def element (content : Bytes) : Bytes := encodeWord (.ofNat 32 content.length) ++ content

/-- The bytes do not begin with an element: they are too few for a size, or the size is negative or
goes past their end. -/
def NoElement (bytes : Bytes) : Prop :=
  ∀ size rest, bytes = encodeWord size ++ rest → size.toInt < 0 ∨ (rest.length : ℤ) < size.toInt

/-- A message that is well formed. -/
def IsMessage (content : Bytes) : Prop := ∃ m : Sent, m.WellFormed ∧ m.encode = content

/-- What begins as a bundle does, up to the end of its timetag. -/
def IsBundle (content : Bytes) : Prop :=
  ∃ rest, 8 ≤ rest.length ∧ content = encodeString (ascii "#bundle") ++ rest

/-- A packet as it is sent: a message, a bundle with what is left after its last element, or bytes
that are neither. -/
inductive Packet where
  | message (m : Sent)
  | bundle (high low : BitVec 32) (elements : List Packet) (tail : Bytes)
  | other (content : Bytes)

namespace Packet

mutual

/-- Its bytes. -/
def encode : Packet → Bytes
  | message m => m.encode
  | bundle high low elements tail =>
    encodeString (ascii "#bundle") ++ encodeWord high ++ encodeWord low ++ encodeAll elements ++ tail
  | other content => content

/-- The bytes of elements, each with its size. -/
def encodeAll : List Packet → Bytes
  | [] => []
  | p :: elements => element p.encode ++ encodeAll elements

end

mutual

/-- The messages in it, in order. -/
def messages : Packet → List Sent
  | message m => [m]
  | bundle _ _ elements _ => messagesAll elements
  | other _ => []

/-- The messages in elements. -/
def messagesAll : List Packet → List Sent
  | [] => []
  | p :: elements => p.messages ++ messagesAll elements

end

mutual

/-- The packet, and every packet in it that no element of no bytes stands before. -/
def parts : Packet → List Packet
  | message m => [message m]
  | bundle high low elements tail => bundle high low elements tail :: partsAll elements
  | other content => [other content]

/-- Every such packet in elements. -/
def partsAll : List Packet → List Packet
  | [] => []
  | p :: elements => p.parts ++ if p.encode = [] then [] else partsAll elements

end

mutual

/-- The packet with these contents in place of those of its blobs. -/
def fill (f : Bytes → Bytes) : Packet → Packet
  | message m => message { m with arguments := m.arguments.map (Argument.fill f) }
  | bundle high low elements tail => bundle high low (fillAll f elements) tail
  | other content => other content

/-- The elements with these contents. -/
def fillAll (f : Bytes → Bytes) : List Packet → List Packet
  | [] => []
  | p :: elements => p.fill f :: fillAll f elements

end

mutual

/-- The messages in it are well formed, its bundles end where no further element begins, and what
is said to be neither a message nor a bundle is neither. -/
def WellFormed : Packet → Prop
  | message m => m.WellFormed
  | bundle _ _ elements tail => WellFormedAll elements ∧ NoElement tail
  | other content => ¬ IsMessage content ∧ ¬ IsBundle content

/-- Elements are well formed. -/
def WellFormedAll : List Packet → Prop
  | [] => True
  | p :: elements => p.WellFormed ∧ WellFormedAll elements

end

end Packet

end WebLinked.Control.Osc
