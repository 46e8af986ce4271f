import Cycle6502.Image.HexRecord
import Cycle6502.Memory
import Cycle6502.Text.Blank

/-! Program images: bytes and the address of the first, from raw bytes or from Intel HEX. -/

set_option autoImplicit false

namespace Cycle6502

inductive ErrorKind where
  | notFound
  | isDirectory
  | notADirectory
  | permissionDenied
  | invalidName
  | invalidInput
  | invalidData
  | other
  deriving DecidableEq, Repr

structure Image where
  base : UInt16
  data : List UInt8
  deriving DecidableEq, Repr, Inhabited

namespace Image

/-- What is wrong with the contents of an image. Lines are counted from one. -/
inductive Fault where
  | empty
  | tooLarge (length : Nat) (base : UInt16)
  | record (line : Nat) (error : HexRecord.Error)
  | dataPastEnd (line : Nat)
  | badSegment (line : Nat)
  | noData
  deriving DecidableEq, Repr

def Fault.message : Fault → String
  | .empty => "image is empty"
  | .tooLarge length base =>
    "image too large: " ++ toString length ++ " bytes at 0x" ++ Text.hexWord base
      ++ " runs past 0xFFFF"
  | .record line e => "line " ++ toString line ++ ": " ++ e.message
  | .dataPastEnd line => "line " ++ toString line ++ ": data runs past the 64K address space"
  | .badSegment line => "line " ++ toString line ++ ": bad segment record"
  | .noData => "Intel HEX file has no data records"

structure Error where
  kind : ErrorKind
  fault : Fault
  deriving DecidableEq, Repr

def Error.message (e : Error) : String := e.fault.message

def invalid (fault : Fault) : Error := ⟨.invalidData, fault⟩

/-- The image of raw bytes, which must fit below the end of the address space. -/
def ofBytes (data : List UInt8) (base : UInt16) : Except Error Image :=
  if data.isEmpty then .error (invalid .empty)
  else if 0x10000 < base.toNat + data.length then .error (invalid (.tooLarge data.length base))
  else .ok ⟨base, data⟩

/-- The state of reading Intel HEX: the segment's address, and the data so far, latest first. -/
structure Assembly where
  segment : Nat := 0
  blocks : List (Nat × List UInt8) := []
  deriving DecidableEq, Repr, Inhabited

namespace Assembly

/-- Takes up the record of a line. Types other than data and segment mean nothing. -/
def add (a : Assembly) (line : Nat) (r : HexRecord) : Except Error Assembly :=
  if r.kind = 0 then
    let addr := a.segment + r.addr.toNat
    if 0x10000 < addr + r.data.length then .error (invalid (.dataPastEnd line))
    else if r.data.isEmpty then .ok a
    else .ok { a with blocks := (addr, r.data) :: a.blocks }
  else if r.kind = 2 then
    match r.data with
    | [high, low] => .ok { a with segment := 16 * (wordOf low high).toNat }
    | _ => .error (invalid (.badSegment line))
  else .ok a

/-- Reads lines up to the end or an end-of-file record; the first has the number `line`. -/
def addLines (line : Nat) (a : Assembly) : List (List Char) → Except Error Assembly
  | [] => .ok a
  | text :: rest =>
    let text := Text.trim text
    if text.isEmpty then addLines (line + 1) a rest
    else match HexRecord.parse (String.ofList text).toUTF8.data.toList with
      | .error e => .error (invalid (.record line e))
      | .ok r =>
        if r.kind = 1 then .ok a
        else match a.add line r with
          | .error e => .error e
          | .ok a => addLines (line + 1) a rest

def extent? (a : Assembly) : Option (Nat × Nat) :=
  a.blocks.foldl (fun extent (addr, data) =>
    match extent with
    | none => some (addr, addr + data.length)
    | some (low, high) => some (min low addr, max high (addr + data.length))) none

/-- All of memory, with the blocks put over one another in the order they were read; bytes of no
block are all ones. -/
def memory (a : Assembly) : Vector UInt8 0x10000 :=
  a.blocks.foldr (fun (addr, data) bytes => Memory.put bytes addr data)
    (Vector.replicate 0x10000 0xFF)

def image (a : Assembly) : Except Error Image :=
  match a.extent? with
  | none => .error (invalid .noData)
  | some (low, high) => .ok ⟨UInt16.ofNat low, (a.memory.toArray.extract low high).toList⟩

end Assembly

def ofHexText (text : String) : Except Error Image := do
  let assembly ← Assembly.addLines 1 {} (Text.lines '\n' text.toList)
  assembly.image

/-- A step of the CRC-32 of IEEE 802.3, which takes the least significant bit first. -/
def crcBit (crc : UInt32) : UInt32 :=
  if crc &&& 1 = 1 then (crc >>> 1) ^^^ 0xEDB88320 else crc >>> 1

def crcByte (crc : UInt32) (b : UInt8) : UInt32 :=
  Nat.repeat crcBit 8 (crc ^^^ b.toUInt32)

def crc32 (data : List UInt8) : UInt32 := data.foldl crcByte 0xFFFFFFFF ^^^ 0xFFFFFFFF

def crc (i : Image) : UInt32 := crc32 i.data

def report (i : Image) : List Record :=
  [⟨.info, "Image loaded | " ++ toString i.data.length ++ " bytes at 0x" ++ Text.hexWord i.base
      ++ " | crc32 " ++ Text.hexLong i.crc⟩,
   ⟨.debug, "\n" ++ Text.dump i.data i.base.toNat (some 0x100)⟩]

end Image

end Cycle6502
