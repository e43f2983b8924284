import MessageCard.Bitmap

/-!
# Reading PNG files

A PNG file is a signature and chunks, each with its length, its kind and a checksum. The first chunk
tells the size of the picture. The picture is whole when all its data chunks are there and another
chunk begins after them; the compressed pixels are passed over.
-/
namespace MessageCard.Png

/-- One bit of the checksum. -/
def checkBit (c : UInt32) : UInt32 :=
  if c &&& 1 = 0 then c >>> 1 else (c >>> 1) ^^^ 0xedb88320

/-- One byte of the checksum. -/
def checkByte (c : UInt32) (b : UInt8) : UInt32 :=
  (List.range 8).foldl (fun c _ => checkBit c) (c ^^^ b.toUInt32)

/-- The checksum of bytes. -/
def checksum (bytes : List UInt8) : UInt32 :=
  bytes.foldl checkByte 0xffffffff ^^^ 0xffffffff

/-- A number of any count of bytes, the greatest place first. -/
def number (bytes : List UInt8) : Nat := bytes.foldl (fun n b => 256 * n + b.toNat) 0

/-- A part of a PNG file. -/
structure Chunk where
  kind : List UInt8
  data : List UInt8

/-- The chunk at the start of some bytes, and the bytes after it. -/
def chunk? (bytes : List UInt8) : Option (Chunk × List UInt8) :=
  let length := number (bytes.take 4)
  let body := (bytes.drop 4).take (4 + length)
  let rest := bytes.drop (8 + length)
  if rest.length < 4 ∨ number (rest.take 4) ≠ (checksum body).toNat then none
  else some (⟨body.take 4, body.drop 4⟩, rest.drop 4)

def signature : List UInt8 := [0x89, 0x50, 0x4e, 0x47, 0x0d, 0x0a, 0x1a, 0x0a]

def headerKind : List UInt8 := [0x49, 0x48, 0x44, 0x52]

def dataKind : List UInt8 := [0x49, 0x44, 0x41, 0x54]

def endKind : List UInt8 := [0x49, 0x45, 0x4e, 0x44]

/-- The depths in bits that a kind of color allows. -/
def depths : UInt8 → List UInt8
  | 0 => [1, 2, 4, 8, 16]
  | 2 | 4 | 6 => [8, 16]
  | 3 => [1, 2, 4, 8]
  | _ => []

/-- The size that the first chunk tells. -/
def sizeOfHeader? (c : Chunk) : Option PixelSize :=
  match c.data.drop 8 with
  | [depth, color, 0, 0, interlace] =>
    let size : PixelSize := ⟨number (c.data.take 4), number ((c.data.drop 4).take 4)⟩
    if c.kind = headerKind ∧ size.width ≠ 0 ∧ size.height ≠ 0 ∧
        (depths color).contains depth = true ∧ interlace ≤ 1 then some size
    else none
  | _ => none

/-- Whether another chunk begins that does not go on with the data. -/
def endsData (bytes : List UInt8) : Bool :=
  8 ≤ bytes.length && (bytes.drop 4).take 4 != dataKind

/-- Whether the data of a picture are whole, some of them being seen or not. -/
def hasData : Nat → Bool → List UInt8 → Bool
  | 0, _, _ => false
  | fuel + 1, seen, bytes =>
    if seen && endsData bytes then true
    else match chunk? bytes with
      | some (c, rest) =>
        if c.kind = endKind then false else hasData fuel (seen || c.kind = dataKind) rest
      | none => false

/-- Whether bytes claim to be a PNG file. -/
def isPng (bytes : List UInt8) : Bool := signature.isPrefixOf bytes

/-- The size of the picture of a PNG file. -/
def read? (bytes : List UInt8) : Option PixelSize := do
  let (c, rest) ← chunk? (bytes.drop 8)
  let size ← sizeOfHeader? c
  if hasData rest.length false rest then some size else none

end MessageCard.Png
