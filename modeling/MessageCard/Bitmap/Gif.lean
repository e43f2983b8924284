import MessageCard.Bitmap.Codec

/-!
# Reading GIF files

A GIF file is a header with the size of its canvas, blocks, and a trailer. Every image block is a
frame of the size of the canvas, shown for as long as the control block before it says, in
hundredths of a second. The compressed pixels are passed over.
-/
namespace MessageCard.Gif

/-- A number of two bytes, the lesser place first. -/
def word (low high : UInt8) : Nat := low.toNat + 256 * high.toNat

/-- The bytes after some that are passed over, if there are as many. -/
def skip? (count : Nat) (bytes : List UInt8) : Option (List UInt8) :=
  if bytes.length < count then none else some (bytes.drop count)

/-- The number of bytes of a color table, given by the flags of its block. -/
def tableSize (flags : UInt8) : Nat :=
  if flags &&& 0x80 = 0 then 0 else 3 * twoTo ((flags &&& 7).toNat + 1)

/-- The bytes after a series of data blocks, each with its length before it and an empty one at the
end. -/
def skipData : Nat → List UInt8 → Option (List UInt8)
  | 0, _ => none
  | _, [] => none
  | fuel + 1, size :: rest =>
    if size = 0 then some rest else (skip? size.toNat rest).bind (skipData fuel)

/-- The frames of some blocks, up to the trailer. A frame is shown for `delay` milliseconds. -/
def frames (size : PixelSize) (hasTable : Bool) : Nat → Nat → List UInt8 → Option (List RawFrame)
  | 0, _, _ => none
  | fuel + 1, delay, bytes =>
    match bytes with
    | 0x3b :: _ => some []
    | 0x21 :: 0xf9 :: 4 :: _ :: low :: high :: _ :: 0 :: rest =>
      frames size hasTable fuel (10 * word low high) rest
    | 0x21 :: label :: rest =>
      if label = 0xf9 then none
      else (skipData rest.length rest).bind (frames size hasTable fuel delay)
    | 0x2c :: rest => do
      let flags ← rest[8]?
      let table := tableSize flags
      if table = 0 ∧ hasTable = false then none
      let data ← skip? (9 + table + 1) rest
      let rest ← skipData data.length data
      return ⟨size, delay, 1⟩ :: (← frames size hasTable fuel 0 rest)
    | _ => none

/-- What a GIF file begins with. -/
def signatures : List (List UInt8) :=
  [[0x47, 0x49, 0x46, 0x38, 0x37, 0x61], [0x47, 0x49, 0x46, 0x38, 0x39, 0x61]]

/-- Whether bytes claim to be a GIF file. -/
def isGif (bytes : List UInt8) : Bool := signatures.any fun s => s.isPrefixOf bytes

/-- The frames of a GIF file. -/
def read? (bytes : List UInt8) : Option (List RawFrame) :=
  match bytes.drop 6 with
  | w₀ :: w₁ :: h₀ :: h₁ :: flags :: _ :: _ :: rest => do
    let table := tableSize flags
    let blocks ← skip? table rest
    frames ⟨word w₀ w₁, word h₀ h₁⟩ (table ≠ 0) (blocks.length + 1) 0 blocks
  | _ => none

end MessageCard.Gif
