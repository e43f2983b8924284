import MessageCard.Text.Utf8

/-!
# SHA-256

The digest of bytes has eight words of 32 bits. The bytes are followed by a one bit, by zeros up to
the last eight bytes of a block of 64, and by their number of bits. Each block then changes the
eight words in 64 rounds, every one with its own constant and its own word made from the block.
-/
namespace MessageCard.Sha256

/-- The eight words that the rounds change. -/
structure Words where
  a : UInt32
  b : UInt32
  c : UInt32
  d : UInt32
  e : UInt32
  f : UInt32
  g : UInt32
  h : UInt32
  deriving DecidableEq

namespace Words

/-- The words before the first block. -/
def initial : Words :=
  ⟨0x6a09e667, 0xbb67ae85, 0x3c6ef372, 0xa54ff53a, 0x510e527f, 0x9b05688c, 0x1f83d9ab, 0x5be0cd19⟩

def toList (w : Words) : List UInt32 := [w.a, w.b, w.c, w.d, w.e, w.f, w.g, w.h]

/-- Two sets of words added one by one. -/
def add (v w : Words) : Words :=
  ⟨v.a + w.a, v.b + w.b, v.c + w.c, v.d + w.d, v.e + w.e, v.f + w.f, v.g + w.g, v.h + w.h⟩

end Words

/-- The constants of the rounds. -/
def constants : List UInt32 :=
  [0x428a2f98, 0x71374491, 0xb5c0fbcf, 0xe9b5dba5, 0x3956c25b, 0x59f111f1, 0x923f82a4, 0xab1c5ed5,
   0xd807aa98, 0x12835b01, 0x243185be, 0x550c7dc3, 0x72be5d74, 0x80deb1fe, 0x9bdc06a7, 0xc19bf174,
   0xe49b69c1, 0xefbe4786, 0x0fc19dc6, 0x240ca1cc, 0x2de92c6f, 0x4a7484aa, 0x5cb0a9dc, 0x76f988da,
   0x983e5152, 0xa831c66d, 0xb00327c8, 0xbf597fc7, 0xc6e00bf3, 0xd5a79147, 0x06ca6351, 0x14292967,
   0x27b70a85, 0x2e1b2138, 0x4d2c6dfc, 0x53380d13, 0x650a7354, 0x766a0abb, 0x81c2c92e, 0x92722c85,
   0xa2bfe8a1, 0xa81a664b, 0xc24b8b70, 0xc76c51a3, 0xd192e819, 0xd6990624, 0xf40e3585, 0x106aa070,
   0x19a4c116, 0x1e376c08, 0x2748774c, 0x34b0bcb5, 0x391c0cb3, 0x4ed8aa4a, 0x5b9cca4f, 0x682e6ff3,
   0x748f82ee, 0x78a5636f, 0x84c87814, 0x8cc70208, 0x90befffa, 0xa4506ceb, 0xbef9a3f7, 0xc67178f2]

/-- A word turned to the right. -/
def rotate (x : UInt32) (n : UInt32) : UInt32 := (x >>> n) ||| (x <<< (32 - n))

/-- One round, with its constant and its word. -/
def round (k x : UInt32) (w : Words) : Words :=
  let mixed := rotate w.e 6 ^^^ rotate w.e 11 ^^^ rotate w.e 25
  let choice := (w.e &&& w.f) ^^^ ((~~~w.e) &&& w.g)
  let s := w.h + mixed + choice + k + x
  let mixed := rotate w.a 2 ^^^ rotate w.a 13 ^^^ rotate w.a 22
  let majority := (w.a &&& w.b) ^^^ (w.a &&& w.c) ^^^ (w.b &&& w.c)
  ⟨s + mixed + majority, w.a, w.b, w.c, w.d + s, w.e, w.f, w.g⟩

/-- The words of the next sixteen rounds, one round further on. -/
def slide (window : List UInt32) : List UInt32 :=
  let early := window.getD 1 0
  let late := window.getD 14 0
  let next := window.getD 0 0 + (rotate early 7 ^^^ rotate early 18 ^^^ (early >>> 3)) +
    window.getD 9 0 + (rotate late 17 ^^^ rotate late 19 ^^^ (late >>> 10))
  window.drop 1 ++ [next]

/-- The rounds with the given constants. -/
def rounds : List UInt32 → List UInt32 → Words → Words
  | [], _, w => w
  | k :: ks, window, w => rounds ks (slide window) (round k (window.headD 0) w)

/-- The words after one more block. -/
def absorb (w : Words) (block : List UInt32) : Words := w.add (rounds constants block w)

/-- A number as bytes, the greatest place first. -/
def bigEndian (count n : Nat) : List UInt8 :=
  (List.range count).map fun i => UInt8.ofNat (n >>> (8 * (count - 1 - i)))

/-- Bytes filled up to whole blocks. -/
def pad (bytes : List UInt8) : List UInt8 :=
  bytes ++ 0x80 :: (List.replicate ((119 - bytes.length % 64) % 64) 0 ++
    bigEndian 8 (8 * bytes.length))

/-- Bytes as words of four bytes. -/
def wordsOf : List UInt8 → List UInt32
  | a :: b :: c :: d :: rest =>
    ((a.toUInt32 <<< 24) ||| (b.toUInt32 <<< 16) ||| (c.toUInt32 <<< 8) ||| d.toUInt32) ::
      wordsOf rest
  | _ => []

/-- The blocks of some words. -/
def blocks (words : List UInt32) : List (List UInt32) :=
  (List.range (words.length / 16)).map fun i => (words.drop (16 * i)).take 16

/-- The digest of bytes. -/
def digest (bytes : List UInt8) : Words :=
  (blocks (wordsOf (pad bytes))).foldl absorb .initial

/-- The hexadecimal digits of a number, a fixed count of them. -/
def hexDigits (count n : Nat) : List Char :=
  (List.range count).map fun i =>
    let digit := (n >>> (4 * (count - 1 - i))) % 16
    Char.ofNat (if digit < 10 then 48 + digit else 87 + digit)

/-- The digest of a text as 64 hexadecimal digits. -/
def hexDigest (text : String) : List Char :=
  (digest (Utf8.encode text)).toList.flatMap fun word => hexDigits 8 word.toNat

theorem length_hexDigits (count n : Nat) : (hexDigits count n).length = count := by
  simp [hexDigits]

theorem length_hexDigest (text : String) : (hexDigest text).length = 64 := by
  simp [hexDigest, Words.toList, length_hexDigits]

end MessageCard.Sha256
