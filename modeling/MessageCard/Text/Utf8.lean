/-!
# Decoding UTF-8

Bytes are decoded up to the first that does not continue a character: text that is followed by such
bytes is not lost, and the reader of the text can say where it breaks off.
-/
namespace MessageCard.Utf8

/-- The payload of a continuation byte. -/
def continuation? (b : UInt8) : Option Nat :=
  if 0x80 ≤ b ∧ b ≤ 0xBF then some (b.toNat - 0x80) else none

/-- The number made of a lead and its continuation bytes. -/
def join (lead : Nat) (rest : List UInt8) : Option Nat :=
  rest.foldl (fun n b => n.bind fun n => (continuation? b).map (n * 64 + ·)) (some lead)

/-- A character of the code `n?`, if it is one and needs no shorter encoding. -/
def scalar? (least : Nat) (n? : Option Nat) : Option Char :=
  n?.bind fun n =>
    if least ≤ n ∧ n.isValidChar then some (Char.ofNat n) else none

/-- The first character of some bytes, and the bytes after it. -/
def next? : List UInt8 → Option (Char × List UInt8)
  | [] => none
  | a :: rest =>
    if a < 0x80 then some (Char.ofNat a.toNat, rest)
    else
      let take (count lead least : Nat) : Option (Char × List UInt8) :=
        if (rest.take count).length < count then none
        else (scalar? least (join lead (rest.take count))).map (·, rest.drop count)
      if 0xC2 ≤ a ∧ a ≤ 0xDF then take 1 (a.toNat - 0xC0) 0x80
      else if 0xE0 ≤ a ∧ a ≤ 0xEF then take 2 (a.toNat - 0xE0) 0x800
      else if 0xF0 ≤ a ∧ a ≤ 0xF4 then take 3 (a.toNat - 0xF0) 0x10000
      else none

/-- The characters of at most `fuel` characters' worth of bytes, and whether all bytes were used. -/
def decodeAux : Nat → List UInt8 → List Char × Bool
  | _, [] => ([], true)
  | 0, _ => ([], false)
  | fuel + 1, bytes =>
    match next? bytes with
    | none => ([], false)
    | some (c, rest) =>
      let (cs, whole) := decodeAux fuel rest
      (c :: cs, whole)

/-- The characters up to the first byte that does not continue the text, and whether that is the
end. -/
def decode (bytes : List UInt8) : List Char × Bool := decodeAux bytes.length bytes

/-- The bytes of a text. -/
def encode (s : String) : List UInt8 := s.toUTF8.toList

end MessageCard.Utf8
