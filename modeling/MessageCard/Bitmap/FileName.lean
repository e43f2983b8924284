import MessageCard.Digest.Sha256

/-!
# File names for bitmaps

A bitmap is filed under a digest, of a key that it was given or else of its URL. The extension of
the URL's path may be added, if it looks like one; the query and the fragment of the URL play no
part in it.
-/
namespace MessageCard.Bitmap

/-- The most letters of an extension. -/
def extensionLimit : Nat := 5

def isLetterOrDigit (c : Char) : Bool :=
  ('a' ≤ c && c ≤ 'z') || ('A' ≤ c && c ≤ 'Z') || ('0' ≤ c && c ≤ '9')

/-- The part of a URL before its query and its fragment. -/
def pathOf (url : List Char) : List Char := url.takeWhile fun c => c ≠ '?' && c ≠ '#'

/-- What comes after the last of a character, or everything. -/
def afterLast (mark : Char) (s : List Char) : List Char :=
  (s.reverse.takeWhile (· ≠ mark)).reverse

/-- What comes before the last of a character. -/
def beforeLast (mark : Char) (s : List Char) : List Char :=
  ((s.reverse.dropWhile (· ≠ mark)).drop 1).reverse

/-- The extension of a URL, in lower case. -/
def extension? (url : List Char) : Option (List Char) :=
  let file := afterLast '/' (pathOf url)
  let letters := afterLast '.' file
  if beforeLast '.' file ≠ [] ∧ letters ≠ [] ∧ letters.length ≤ extensionLimit ∧
      letters.all isLetterOrDigit = true then
    some (letters.map Char.toLower)
  else none

/-- The file name for a URL, or for a key in its place. -/
def fileName (url : String) (key : Option String) (withExtension : Bool) : String :=
  let ending := match if withExtension then extension? url.toList else none with
    | some letters => '.' :: letters
    | none => []
  .ofList (Sha256.hexDigest (key.getD url) ++ ending)

end MessageCard.Bitmap
