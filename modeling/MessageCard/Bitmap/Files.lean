import MessageCard.Bitmap.Loader
import MessageCard.FileTree

/-!
# Images from files

A URL may name a file below a directory, with or without the scheme of files. It must not lead out
of the directory: the path it names neither begins at the root nor goes up anywhere.
-/
namespace MessageCard.ImageFiles

/-- What stands between a scheme and the rest of a URL. -/
def schemeEnd : List Char := [':', '/', '/']

/-- Whether a text holds a URL's mark of a scheme. -/
def hasScheme : List Char → Bool
  | [] => false
  | c :: rest => schemeEnd.isPrefixOf (c :: rest) || hasScheme rest

/-- The scheme of files. -/
def fileScheme : List Char := ['f', 'i', 'l', 'e', ':', '/', '/']

/-- A URL without the scheme of files, as often as it stands there. -/
def withoutScheme : List Char → List Char
  | 'f' :: 'i' :: 'l' :: 'e' :: ':' :: '/' :: '/' :: rest => withoutScheme rest
  | s => s

/-- Whether a path leads nowhere but down from where it begins. -/
def leadsDown (path : List Char) : Bool :=
  (FilePath.parts path).all fun
    | .root | .up => false
    | .here | .name _ => true

/-- The error of a file that cannot be read. -/
def ofFileError (url : String) : FileError → ImageError
  | .notFound => .notFound url
  | e => .transport e.message

/-- The file that a URL names below a directory. Files are read by `readFile`. -/
def fetchFrom {m : Type → Type} [Monad m] {α : Type} (readFile : List Char → m (Except FileError α))
    (base : List Char) (url : String) : m (Except ImageError α) :=
  let s := url.toList
  if hasScheme s = true ∧ fileScheme.isPrefixOf s = false then
    return .error (.transport ("unsupported scheme in " ++ url))
  else
    let path := withoutScheme s
    if leadsDown path then do
      return (← readFile (FilePath.join base path)).mapError (ofFileError url)
    else return .error (.outsideBase url)

/-- The file that a URL names in a tree. -/
def fetch (t : FileTree) (url : String) : Except ImageError String :=
  Id.run (fetchFrom (fun path => pure (t.readPath (.ofList path))) [] url)

end MessageCard.ImageFiles
