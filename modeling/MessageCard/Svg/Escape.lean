/-!
# Text in XML

The five characters that mean something in XML are written as entities. The text is gone through
once for each of them, ampersands first, so that no entity is escaped again.
-/
namespace MessageCard.Svg

/-- A text with every occurrence of a character replaced. -/
def replaceChar (c : Char) (written s : List Char) : List Char :=
  s.flatMap fun d => if d = c then written else [d]

/-- The entity of a character; most characters stand for themselves. -/
def entity (c : Char) : List Char :=
  match c with
  | '&' => ['&', 'a', 'm', 'p', ';']
  | '<' => ['&', 'l', 't', ';']
  | '>' => ['&', 'g', 't', ';']
  | '"' => ['&', 'q', 'u', 'o', 't', ';']
  | '\'' => ['&', 'a', 'p', 'o', 's', ';']
  | c => [c]

/-- The characters that have an entity, in the order in which they are replaced. -/
def special : List Char := ['&', '<', '>', '"', '\'']

/-- A text as it is written in XML. -/
def escape (s : List Char) : List Char :=
  special.foldl (fun s c => replaceChar c (entity c) s) s

end MessageCard.Svg
