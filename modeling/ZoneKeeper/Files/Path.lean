import ZoneKeeper.Text.Basic

namespace ZoneKeeper.Path

def start : List Char → Nat
  | ['.'] => 1
  | '.' :: '/' :: _ => 1
  | '/' :: _ => 1
  | _ => 0

def cutLast (path : List Char) : List Char × List Char :=
  let body := path.drop (start path)
  let piece := (body.reverse.takeWhile (· != '/')).reverse
  let before := body.take (body.length - piece.length - 1)
  (path.take (start path) ++ before, piece)

def isVoid (piece : List Char) : Bool := piece == [] || piece == ['.']

/-- Drops pieces that do not count from the end; no path has more of them than characters. -/
def trimBy : Nat → List Char → List Char
  | 0, path => path
  | fuel + 1, path =>
      if path.length ≤ start path then path
      else
        let (before, piece) := cutLast path
        if isVoid piece then trimBy fuel before else path

def trim (path : List Char) : List Char := trimBy path.length path

def parentChars? (path : List Char) : Option (List Char) :=
  let path := trim path
  if path.length ≤ start path then (if path == ['.'] then some [] else none)
  else some (trim (cutLast path).1)

def parent? (path : String) : Option String := (parentChars? path.toList).map String.ofList

def fileName? (path : List Char) : Option (List Char) :=
  let path := trim path
  if path.length ≤ start path then none
  else
    let piece := (cutLast path).2
    if piece == ['.', '.'] then none else some piece

def stem (name : List Char) : List Char :=
  let extension := name.reverse.takeWhile (· != '.')
  if name.length ≤ extension.length + 1 then name
  else name.take (name.length - extension.length - 1)

def withExtension (path : String) (extension : String) : String :=
  match fileName? path.toList with
  | none => path
  | some name =>
      let trimmed := trim path.toList
      let kept := trimmed.take (trimmed.length - name.length) ++ stem name
      String.ofList kept ++ "." ++ extension

def isAbsolute (path : String) : Bool := path.toList.head? == some '/'

def pieces (path : String) : List String :=
  let pieces := ((splitOn '/' path.toList).filter (· != [])).map String.ofList
  if isAbsolute path then "/" :: pieces else pieces

def isClosed (path : String) : Bool := path.toList.getLast? == some '/'

/-- The path and those above it, up to one without a parent; each is shorter than the one before. -/
def lineageBy : Nat → String → List String
  | 0, _ => []
  | fuel + 1, path =>
      match parent? path with
      | none => []
      | some above => path :: lineageBy fuel above

def lineage (path : String) : List String := lineageBy (path.length + 1) path

end ZoneKeeper.Path
