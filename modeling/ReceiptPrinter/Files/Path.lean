import ReceiptPrinter.Text.Split

/-! # Paths — joining, parents and extensions

    A path is a text whose segments stand between slashes.  Empty segments and `.`
    after the first segment are no components of it; a path that starts with a slash
    starts at the root. -/

namespace ReceiptPrinter.Path

/-- The segments of a path. -/
def segments (path : String) : List (List Char) :=
  Text.splitAtEach '/' path.toList

/-- The path with the given segments. -/
def ofSegments (parts : List (List Char)) : String :=
  String.ofList (Text.joinWith '/' parts)

/-- Whether a path starts at the root. -/
def isAbsolute (path : String) : Bool :=
  path.toList.head? == some '/'

/-- A path seen from a directory. -/
def join (base path : String) : String :=
  if isAbsolute path || base == "" then path
  else if base.toList.getLast? == some '/' then base ++ path
  else base ++ "/" ++ path

/-- Whether a segment after the first one is no component. -/
def isHollow (segment : List Char) : Bool :=
  segment == [] || segment == ['.']

/-- Segments without those at the end that are no components. -/
def dropHollowEnd : List (List Char) → List (List Char)
  | [] => []
  | first :: rest => first :: (rest.reverse.dropWhile isHollow).reverse

/-- The last component of a path and the segments before it. -/
def last? (path : String) : Option (List (List Char) × List Char) :=
  match (dropHollowEnd (segments path)).reverse with
  | [] => none
  | [[]] => none
  | name :: before => some (before.reverse, name)

/-- The directory that the last component of a path stands in. -/
def parent? (path : String) : Option String :=
  (last? path).map fun (before, _) =>
    match dropHollowEnd before with
    | [[]] => "/"
    | parts => ofSegments parts

/-- A name up to its last point.  A point at the start of a name ends nothing. -/
def stem (name : List Char) : List Char :=
  match name.reverse.dropWhile (· != '.') with
  | _ :: before => if before.isEmpty then name else before.reverse
  | [] => name

/-- A name with another extension in place of its own.  What is left of a name such
    as `..x` when its extension is taken off leads to the directory above, which can
    have none. -/
def renamed (name : List Char) (extension : String) : List Char :=
  if stem name == ['.'] then ['.', '.'] else stem name ++ '.' :: extension.toList

/-- A path with another extension in place of the one that its last component has. -/
def withExtension (path extension : String) : String :=
  match last? path with
  | none => path
  | some (before, name) =>
    if name == ['.'] || name == ['.', '.'] then path
    else ofSegments (before ++ [renamed name extension])

end ReceiptPrinter.Path
