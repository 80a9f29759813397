import ReceiptPrinter.Files.Access
import ReceiptPrinter.Files.Path

/-! # Disks — files in memory

    A disk holds files at places, a place being the names that lead to it from the
    root.  Directories are the beginnings of places.  A path is followed name by
    name, from the working directory or from the root, and `..` at the root stays
    there. -/

namespace ReceiptPrinter

/-- The names that lead from the root to a file or a directory. -/
abbrev Place := List String

/-- Files in memory, and the directory that paths start from. -/
structure Disk where
  files : List (Place × Array UInt8)
  working : Place

/-- What a path leads to. -/
inductive Target where
  | file (place : Place) (content : Array UInt8)
  | directory
  /-- Nothing yet, in a directory that is there. -/
  | vacant (place : Place)

namespace Disk

/-- The greatest length of a name in bytes. -/
def maxName : Nat := 255

/-- The greatest length of a path in bytes. -/
def maxPath : Nat := 4095

/-- The content of the file at a place. -/
def content? (d : Disk) (place : Place) : Option (Array UInt8) :=
  d.files.lookup place

/-- Whether a place that is no file is a directory. -/
def hasDirectory (d : Disk) (place : Place) : Bool :=
  place.isPrefixOf d.working || d.files.any fun file => place.isPrefixOf file.1

/-- What names lead to from a directory. -/
def follow (d : Disk) (here : Place) : List String → Except FileFault Target
  | [] => .ok .directory
  | name :: rest =>
    if name = "" ∨ name = "." then d.follow here rest
    else if name = ".." then d.follow here.dropLast rest
    else if maxName < name.utf8ByteSize then .error .nameTooLong
    else
      let there := here ++ [name]
      match d.content? there with
      | some content => if rest.isEmpty then .ok (.file there content) else .error .notDirectory
      | none =>
        if d.hasDirectory there then d.follow there rest
        else if rest.isEmpty then .ok (.vacant there)
        else .error .notFound

/-- The directory that a path starts from. -/
def start (d : Disk) (path : String) : Place :=
  if Path.isAbsolute path then [] else d.working

/-- What is wrong with a path whatever the disk holds. -/
def pathFault? (path : String) : Option FileFault :=
  if path.toList.contains '\x00' then some .nulInPath
  else if path = "" then some .notFound
  else if maxPath < path.utf8ByteSize then some .nameTooLong
  else none

/-- What a path leads to. -/
def target (d : Disk) (path : String) : Except FileFault Target :=
  match pathFault? path with
  | some fault => .error fault
  | none => d.follow (d.start path) ((Path.segments path).map String.ofList)

/-- The content of a file. -/
def read (d : Disk) (path : String) : Except FileFault Bytes :=
  match d.target path with
  | .error fault => .error fault
  | .ok (.file _ content) => .ok content.toList
  | .ok .directory => .error .isDirectory
  | .ok (.vacant _) => .error .notFound

/-- A path without slashes at its end. -/
def withoutSlashes (path : String) : String :=
  String.ofList (path.toList.reverse.dropWhile (· == '/')).reverse

/-- What is wrong with writing to a path that ends in a slash.  Such a path names a
    directory, whether it is there or not, in one that has to be there. -/
def slashFault (d : Disk) (path : String) : FileFault :=
  let names := (Path.segments (withoutSlashes path)).map String.ofList
  match d.follow (d.start path) names.dropLast with
  | .error fault => fault
  | .ok (.file ..) => .notDirectory
  | .ok (.vacant _) => .notFound
  | .ok .directory => .isDirectory

/-- The place of the file that writing to a path empties or makes. -/
def writable (d : Disk) (path : String) : Except FileFault Place :=
  if path.toList.getLast? == some '/' then
    .error ((pathFault? path).getD (d.slashFault path))
  else
    match d.target path with
    | .error fault => .error fault
    | .ok (.file place _) => .ok place
    | .ok .directory => .error .isDirectory
    | .ok (.vacant place) => .ok place

/-- Files with an empty one at a place. -/
def emptied (place : Place) : List (Place × Array UInt8) → List (Place × Array UInt8)
  | [] => [(place, #[])]
  | (p, content) :: rest =>
    if p = place then (p, #[]) :: rest else (p, content) :: emptied place rest

/-- Files with bytes added to the end of the one at a place. -/
def extended (place : Place) (data : Bytes) :
    List (Place × Array UInt8) → List (Place × Array UInt8)
  | [] => []
  | (p, content) :: rest =>
    if p = place then (p, content.appendList data) :: rest
    else (p, content) :: extended place data rest

/-- Empties or makes the file at a path, and tells its place. -/
def create (d : Disk) (path : String) : Except FileFault Place × Disk :=
  match d.writable path with
  | .error fault => (.error fault, d)
  | .ok place => (.ok place, { d with files := emptied place d.files })

/-- Adds bytes to the end of the file at a place. -/
def append (d : Disk) (place : Place) (data : Bytes) : Disk :=
  { d with files := extended place data d.files }

/-- The disk that holds files at paths seen from a working directory. -/
def ofFiles (working : Place) (files : List (String × Bytes)) : Disk where
  files := files.map fun (path, content) =>
    (working ++ ((Path.segments path).filter (!Path.isHollow ·)).map String.ofList,
      content.toArray)
  working := working

/-- A file is not found by the place of another. -/
theorem lookup_cons_of_ne {p place : Place} (h : ¬ p = place) (content : Array UInt8)
    (rest : List (Place × Array UInt8)) :
    ((p, content) :: rest).lookup place = rest.lookup place := by
  rw [List.lookup_cons, beq_eq_false_iff_ne.mpr fun e => h e.symm]

/-- A file that was emptied is empty. -/
theorem lookup_emptied (place : Place) (files : List (Place × Array UInt8)) :
    (emptied place files).lookup place = some #[] := by
  induction files with
  | nil => rw [emptied, List.lookup_cons_self]
  | cons file rest ih =>
      obtain ⟨p, content⟩ := file
      rw [emptied]
      split
      next h => rw [h, List.lookup_cons_self]
      next h => rw [lookup_cons_of_ne h, ih]

/-- Adding bytes to a file appends them to its content. -/
theorem lookup_extended (place : Place) (data : Bytes) (files : List (Place × Array UInt8)) :
    (extended place data files).lookup place =
      (files.lookup place).map fun content => content.appendList data := by
  induction files with
  | nil => rfl
  | cons file rest ih =>
      obtain ⟨p, content⟩ := file
      rw [extended]
      split
      next h => rw [h, List.lookup_cons_self, List.lookup_cons_self, Option.map_some]
      next h => rw [lookup_cons_of_ne h, lookup_cons_of_ne h, ih]

end Disk

/-- A disk gives access to its files. -/
instance : FileAccess (StateM Disk) Place where
  read path := do return (← get).read path
  create path := modifyGet fun d => d.create path
  write place data := modifyGet fun d => (.ok (), d.append place data)
  pause _ := pure ()

end ReceiptPrinter
