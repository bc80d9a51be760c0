/-
  ExactCalc.Disk.Basic — a tree of folders and files, and what `HistoryStore` does with
  it: read, make folders, write, move and remove.

  A place is the list of names from the root down; the root is always a folder. A path
  is followed name by name, and each step but the last has to lead to a folder. Relative
  paths start at the root.
-/

import ExactCalc.Bytes
import ExactCalc.Disk.Path
import ExactCalc.Table

namespace ExactCalc

inductive Node where
  | file (content : Bytes)
  | folder
  deriving DecidableEq

abbrev Place := List String

structure Disk where
  nodes : Table Place Node
  deriving DecidableEq

inductive DiskError where
  | notFound
  | inputOutput
  | alreadyThere
  | notAFolder
  | isAFolder
  | nameTooLong
  /-- A path with a zero character, which ends names on the disk. -/
  | embeddedZero
  deriving DecidableEq

def DiskError.message : DiskError → String
  | notFound => "[Errno 2] No such file or directory"
  | inputOutput => "[Errno 5] Input/output error"
  | alreadyThere => "[Errno 17] File exists"
  | notAFolder => "[Errno 20] Not a directory"
  | isAFolder => "[Errno 21] Is a directory"
  | nameTooLong => "[Errno 36] File name too long"
  | embeddedZero => "embedded null byte"

namespace Disk

def empty : Disk := ⟨Table.empty⟩

/-- Bytes of the longest name in a folder. -/
def maxNameBytes : Nat := 255

/-- Bytes of the longest path. -/
def maxPathBytes : Nat := 4095

def node? (d : Disk) (place : Place) : Option Node :=
  if place = [] then some .folder else d.nodes.get? place

/-! ## Following a path -/

/-- Where a name leads from a folder. -/
def child (place : Place) (name : String) : Except DiskError Place :=
  if name = ".." then .ok place.dropLast
  else if name.utf8ByteSize > maxNameBytes then .error .nameTooLong
  else .ok (place ++ [name])

/-- The folder of that name in a folder. -/
def enter (d : Disk) (place : Place) (name : String) : Except DiskError Place := do
  let next ← child place name
  match d.node? next with
  | some .folder => return next
  | some (.file _) => .error .notAFolder
  | none => .error .notFound

/-- The folder at the end of the names. -/
def folder (d : Disk) (names : List String) : Except DiskError Place := names.foldlM d.enter []

/-- Whether a path can be asked for at all. -/
def check (p : Path) : Except DiskError Unit :=
  if p.parts.any fun part => part.toList.contains '\x00' then .error .embeddedZero
  else if p.text.utf8ByteSize > maxPathBytes then .error .nameTooLong
  else .ok ()

/-- The place that a path names, whether or not something is there. -/
def locate (d : Disk) (p : Path) : Except DiskError Place := do
  check p
  match p.name? with
  | none => return []
  | some name => child (← d.folder p.parent.parts) name

/-- Whether there is a file or a folder at a path. -/
def holds (d : Disk) (p : Path) : Bool :=
  match d.locate p with
  | .ok place => (d.node? place).isSome
  | .error _ => false

def read (d : Disk) (p : Path) : Except DiskError Bytes := do
  match d.node? (← d.locate p) with
  | some (.file content) => return content
  | some .folder => .error .isAFolder
  | none => .error .notFound

/-! ## Changes -/

/-- Makes the folders that are missing on the way; those made before an obstacle remain. -/
def makeFolders (d : Disk) (place : Place) : List String → Except DiskError Place × Disk
  | [] => (.ok place, d)
  | name :: rest =>
    match child place name with
    | .error e => (.error e, d)
    | .ok next =>
      match d.node? next with
      | some .folder => makeFolders d next rest
      | some (.file _) => (.error .alreadyThere, d)
      | none => makeFolders ⟨d.nodes.insert next .folder⟩ next rest

/-- Makes the folder of a path, and those above it. -/
def makeParent (d : Disk) (p : Path) : Except DiskError Place × Disk :=
  match check p.parent with
  | .error e => (.error e, d)
  | .ok () => d.makeFolders [] p.parent.parts

def write (d : Disk) (p : Path) (content : Bytes) : Except DiskError Disk := do
  let place ← d.locate p
  match d.node? place with
  | some .folder => .error .isAFolder
  | _ => return ⟨d.nodes.insert place (.file content)⟩

/-- Moves a file, over another one if there is one. -/
def move (d : Disk) (source target : Path) : Except DiskError Disk := do
  let content ← d.read source
  let old ← d.locate source
  let new ← d.locate target
  match d.node? new with
  | some .folder => .error .isAFolder
  | _ => return ⟨(d.nodes.erase old).insert new (.file content)⟩

def remove (d : Disk) (p : Path) : Except DiskError Disk := do
  let place ← d.locate p
  match d.node? place with
  | some (.file _) => return ⟨d.nodes.erase place⟩
  | some .folder => .error .isAFolder
  | none => .error .notFound

/-- Removes a file; none there is fine as well. -/
def discard (d : Disk) (p : Path) : Except DiskError Disk :=
  match d.remove p with
  | .error .notFound => .ok d
  | r => r

/-! ## Temporary files -/

/-- Temporary names beside a file, one for each number. -/
def sibling (p : Path) (n : Nat) : Path :=
  let digits := n.repr
  p.withName (p.name ++ "." ++ String.ofList (List.replicate (32 - digits.length) '0') ++ digits ++
    ".tmp")

/-- The first temporary name beside a file that is free. -/
def temporary (d : Disk) (p : Path) : Path :=
  (((List.range (d.nodes.size + 1)).map (sibling p)).find? fun q => !d.holds q).getD (sibling p 0)

end Disk

end ExactCalc
