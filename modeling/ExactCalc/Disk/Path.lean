/-
  ExactCalc.Disk.Path — paths of files and folders, as `CalcSettings` joins them and
  `HistoryStore` follows them.

  A path is the list of its parts, from the root or from the working folder. Empty parts
  and `.` say nothing and are dropped; `..` stays, since only the disk tells where it
  leads. Two slashes in front are kept apart from one; three and more count as one.
-/

namespace ExactCalc

/-- What stands before the first part. -/
inductive Anchor where
  | relative
  | root
  | doubleRoot
  deriving DecidableEq

namespace Anchor

def ofSlashes : Nat → Anchor
  | 0 => relative
  | 2 => doubleRoot
  | _ => root

def text : Anchor → String
  | relative => ""
  | root => "/"
  | doubleRoot => "//"

end Anchor

structure Path where
  anchor : Anchor
  parts : List String
  deriving DecidableEq

namespace Path

def ofText (s : String) : Path :=
  ⟨Anchor.ofSlashes (s.toList.takeWhile (· == '/')).length,
    (s.splitOn "/").filter fun part => part != "" && part != "."⟩

def text (p : Path) : String :=
  if p.anchor = .relative ∧ p.parts = [] then "."
  else p.anchor.text ++ "/".intercalate p.parts

def isAbsolute (p : Path) : Bool := p.anchor != .relative

/-- The second path as seen from the first. -/
def join (p q : Path) : Path :=
  if q.isAbsolute then q else ⟨p.anchor, p.parts ++ q.parts⟩

/-- The last part; a root and the working folder have none. -/
def name? (p : Path) : Option String := p.parts.getLast?

def name (p : Path) : String := p.name?.getD ""

def parent (p : Path) : Path := ⟨p.anchor, p.parts.dropLast⟩

/-- Another path in the same folder. -/
def withName (p : Path) (name : String) : Path := ⟨p.anchor, p.parts.dropLast ++ [name]⟩

/-- The path with a home folder in place of a leading `~`: one's own, or that of the user who is
named after it. -/
def expandHome (p home : Path) (homes : List (String × Path)) : Option Path :=
  match p.anchor, p.parts with
  | .relative, first :: rest =>
    match first.toList with
    | ['~'] => some ⟨home.anchor, home.parts ++ rest⟩
    | '~' :: user =>
      (homes.lookup (String.ofList user)).map fun found => ⟨found.anchor, found.parts ++ rest⟩
    | _ => some p
  | _, _ => some p

end Path

end ExactCalc
