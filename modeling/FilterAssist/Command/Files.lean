import FilterAssist.Table
import FilterAssist.Text.Pieces

/-! The files a run can see, and the directories it makes, as a tree. A path is followed
part by part, and the first part that leads nowhere decides what is told. -/

namespace FilterAssist.Command

inductive FileFault where
  | notFound
  | alreadyExists
  | notADirectory
  | isADirectory
  | nameTooLong
  | nulInName
  deriving DecidableEq, Repr

def FileFault.message : FileFault → String
  | .notFound => "No such file or directory (os error 2)"
  | .alreadyExists => "File exists (os error 17)"
  | .notADirectory => "Not a directory (os error 20)"
  | .isADirectory => "Is a directory (os error 21)"
  | .nameTooLong => "File name too long (os error 36)"
  | .nulInName => "file name contained an unexpected NUL byte"

/-- A path as it is written, cut at its slashes: the first part is empty if the path
starts at the top, the last if it ends in a slash. -/
structure Path where
  parts : List String
  deriving DecidableEq, Repr

namespace Path

def ofString (path : String) : Path := ⟨(Text.pieces '/' path.toList).map String.ofList⟩

def text (path : Path) : String := String.intercalate "/" path.parts

def isEmpty (path : Path) : Bool := path.parts = [""]

def startsAtTop (path : Path) : Bool := path.parts.head? = some "" && !path.isEmpty

def endsInSlash (path : Path) : Bool := path.parts.getLast? = some "" && !path.isEmpty

/-- The parts that are followed; slashes in a row count as one. -/
def names (path : Path) : List String := path.parts.filter (· != "")

def hasNul (path : Path) : Bool := path.parts.any fun part => part.toList.contains '\x00'

def isIdle (part : String) : Bool := part = "" || part = "."

/-- The paths on the way up from parts in reverse, each without idle parts at its end.
The top and the empty path are left out. -/
def upward (first : String) : List String → List Path
  | [] => if first = "" then [] else [⟨[first]⟩]
  | part :: before =>
    if isIdle part then upward first before
    else ⟨first :: (part :: before).reverse⟩ :: upward first before

def above (path : Path) : List Path :=
  match path.parts with
  | [] => []
  | first :: rest => (upward first rest.reverse).tail

end Path

inductive Node where
  | file (text : String)
  | directory (entries : List (String × Node))

abbrev Entries := List (String × Node)

/-- A directory in a tree: what is in it, and the directories around it, innermost
first, each with the name that leads inwards. -/
structure Position where
  here : Entries
  around : List (String × Entries)

namespace Position

def up (p : Position) : Position :=
  match p.around with
  | [] => p
  | (name, outer) :: around => ⟨Table.put name (.directory p.here) outer, around⟩

def down (p : Position) (name : String) (inner : Entries) : Position :=
  ⟨inner, (name, p.here) :: p.around⟩

def tree (p : Position) : Entries :=
  p.around.foldl (fun inner (name, outer) => Table.put name (.directory inner) outer) p.here

/-- Go along, making every directory that is not there. -/
def follow (p : Position) : List String → Position
  | [] => p
  | name :: names =>
    let next :=
      if name = "." then p
      else if name = ".." then p.up
      else match p.here.lookup name with
        | some (.directory inner) => p.down name inner
        | _ => p.down name []
    next.follow names

end Position

structure Files where
  top : Entries
  working : List String

namespace Files

def start (f : Files) (path : Path) : Position :=
  let top : Position := ⟨f.top, []⟩
  if path.startsAtTop then top else top.follow f.working

def addDirectory (f : Files) (path : Path) : Files :=
  { f with top := ((f.start path).follow path.names).tree }

def addFile (f : Files) (path : Path) (text : String) : Files :=
  match path.names.getLast? with
  | none => f
  | some name =>
    let p := (f.start path).follow path.names.dropLast
    { f with top := { p with here := Table.put name (.file text) p.here }.tree }

/-- An empty working directory, which has no name that a path could mention. -/
def empty : Files := ⟨[("", .directory [])], [""]⟩

def ofList (files : List (String × String)) : Files :=
  files.foldl (fun f (path, text) => f.addFile (.ofString path) text) empty

inductive Target where
  | file (text : String)
  | directory (position : Position)
  | missing

def maxName : Nat := 255

def maxPath : Nat := 4095

def step (p : Position) (name : String) : Except FileFault Target :=
  if name = "." then .ok (.directory p)
  else if name = ".." then .ok (.directory p.up)
  else if maxName < name.utf8ByteSize then .error .nameTooLong
  else match p.here.lookup name with
    | some (.file text) => .ok (.file text)
    | some (.directory inner) => .ok (.directory (p.down name inner))
    | none => .ok .missing

def walk (p : Position) : List String → Except FileFault Position
  | [] => .ok p
  | name :: names => do
    match ← step p name with
    | .directory next => walk next names
    | .file _ => .error .notADirectory
    | .missing => .error .notFound

def approach (f : Files) (path : Path) : Except FileFault Position :=
  if path.hasNul then .error .nulInName
  else if path.isEmpty then .error .notFound
  else if maxPath < path.text.utf8ByteSize then .error .nameTooLong
  else walk (f.start path) path.names.dropLast

/-- What a path leads to. With a slash at its end it cannot be a file. -/
def find (f : Files) (path : Path) : Except FileFault Target := do
  let p ← f.approach path
  match path.names.getLast? with
  | none => .ok (.directory p)
  | some name =>
    match ← step p name with
    | .file text => if path.endsInSlash then .error .notADirectory else .ok (.file text)
    | target => .ok target

def exists? (f : Files) (path : String) : Bool :=
  match f.find (.ofString path) with
  | .ok .missing | .error _ => false
  | .ok _ => true

def read (f : Files) (path : String) : Except FileFault String :=
  match f.find (.ofString path) with
  | .ok (.file text) => .ok text
  | .ok (.directory _) => .error .isADirectory
  | .ok .missing => .error .notFound
  | .error fault => .error fault

def isDirectory (f : Files) (path : Path) : Bool := f.find path matches .ok (.directory _)

def makeDirectory (f : Files) (path : Path) : Except FileFault Files := do
  let p ← f.approach path
  match path.names.getLast? with
  | none => .error .alreadyExists
  | some name =>
    match ← step p name with
    | .missing => .ok { f with top := (p.down name []).tree }
    | _ => .error .alreadyExists

def ensureDirectory (f : Files) (path : Path) : Except FileFault Files :=
  match f.makeDirectory path with
  | .error .alreadyExists => if f.isDirectory path then .ok f else .error .alreadyExists
  | result => result

/-- Make sure that the first directory is there, and all on the way to it, which follow. -/
def ensureWay (f : Files) : List Path → Except FileFault Files
  | [] => .ok f
  | path :: above =>
    match f.ensureDirectory path with
    | .error .notFound => (f.ensureWay above).bind fun f => f.ensureDirectory path
    | result => result

def ensureParent (f : Files) (path : String) : Except FileFault Files :=
  f.ensureWay (Path.ofString path).above

/-- Open a file for writing, new or not. A path that ends in a slash or in a step is no
path of a file. -/
def openForWriting (f : Files) (path : String) : Except FileFault Unit := do
  let path := Path.ofString path
  let p ← f.approach path
  match path.names.getLast? with
  | none | some "." | some ".." => .error .isADirectory
  | some name =>
    if path.endsInSlash then .error .isADirectory
    else match ← step p name with
      | .directory _ => .error .isADirectory
      | _ => .ok ()

end Files

end FilterAssist.Command
