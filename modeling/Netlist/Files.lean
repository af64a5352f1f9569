-- Files by path. A tree of files and folders stands for a file system that nobody else
-- uses: a path is walked from the working folder, or from the top one if it begins with a
-- slash.

namespace Netlist

/-- Why a file cannot be read or written. -/
inductive FileError where
  | notFound
  | notAFolder
  | isAFolder
  | notText
  | nulByte
  | nameTooLong
  | other (reason : String)
  deriving DecidableEq, Repr

def FileError.message : FileError → String
  | notFound => "No such file or directory (os error 2)"
  | notAFolder => "Not a directory (os error 20)"
  | isAFolder => "Is a directory (os error 21)"
  | notText => "stream did not contain valid UTF-8"
  | nulByte => "file name contained an unexpected NUL byte"
  | nameTooLong => "File name too long (os error 36)"
  | other reason => reason

/-- Access to files, for programs that run on a tree of files as well as on a disk. -/
class FileAccess (m : Type → Type) where
  readText : String → m (Except FileError String)
  writeText : String → String → m (Except FileError Unit)
  /-- Whether a path leads to something, be it a file or a folder. -/
  isThere : String → m Bool

/-! ## Trees of files -/

/-- What may stand at a place. -/
inductive FileNode where
  | folder
  | file (content : ByteArray)

/-- What stands at each place. A place is the list of names that lead to it from the top
folder. The working folder is always there, and so are the folders above it. -/
structure FileTree where
  home : List String
  nodes : List (List String × FileNode)

namespace FileTree

/-- A tree with nothing but a working folder. -/
def empty (home : List String) : FileTree := ⟨home, []⟩

instance : Inhabited FileTree := ⟨empty []⟩

def node? (t : FileTree) (place : List String) : Option FileNode :=
  if place.isPrefixOf t.home then some .folder
  else (t.nodes.find? fun e => e.1 == place).map (·.2)

def put (t : FileTree) (place : List String) (n : FileNode) : FileTree :=
  { t with nodes := (place, n) :: t.nodes.filter fun e => e.1 != place }

/-- What is put where no folder is stands there, and elsewhere nothing changes. -/
theorem node?_put (t : FileTree) {place : List String} (h : t.node? place ≠ some .folder)
    (n : FileNode) (q : List String) :
    (t.put place n).node? q = if q = place then some n else t.node? q := by
  have hp : place.isPrefixOf t.home = false := by
    cases hb : place.isPrefixOf t.home with
    | false => rfl
    | true => exact absurd (by simp [node?, hb]) h
  by_cases hq : q = place
  · subst hq
    simp [node?, put, hp]
  · have hne : (place == q) = false := by simpa using fun he => hq he.symm
    have hf : (fun e : List String × FileNode => !decide (e.1 = place) && decide (e.1 = q)) =
        fun e => e.1 == q := by
      funext e
      by_cases he : e.1 = q <;> simp [he, hq]
    simp [node?, put, hne, List.find?_filter, hq, hf]

/-- Puts a node at a place, and folders on the way to it. -/
def plant (t : FileTree) (place : List String) (n : FileNode) : FileTree :=
  let way := (List.range place.length).map fun i => place.take i
  let t := way.foldl (fun t p => if (t.node? p).isSome then t else t.put p .folder) t
  t.put place n

/-! ## Paths -/

/-- The longest name that a file may have, in bytes. -/
def nameLimit : Nat := 255

/-- The longest path, in bytes. -/
def pathLimit : Nat := 4095

/-- Walks the steps of a path. Each step needs a folder to start from, and above the top
folder there is only itself. -/
def walk (t : FileTree) (place : List String) : List String → Except FileError (List String)
  | [] => .ok place
  | step :: rest =>
    match t.node? place with
    | none => .error .notFound
    | some (.file _) => .error .notAFolder
    | some .folder =>
      if step = "" ∨ step = "." then t.walk place rest
      else if step = ".." then t.walk place.dropLast rest
      else if nameLimit < step.utf8ByteSize then .error .nameTooLong
      else t.walk (place ++ [step]) rest

/-- The place where a path starts, and its steps. -/
def route (t : FileTree) (path : String) : Except FileError (List String × List String) :=
  if path.isEmpty then .error .notFound
  else if path.contains '\x00' then .error .nulByte
  else if pathLimit < path.utf8ByteSize then .error .nameTooLong
  else .ok (if path.startsWith "/" then [] else t.home, path.splitOn "/")

/-- The place that a path leads to. There need not be anything at the place itself. -/
def locate (t : FileTree) (path : String) : Except FileError (List String) :=
  (t.route path).bind fun (start, steps) => t.walk start steps

/-- The steps to the folder of the name that ends a path, if a slash follows the name. Such
a path asks for a folder of that name. -/
def stepsToFolder? (steps : List String) : Option (List String) :=
  match steps.reverse with
  | "" :: back =>
    match back.dropWhile (· == "") with
    | name :: before => if name = "." ∨ name = ".." then none else some (before.reverse ++ ["."])
    | [] => none
  | _ => none

/-! ## Reading and writing -/

/-- The text at a place. -/
def textAt (t : FileTree) (place : List String) : Except FileError String :=
  match t.node? place with
  | none => .error .notFound
  | some .folder => .error .isAFolder
  | some (.file content) =>
    match String.fromUTF8? content with
    | some text => .ok text
    | none => .error .notText

def read (t : FileTree) (path : String) : Except FileError String :=
  (t.locate path).bind t.textAt

/-- Puts a text at a place, unless a folder is there. -/
def putText (t : FileTree) (text : String) (place : List String) : Except FileError FileTree :=
  match t.node? place with
  | some .folder => .error .isAFolder
  | _ => .ok (t.put place (.file text.toUTF8))

/-- Writes a whole file, which is made if it is not there. A path that asks for a folder
is refused whatever its last name leads to, once the way to that name is walked. -/
def write (t : FileTree) (path text : String) : Except FileError FileTree :=
  (t.route path).bind fun (start, steps) =>
    match stepsToFolder? steps with
    | some way => (t.walk start way).bind fun _ => .error .isAFolder
    | none => (t.walk start steps).bind (t.putText text)

def has (t : FileTree) (path : String) : Bool :=
  match t.locate path with
  | .ok place => (t.node? place).isSome
  | .error _ => false

/-! ## Access -/

instance : FileAccess (StateM FileTree) where
  readText path := do return (← get).read path
  writeText path text := do
    match (← get).write path text with
    | .ok t => set t; return .ok ()
    | .error e => return .error e
  isThere path := do return (← get).has path

end FileTree

end Netlist
