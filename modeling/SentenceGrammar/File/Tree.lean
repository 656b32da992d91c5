import SentenceGrammar.File.Fault
import SentenceGrammar.Text.Splitting

/-! Directories as a value. A path is followed step by step from the root or from a working
directory, and the first step that cannot be taken tells why there is no file at its end. -/

namespace SentenceGrammar

/-- A file, or a directory with what it holds under each name. -/
inductive FileTree where
  | file (bytes : ByteArray)
  | directory (entries : List (String × FileTree))

namespace FileTree

def empty : FileTree :=
  .directory []

instance : Inhabited FileTree := ⟨empty⟩

def entries : FileTree → List (String × FileTree)
  | .file _ => []
  | .directory entries => entries

/-- The tree with a file at the end of the given names. Directories are made where there are none.
-/
def put (bytes : ByteArray) : List String → FileTree → FileTree
  | [], _ => .file bytes
  | name :: rest, tree =>
    .directory ((name, put bytes rest ((tree.entries.lookup name).getD empty)) ::
      tree.entries.filter fun entry => entry.1 != name)

def text : FileTree → Except FileFault String
  | .directory _ => .error .isDirectory
  | .file bytes =>
    match String.fromUTF8? bytes with
    | some text => .ok text
    | none => .error .notUtf8

/-- The longest name, in bytes. -/
def nameLimit : Nat := 255

/-- The longest path, in bytes. -/
def pathLimit : Nat := 4095

def steps (path : String) : List String :=
  (Text.splitAt '/' path.toList).map String.ofList

/-- Takes steps from a place, given with the directories around it, innermost first. An empty step
and a dot stay in a directory, and two dots leave it; nothing is around the root. No step leads out
of a file, not even one that would stay in it. -/
def follow : (around : List FileTree) → FileTree → List String → Except FileFault FileTree
  | _, here, [] => .ok here
  | _, .file _, _ :: _ => .error .notDirectory
  | around, .directory entries, step :: rest =>
    if step = "" ∨ step = "." then follow around (.directory entries) rest
    else if step = ".." then
      match around with
      | [] => follow [] (.directory entries) rest
      | outer :: others => follow others outer rest
    else if nameLimit < step.utf8ByteSize then .error .nameTooLong
    else match entries.lookup step with
      | none => .error .missing
      | some inner => follow (.directory entries :: around) inner rest

/-- What a path leads to. A path that begins with a slash starts at the root, and another one in the
working directory, which is given by the names that lead to it. -/
def find (root : FileTree) (workingDirectory : List String) (path : String) :
    Except FileFault FileTree :=
  if path.isEmpty then .error .missing
  else if pathLimit < path.utf8ByteSize then .error .nameTooLong
  else if path.toList.head? = some '/' then follow [] root (steps path)
  else follow [] root (workingDirectory ++ steps path)

def read (root : FileTree) (workingDirectory : List String) (path : String) :
    Except FileFault String := do
  (← root.find workingDirectory path).text

end FileTree

end SentenceGrammar
