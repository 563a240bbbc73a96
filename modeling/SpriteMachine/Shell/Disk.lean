/-!
Where texts are read from: a disk, or a folder that is held in memory.
-/

namespace SpriteMachine.Shell

structure Disk (m : Type → Type) where
  isDirectory : String → m Bool
  read? : String → m (Option String)

def joinPath (directory name : String) : String :=
  if directory.endsWith "/" then directory ++ name else directory ++ "/" ++ name

/-- Where a way along a disk begins. -/
inductive Base where
  /-- So many directories above the folder; zero is the folder itself. -/
  | above (levels : Nat)
  | root
  deriving DecidableEq, Repr

/-- A place on a disk: the names on the way to it. -/
structure Location where
  base : Base
  names : List String
  deriving DecidableEq, Repr

namespace Location

def start (path : String) : Location :=
  if path.startsWith "/" then ⟨.root,[]⟩ else ⟨.above 0,[]⟩

def up : Location → Location
  | ⟨.above levels,[]⟩ => ⟨.above (levels + 1),[]⟩
  | ⟨base,names⟩ => ⟨base,names.dropLast⟩

def step (p : Location) (part : String) : Location :=
  if part == "" || part == "." then p
  else if part == ".." then p.up
  else { p with names := p.names ++ [part] }

/-- The places from which the parts of a path are taken, the last one first, before those already passed. -/
def trail (p : Location) : List String → List Location → List Location
  | [], passed => passed
  | part :: rest, passed => (p.step part).trail rest (p :: passed)

end Location

/-- Texts at their places, and the directories around them. -/
structure Folder where
  files : List (Location × String) := []
  directories : List Location := []

namespace Folder

/-- An empty folder on a disk with the usual directories at its root and a null device, which is empty. -/
def bare : Folder where
  files := [(⟨.root,["dev","null"]⟩,"")]
  directories :=
    ["bin","boot","dev","etc","home","lib","media","mnt","opt","proc","root","run","sbin","srv",
      "sys","tmp","usr","var"].map fun name => ⟨.root,[name]⟩

def write (f : Folder) (path text : String) : Folder :=
  let parts := path.splitOn "/"
  let start := Location.start path
  { files := (parts.foldl Location.step start,text) :: f.files
    directories := start.trail parts f.directories }

/-- A folder with some texts by their paths. Of two at one place the last stays. -/
def ofTexts (texts : List (String × String)) : Folder :=
  texts.foldl (fun f (path,text) => f.write path text) bare

/-- Wherever a way begins there is a directory, even if nothing else is known of it. -/
def isDirectoryAt (f : Folder) (p : Location) : Bool :=
  p.names.isEmpty || f.directories.contains p

/-- Follows the parts of a path from a directory. Each part needs a directory to start from. -/
def follow (f : Folder) : List String → Location → Option Location
  | [], p => some p
  | part :: rest, p => if f.isDirectoryAt p then f.follow rest (p.step part) else none

def find? (f : Folder) (path : String) : Option Location :=
  f.follow (path.splitOn "/") (.start path)

def isDirectory (f : Folder) (path : String) : Bool :=
  (f.find? path).any f.isDirectoryAt

def read? (f : Folder) (path : String) : Option String :=
  (f.find? path).bind (f.files.lookup ·)

def disk (f : Folder) : Disk Id where
  isDirectory := f.isDirectory
  read? := f.read?

end Folder

end SpriteMachine.Shell
