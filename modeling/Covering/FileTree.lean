import Covering.Text.Split
import Covering.ToolError

/-!
# File trees

Directories and files as they are seen from a working directory, and what a
path leads to there. A path is walked component by component: empty ones and
dots stay where they are, two dots go up. Only a directory can be walked
through, a trailing slash included; to write a file under a path that ends in a
slash is to write a directory. A name of more bytes than a directory can keep is
looked up nowhere, nor is a path that is too long as a whole or holds a NUL.

The directories above the working directory have no names here, and how many
there are is not known: going up never ends.

Not every place for a file is one for a file on a disk. Devices and pipes take
what is written to them and do not keep it; other places, and some devices, can
be opened and then take nothing. Which places these are belongs to a tree.

## Main definitions

* `Location`: Where something is.
* `FileTree`: Files with their contents, directories, and what places do with
  what is written to them.
* `FileTree.find`: What a path leads to.
* `nameLimit`, `pathLimit`: The lengths that names and paths may have.
* `FileTree.read`, `FileTree.list`: Looking.
* `FileTree.isDevice`, `FileTree.refusal?`: Places that lose or refuse what is
  written to them.
* `FileTree.write`, `FileTree.overlay`: Writing.
* `overlaid`: Bytes written over others.

## Theorems

* `overlaid_end`: Bytes written at the end are appended.
-/

namespace Covering

open Text

/-- Where a file or directory is, as the names on the way to it. The way begins
    in the working directory, or with a slash at the root; it may begin by going
    up, and never goes up later. -/
abbrev Location := List String

namespace Location

/-- The root of all directories. -/
def root : Location := ["/"]

/-- The file that is always empty, whatever is written to it. -/
def nullDevice : Location := ["/", "dev", "null"]

/-- The device that loses what is written to it and never ends when it is read. -/
def zeroDevice : Location := ["/", "dev", "zero"]

/-- The device that has no space left. -/
def fullDevice : Location := ["/", "dev", "full"]

/-- Whether the way only goes up, if it goes anywhere. -/
def isAncestor (place : Location) : Bool := place.all (· == "..")

/-- The directory above, which for the root is the root. -/
def parent (place : Location) : Location :=
  if place = root then root
  else if place.isAncestor then place ++ [".."]
  else place.dropLast

end Location

/-- Files and directories. Directories on the way to a file need not be listed.
    -/
structure FileTree where
  files : List (Location × ByteArray)
  directories : List Location
  /-- Devices and pipes. One that can be read is a file too, and goes on having
      the contents that are given for it. -/
  devices : List Location := []
  /-- The places that take no bytes, and the fault of writing some there. -/
  refusals : List (Location × FileFault) := []

/-- What a path leads to. -/
inductive Found where
  | file (at_ : Location)
  | directory (at_ : Location)
  /-- Nothing, in a directory that exists. -/
  | vacant (at_ : Location)
  /-- No directory, though the path asks for one by a slash at its end; what
      looking there fails with. -/
  | noDirectory (fault : FileFault)
deriving DecidableEq, Repr

/-- The old bytes with others written over them from an offset on. A gap before
    the offset is filled with zeros. -/
def overlaid (old : ByteArray) (offset : Nat) (bytes : ByteArray) : ByteArray :=
  old.extract 0 offset ++ ⟨Array.replicate (offset - old.size) 0⟩ ++ bytes ++
    old.extract (offset + bytes.size) old.size

/-- What is written where the old bytes end is appended to them. -/
theorem overlaid_end (old bytes : ByteArray) : overlaid old old.size bytes = old ++ bytes := by
  rw [overlaid, Nat.sub_self]
  apply ByteArray.ext
  simp

/-- The most bytes of a name. -/
def nameLimit : Nat := 255

/-- The most bytes of a path. -/
def pathLimit : Nat := 4095

namespace FileTree

/-- The tree with nothing but what every system has. Devices that never end have no
    contents to be read. -/
def empty : FileTree where
  files := [(Location.nullDevice, ByteArray.empty)]
  directories := [["/", "tmp"]]
  devices := [Location.nullDevice, Location.zeroDevice, Location.fullDevice]
  refusals := [(Location.fullDevice, .noSpace)]

/-- Whether there is a file. -/
def isFile (tree : FileTree) (place : Location) : Bool :=
  tree.files.any (·.1 == place)

/-- Whether there is a directory. -/
def isDirectory (tree : FileTree) (place : Location) : Bool :=
  place = Location.root || place.isAncestor || tree.directories.any place.isPrefixOf ||
    tree.files.any fun file => place.isPrefixOf file.1 && file.1 != place

/-- The components of a path, empty ones included. -/
def components (path : String) : List String :=
  (fields '/' path.toList).map String.ofList

/-- Why there is nothing of the given name. -/
def absence (name : String) : FileFault :=
  if nameLimit < name.utf8ByteSize then .nameTooLong else .notFound

/-- What a path leads to if it cannot be walked on to the names `rest`. -/
def blocked (fault : FileFault) (rest : List String) : Except FileFault Found :=
  if !rest.isEmpty && rest.all (· == "") then .ok (.noDirectory fault) else .error fault

/-- What the components lead to from a directory. -/
def walk (tree : FileTree) (from_ : Location) : List String → Except FileFault Found
  | [] => .ok (.directory from_)
  | name :: rest =>
    if name = "" ∨ name = "." then walk tree from_ rest
    else if name = ".." then walk tree from_.parent rest
    else
      let place := from_ ++ [name]
      if tree.isFile place then
        if rest.isEmpty then .ok (.file place) else blocked .notADirectory rest
      else if tree.isDirectory place then walk tree place rest
      else if rest.isEmpty ∧ absence name = .notFound then .ok (.vacant place)
      else blocked (absence name) rest

/-- What a path leads to. -/
def find (tree : FileTree) (path : String) : Except FileFault Found :=
  if path.toList.contains '\x00' then .error .nulInPath
  else if pathLimit < path.utf8ByteSize then .error .nameTooLong
  else if path.isEmpty then .error .notFound
  else if path.startsWith "/" then tree.walk Location.root (components path)
  else tree.walk [] (components path)

/-- The contents of a file. -/
def contents? (tree : FileTree) (place : Location) : Option ByteArray :=
  tree.files.lookup place

/-- The contents of the file that a path leads to. -/
def read (tree : FileTree) (path : String) : Except FileFault ByteArray := do
  match ← tree.find path with
  | .file place => pure ((tree.contents? place).getD ByteArray.empty)
  | .directory _ => throw .isADirectory
  | .vacant _ => throw .notFound
  | .noDirectory fault => throw fault

/-- The names in the directory that a path leads to. -/
def list (tree : FileTree) (path : String) : Except FileFault (List String) := do
  match ← tree.find path with
  | .file _ => throw .notADirectory
  | .directory place =>
    let inside := (tree.files.map (·.1) ++ tree.directories).filterMap fun location =>
      if place.isPrefixOf location then location[place.length]? else none
    pure (inside.filter fun name => name ≠ "/" && name ≠ "..").eraseDups
  | .vacant _ => throw .notFound
  | .noDirectory fault => throw fault

/-- The place of the file that a path leads to or would create. -/
def target (tree : FileTree) (path : String) : Except FileFault Location := do
  match ← tree.find path with
  | .file place => pure place
  | .directory _ => throw .isADirectory
  | .vacant place => pure place
  | .noDirectory _ => throw .isADirectory

/-- Whether what is written to the place is not kept. -/
def isDevice (tree : FileTree) (place : Location) : Bool := tree.devices.contains place

/-- Why the place takes no bytes, if it does not. -/
def refusal? (tree : FileTree) (place : Location) : Option FileFault := tree.refusals.lookup place

/-- The tree with a file of the given contents, which a device does not keep. -/
def put (tree : FileTree) (place : Location) (bytes : ByteArray) : FileTree :=
  if tree.isDevice place then tree
  else { tree with files := (place, bytes) :: tree.files.filter (·.1 != place) }

/-- The tree after some bytes have been given to a place, whose contents they
    make the given ones. Nothing is refused where there are no bytes. -/
def give (tree : FileTree) (place : Location) (bytes contents : ByteArray) :
    Except FileFault FileTree :=
  match tree.refusal? place with
  | none => .ok (tree.put place contents)
  | some fault => if bytes.isEmpty then .ok (tree.put place contents) else .error fault

/-- Writes a file, in place of what it held. -/
def write (tree : FileTree) (path : String) (bytes : ByteArray) : Except FileFault FileTree := do
  tree.give (← tree.target path) bytes bytes

/-- Writes over a file from an offset on, and leaves what comes after. -/
def overlay (tree : FileTree) (path : String) (offset : Nat) (bytes : ByteArray) :
    Except FileFault FileTree := do
  let place ← tree.target path
  tree.give place bytes (overlaid ((tree.contents? place).getD ByteArray.empty) offset bytes)

end FileTree

/-- The text of a file's contents. -/
def decodeText (bytes : ByteArray) : Except FileFault String :=
  match String.fromUTF8? bytes with
  | some text => .ok text
  | none => .error .notText

end Covering
