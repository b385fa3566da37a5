import Iloc.SourceFile

namespace Iloc

/-!
# File trees

A file tree is a directory with everything below it, given as a list of places
and what stands there.  A place is the list of the names that lead to it from
the top.  Whatever lies above a place is a directory too.

A path is followed one component at a time from the top.  Each component is
looked up in a directory, so a path that goes on after a file is an error of
its own, even if nothing but a slash follows.  A component that is too long for
a name is an error only where it is looked up.

The program itself reads the files of the system that it runs on.  A tree stands
for them wherever a run is to be stated, or repeated, together with its files.
-/

/-- What can stand at a place. -/
inductive FileEntry where
  | file (content : ByteArray)
  | directory

instance : DecidableEq FileEntry
  | .file content, .file other =>
      match content.decEq other with
      | isTrue same => isTrue (congrArg FileEntry.file same)
      | isFalse differ =>
          isFalse fun same => differ (FileEntry.file.inj same)
  | .directory, .directory => isTrue rfl
  | .file _, .directory => isFalse FileEntry.noConfusion
  | .directory, .file _ => isFalse FileEntry.noConfusion

/-- The places of a tree that are listed explicitly. -/
structure FileTree where
  entries : List (List String × FileEntry)
  deriving DecidableEq

namespace FileTree

/-- A directory with nothing in it. -/
def empty : FileTree where
  entries := []

/-- Whether a component of a path stays where it is. -/
def isStationary (component : String) : Bool :=
  component == "" || component == "."

/--
The tree of some named files.  A name that ends in a slash is a directory, and
its content is of no account.
-/
def ofNamed (named : List (String × ByteArray)) : FileTree where
  entries :=
    named.map fun (name, content) =>
      let components := name.splitOn "/"
      let place := components.filter (!isStationary ·)
      if components.getLast? = some "" then
        (place, .directory)
      else
        (place, .file content)

/-- What stands at a place, if anything does. -/
def entry?
    (tree : FileTree)
    (place : List String) :
    Option FileEntry :=
  match tree.entries.lookup place with
  | some entry => some entry
  | none =>
      if place.isEmpty || tree.entries.any (place.isPrefixOf ·.1) then
        some .directory
      else
        none

/--
Follow the components of a path from a place.  What lies outside of the tree is
not known; a path that climbs out of it goes on from an empty directory.
-/
def follow
    (tree : FileTree)
    (place : List String) :
    List String → Except ReadCause FileEntry
  | [] =>
      match tree.entry? place with
      | some entry => .ok entry
      | none => .error .notFound
  | component :: components =>
      match tree.entry? place with
      | none => .error .notFound
      | some (.file _) => .error .notADirectory
      | some .directory =>
          if isStationary component then
            tree.follow place components
          else if component = ".." then
            if place.isEmpty then
              empty.follow [] components
            else
              tree.follow place.dropLast components
          else if component.utf8ByteSize > maxComponentBytes then
            .error .nameTooLong
          else
            tree.follow (place ++ [component]) components

/-- What a path leads to.  An absolute path leaves the tree. -/
def resolve
    (tree : FileTree)
    (path : String) :
    Except ReadCause FileEntry :=
  match pathFault? path with
  | some cause => .error cause
  | none =>
      let start := if path.startsWith "/" then empty else tree
      start.follow [] (path.splitOn "/")

/-- Read the file that a path leads to as source text. -/
def readSource
    (tree : FileTree)
    (path : String) :
    Except ReadError String :=
  let content :=
    match tree.resolve path with
    | .ok (.file content) => decodeSource content
    | .ok .directory => .error .isADirectory
    | .error cause => .error cause
  content.mapError (⟨path, ·⟩)

end FileTree

end Iloc
