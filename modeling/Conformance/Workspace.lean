/-
# Conformance.Workspace — the files and variables that settings are read from.

Settings are read from `Surroundings`: what every path leads to, and variables.  A workspace is a
working directory with what lies in it, where nothing is withheld.  A path may leave the directory by
going up, or start from a root; what lies out there is not known but for the directories passed.
-/

namespace Conformance

/-- What a file holds: text, or bytes that are none. -/
inductive Contents where
  | text (s : String)
  | notText
  deriving DecidableEq, Repr

/-- The text that bytes stand for, if they stand for one. -/
def Contents.ofBytes (bytes : ByteArray) : Contents :=
  match String.fromUTF8? bytes with
  | some s => .text s
  | none => .notText

/-- What a path leads to. -/
inductive Entry where
  | missing
  | directory
  | file (contents : Contents)
  /-- Something is there, and may not be opened. -/
  | refused
  /-- Whether something is there may not be asked. -/
  | hidden

/-- **`Surroundings`** — what every path leads to, and the values of variables. -/
structure Surroundings where
  find : String → Entry
  valueOf? : String → Option String

/-- **`Workspace`** — directories and files by the names that lead to them, and variables. -/
structure Workspace where
  directories : List (List String)
  files : List (List String × Contents)
  environment : List (String × String)

namespace Workspace

/-- Characters divided at each slash. -/
def segments : List Char → List (List Char)
  | [] => [[]]
  | c :: rest =>
    if c = '/' then [] :: segments rest
    else
      match segments rest with
      | [] => [[c]]
      | first :: more => (c :: first) :: more

/-- The names of a path; empty ones and single dots lead nowhere. -/
def names (path : String) : List String :=
  ((segments path.toList).map String.ofList).filter fun name => name != "" && name != "."

/-- The root that a path starts from, if any; two slashes are another root than one. -/
def root (path : String) : String :=
  match path.toList with
  | '/' :: '/' :: '/' :: _ => "/"
  | '/' :: '/' :: _ => "//"
  | '/' :: _ => "/"
  | _ => ""

/-- The shortest way to write a path. -/
def spell (path : String) : String :=
  let short := root path ++ "/".intercalate (names path)
  if short.isEmpty then "." else short

/-- Is there a directory of these names?  The directory of a file or of a directory is one. -/
def isDirectory (w : Workspace) (names : List String) : Bool :=
  names.isEmpty || w.directories.any (fun d => names.isPrefixOf d) ||
    w.files.any (fun f => f.1 != names && names.isPrefixOf f.1)

/-- What lies under names without steps up. -/
def entry (w : Workspace) (names : List String) : Entry :=
  match w.files.reverse.lookup names with
  | some contents => .file contents
  | none => if w.isDirectory names then .directory else .missing

/-- What a path leads to from a directory within the workspace. -/
def follow (w : Workspace) : List String → List String → Entry
  | here, [] => w.entry here
  | here, name :: rest =>
    match w.entry here with
    | .directory =>
      if name = ".." then
        if here.isEmpty then (if rest.all (· == "..") then .directory else .missing)
        else w.follow here.dropLast rest
      else w.follow (here ++ [name]) rest
    | _ => .missing

/-- What a path leads to. -/
def find (w : Workspace) (path : String) : Entry :=
  if root path = "" then w.follow [] (names path)
  else if (names path).all (· == "..") then .directory
  else .missing

/-- The value of a variable. -/
def valueOf? (w : Workspace) (name : String) : Option String := w.environment.reverse.lookup name

/-- A workspace as what settings are read from. -/
def surroundings (w : Workspace) : Surroundings := ⟨w.find, w.valueOf?⟩

end Workspace

end Conformance
