import ArrayLift.CommandLine.Host
import ArrayLift.CommandLine.Path

/-! A machine in memory: a tree of files and directories under a working directory, and what was
written to the two streams of text. -/
namespace ArrayLift

/-- A place as the names on the way from the working directory. Names that lead upward stand only
at the start, and a slash in front of the others starts at the root. -/
abbrev Location := List String

inductive Entry where
  | directory
  | file (content : ByteArray)

/-- The content of a file. -/
def Entry.content? : Entry → Option ByteArray
  | .directory => none
  | .file content => some content

/-- Files and directories by their place. -/
structure Volume where
  entries : List (Location × Entry)

namespace Volume

def empty : Volume := ⟨[]⟩

/-- What is at a place. The working directory, what lies above it and the root are directories. -/
def find? (volume : Volume) (location : Location) : Option Entry :=
  if location.all (· = "..") || location = ["/"] then some .directory
  else volume.entries.lookup location

/-- Put an entry at a place. -/
def put (volume : Volume) (location : Location) (entry : Entry) : Volume :=
  ⟨(location, entry) :: volume.entries.filter (·.1 ≠ location)⟩

/-- One step upward. -/
def above (location : Location) : Location :=
  if location.all (· = "..") then location ++ [".."]
  else if location = ["/"] then location
  else location.dropLast

/-- Go along names; everything on the way must be a directory. -/
def follow (volume : Volume) : Location → List String → Except FileFault Location
  | location, [] => .ok location
  | location, name :: rest =>
    match volume.find? location with
    | some .directory =>
      if name = ".." then volume.follow (above location) rest
      else volume.follow (location ++ [name]) rest
    | some (.file _) => .error .notDirectory
    | none => .error .missing

/-- The place that a path leads to; what is there need not exist. -/
def locate (volume : Volume) (path : String) : Except FileFault Location :=
  if path = "" then .error .missing
  else volume.follow (if path.toList.head? = some '/' then ["/"] else []) (Path.components path)

/-- Does the path end like that of a directory? -/
def namesDirectory (path : String) : Bool :=
  path.toList.getLast? = some '/'

/-- What a path leads to. -/
def entry (volume : Volume) (path : String) : Except FileFault Entry := do
  let location ← volume.locate path
  match volume.find? location with
  | some (.file content) => if namesDirectory path then .error .notDirectory else .ok (.file content)
  | some .directory => .ok .directory
  | none => .error .missing

/-- Make one directory. -/
def createDirectory (volume : Volume) (path : String) : Except FileFault Volume := do
  let location ← volume.locate path
  match volume.find? location with
  | some _ => .error .exists
  | none => .ok (volume.put location .directory)

/-- Write a file. -/
def write (volume : Volume) (path : String) (content : ByteArray) : Except FileFault Volume := do
  let location ← volume.locate path
  match volume.find? location with
  | some .directory => .error .isDirectory
  | some (.file _) =>
    if namesDirectory path then .error .notDirectory else .ok (volume.put location (.file content))
  | none =>
    match volume.find? (above location) with
    | some .directory =>
      if namesDirectory path then .error .isDirectory else .ok (volume.put location (.file content))
    | some (.file _) => .error .notDirectory
    | none => .error .missing

/-- The volume with the given files and the directories around them. -/
def ofFiles (files : List (String × ByteArray)) : Volume :=
  files.foldl (fun volume (path, content) =>
    let names := Path.components path
    let around := (List.range (names.length - 1)).map fun count => names.take (count + 1)
    let volume := around.foldl (fun volume location =>
      if (volume.find? location).isSome then volume else volume.put location .directory) volume
    volume.put names (.file content)) empty

/-- The files under the working directory that are new or have another content than before. -/
def changedFiles (before after : Volume) : List (Location × ByteArray) :=
  after.entries.filterMap fun (location, entry) =>
    match entry with
    | .directory => none
    | .file content =>
      if location.head? = some ".." || location.head? = some "/" then none
      else if ((before.find? location).bind Entry.content?).map ByteArray.data = some content.data then none
      else some (location, content)

end Volume

/-- The state of a machine. -/
structure Machine where
  volume : Volume
  output : String
  errors : String

namespace Machine

/-- A machine on which nothing has been written. -/
def ofVolume (volume : Volume) : Machine := ⟨volume, "", ""⟩

/-- Change the volume, if that is possible. -/
def change (step : Volume → Except FileFault Volume) : StateM Machine (Except FileFault Unit) := fun machine =>
  match step machine.volume with
  | .ok volume => (.ok (), { machine with volume })
  | .error fault => (.error fault, machine)

/-- The operations of a machine in memory. -/
def host : Host (StateM Machine) where
  read path := fun machine =>
    (match machine.volume.entry path with
      | .ok (.file content) => .ok content
      | .ok .directory => .error .isDirectory
      | .error fault => .error fault, machine)
  createDirectory path := change (·.createDirectory path)
  write path text := change (·.write path text.toUTF8)
  print text := fun machine => ((), { machine with output := machine.output ++ text })
  complain text := fun machine => ((), { machine with errors := machine.errors ++ text })
  colored := pure false

end Machine
end ArrayLift
