import GatedForms.Toml.Document

/-! # Surroundings of a command

A command sees some files and the variables of the environment. A file is found by its name, or by
another name that leads to it: `.` and doubled slashes stay where they are, and `..` leads back out
of a directory.
-/

namespace GatedForms

/-- What a command sees of the world. -/
structure Surroundings where
  /-- Names and contents of the files that can be read. -/
  files : List (String × String)
  environment : List (String × String)

namespace FileName

def nullDevice : String := "/dev/null"

/-- The parts of a name between the slashes. -/
def parts (name : String) : List String := Text.split '/' name

/-- Whether a part of a name is idle: it stays where it is. -/
def isIdle (part : String) : Bool := part = "" || part = "."

/-- The way to a file of this name: the directories, and the file at the end. -/
def way (name : String) : List String := (parts name).filter fun part => !isIdle part

/-- The way to the file that the parts of a name lead to from `place`, whose directories have to be
    there. There is none if they lead to a directory or out of the first one. -/
def lead? (isDirectory : List String → Bool) (place : List String) : List String →
    Option (List String)
  | [] => none
  | [last] => if isIdle last || last = ".." then none else some (place ++ [last])
  | part :: rest =>
      if isIdle part then lead? isDirectory place rest
      else if part = ".." then
        if place.isEmpty then none else lead? isDirectory place.dropLast rest
      else if isDirectory (place ++ [part]) then lead? isDirectory (place ++ [part]) rest
      else none

/-- The name with the ending of a settings file, without idle parts in front of it; none if no file
    can have the name. -/
def completed? (name : String) : Option String :=
  match (parts name).reverse.dropWhile isIdle with
  | [] => none
  | last :: before =>
      if last = ".." then none
      else some ("/".intercalate (last :: before).reverse ++ ".toml")

end FileName

namespace Surroundings

/-- Whether a way leads to a directory that holds files. -/
def isDirectory (s : Surroundings) (way : List String) : Bool :=
  s.files.any fun file => way.isPrefixOf (FileName.way file.1).dropLast

/-- Content of a file. The null device can always be read and holds nothing. -/
def read? (s : Surroundings) (name : String) : Option String :=
  if name = FileName.nullDevice then some "" else (KeyMap.find? name s.files).or do
    let parts := FileName.parts name
    let way ← if parts.head? = some "" then none else FileName.lead? s.isDirectory [] parts
    s.files.findSome? fun (stored, content) =>
      if FileName.way stored = way then some content else none

/-- Content of a settings file, whose name may be given without its ending. -/
def readSettings? (s : Surroundings) (name : String) : Option String :=
  (s.read? name).or ((FileName.completed? name).bind s.read?)

end Surroundings

namespace Settings

/-- The settings for a file and an environment; a file that cannot be read sets nothing. -/
def load (surroundings : Surroundings) (file : Option String) : Except SettingsError Settings := do
  let fileLayer ← match surroundings.readSettings? (file.getD defaultFile) with
    | some content =>
        match Toml.layer? content with
        | some layer => .ok layer
        | none => .error .invalid
    | none => .ok []
  ofLayers [defaultLayer, fileLayer, environmentLayer surroundings.environment]

end Settings

end GatedForms
