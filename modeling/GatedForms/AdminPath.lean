import GatedForms.Path

/-! # Admin-only paths

A capability path names what only privileged viewers may edit, as
`<schema key>.<section key>.<field>`. It covers every full path that it starts.
-/

namespace GatedForms

/-- A capability path: plain keys, none of them empty. -/
structure AdminPath where
  keys : List String
  deriving Repr, DecidableEq, BEq

namespace AdminPath

/-- Read a capability path. Only the dot is special in it. -/
def parse (raw : String) : Except PathError AdminPath :=
  if raw.isEmpty then .error .empty
  else
    let keys := Text.split '.' raw
    if keys.any String.isEmpty then .error (.emptySegment raw) else .ok ⟨keys⟩

def display (p : AdminPath) : String := ".".intercalate p.keys

/-- Whether the full path of a field starts with this path. -/
def covers (p : AdminPath) (full : List String) : Bool := p.keys.isPrefixOf full

/-- Read a list of capability paths; the first bad one decides. -/
def parseAll : List String → Except PathError (List AdminPath)
  | [] => .ok []
  | raw :: rest => do
      let path ← parse raw
      let others ← parseAll rest
      .ok (path :: others)

/-- Whether one of the paths covers a full path. -/
def anyCovers (paths : List AdminPath) (full : List String) : Bool :=
  paths.any fun path => path.covers full

end AdminPath

end GatedForms
