import GatedForms.Catalog.CallRecording
import GatedForms.Catalog.ListExitStrategy
import GatedForms.Catalog.ListFilter

/-! # Bundled forms

Three forms come with the program, each with the rules that its backend enforces.
-/

namespace GatedForms

/-- A bundled form. -/
inductive SchemaKind where
  | listFilter
  | listExitStrategy
  | callRecording
  deriving Repr, DecidableEq, BEq

namespace SchemaKind

/-- All bundled forms, in the order in which they are listed. -/
def all : List SchemaKind := [.listFilter, .listExitStrategy, .callRecording]

def name : SchemaKind → String
  | .listFilter => "list-filter"
  | .listExitStrategy => "list-exit-strategy"
  | .callRecording => "call-recording"

def ofName? (name : String) : Option SchemaKind := all.find? fun kind => kind.name = name

def schema : SchemaKind → Schema
  | .listFilter => Catalog.ListFilter.schema
  | .listExitStrategy => Catalog.ListExitStrategy.schema
  | .callRecording => Catalog.CallRecording.schema

def rules : SchemaKind → List RuleSpec
  | .listFilter => Catalog.ListFilter.rules
  | .listExitStrategy => Catalog.ListExitStrategy.rules
  | .callRecording => Catalog.CallRecording.rules

/-- The bundled schemas pass the checks, and their ids are those that would be filled in. -/
theorem build_schema (kind : SchemaKind) :
    Schema.build kind.schema.title kind.schema.backendKey kind.schema.sections
      = .ok kind.schema := by
  cases kind <;> rfl

end SchemaKind

/-- The rules of a bundled form do not fit a schema. -/
structure CatalogError where
  kind : SchemaKind
  cause : RuleError
  deriving Repr, DecidableEq, BEq

namespace CatalogError

def message (e : CatalogError) : String :=
  "rules of `" ++ e.kind.name ++ "` do not fit the schema: " ++ e.cause.message

end CatalogError

namespace SchemaKind

/-- The rules of a bundled form, bound to a schema. -/
def validator (kind : SchemaKind) (schema : Schema) : Except CatalogError Validator :=
  match Validator.build schema kind.rules with
  | .ok validator => .ok validator
  | .error cause => .error ⟨kind, cause⟩

end SchemaKind

end GatedForms
