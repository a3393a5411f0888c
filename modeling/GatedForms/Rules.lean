import GatedForms.Directive

/-! # Validation rules

Rules are declared by field name and bound to the schema that they are about. A bound validator
checks values section by section; where a range applies, a number given as text becomes a number.
-/

namespace GatedForms

/-- What a value has to obey. -/
inductive Rule where
  /-- Present and not blank. -/
  | required
  /-- A whole number from `min` to `max`, unless blank. -/
  | range (min max : Int)
  deriving Repr, DecidableEq, BEq

/-- A rule by field name. -/
structure RuleSpec where
  field : String
  /-- The rule is about this nested field in every repetition of the group `field`. -/
  nested : Option String
  rule : Rule
  deriving Repr, DecidableEq, BEq

/-- Why a rule does not fit a schema. -/
inductive RuleError where
  /-- No field has the name. -/
  | unknownField (name : String)
  /-- The field is no group with the nested field. -/
  | unknownNested (name nested : String)
  /-- The name is no path. -/
  | path (cause : PathError)
  deriving Repr, DecidableEq, BEq

namespace RuleError

def message : RuleError → String
  | .unknownField name => "no field `" ++ name ++ "` in the schema"
  | .unknownNested name nested =>
      "`" ++ name ++ "` is not a dynamic group with a nested `" ++ nested ++ "`"
  | .path cause => cause.message

end RuleError

/-- Where the values are that a check looks at. -/
inductive CheckTarget where
  | field (path : Path)
  /-- The nested field in every repetition of a group. -/
  | eachRepetition (group nested : Path)
  deriving Repr, DecidableEq, BEq

/-- A rule bound to a section of a schema. -/
structure Check where
  sectionIndex : Nat
  target : CheckTarget
  rule : Rule
  deriving Repr, DecidableEq, BEq

/-- Rules bound to a schema, in the order in which they were declared. -/
structure Validator where
  checks : List Check
  deriving Repr, DecidableEq, BEq

/-- The part of a form that is validated. -/
inductive ValidationScope where
  | form
  | formSection (index : Nat)
  deriving Repr, DecidableEq, BEq

mutual

/-- The first field of a printed name among a field and the fields that its options reveal, at any
    depth. -/
def Field.find? (name : String) : Field → Option Field
  | ⟨fieldName, label, tooltip, adminOnly, kind⟩ =>
      let f : Field := ⟨fieldName, label, tooltip, adminOnly, kind⟩
      if f.hasName name then some f else FieldKind.find? name kind

/-- The first field of a printed name that the options of a radio reveal. -/
def FieldKind.find? (name : String) : FieldKind → Option Field
  | .radio options => FieldOption.findRevealed? name options
  | _ => none

/-- The first field of a printed name that one of the options reveals. -/
def FieldOption.findRevealed? (name : String) : List FieldOption → Option Field
  | [] => none
  | ⟨_, _, none⟩ :: rest => FieldOption.findRevealed? name rest
  | ⟨_, _, some f⟩ :: rest => (Field.find? name f).or (FieldOption.findRevealed? name rest)

end

namespace Schema

/-- The first field of a printed name in sections counted from `index`, with its section. -/
def locateFrom (name : String) (index : Nat) : List FormSection → Option (Nat × Field)
  | [] => none
  | s :: rest =>
      match s.fields.findSome? (Field.find? name) with
      | some f => some (index, f)
      | none => locateFrom name (index + 1) rest

/-- The first field of a printed name, with its section. -/
def locate? (s : Schema) (name : String) : Option (Nat × Field) := locateFrom name 0 s.sections

end Schema

namespace Field

/-- Whether the field is a group with a nested field of a printed name. -/
def hasNested (f : Field) (name : String) : Bool :=
  match f.kind with
  | .dynamic nested _ => nested.any fun spec => spec.field.hasName name
  | _ => false

end Field

namespace RuleSpec

def readName (name : String) : Except RuleError Path :=
  match Path.parseName name with
  | .ok path => .ok path
  | .error cause => .error (.path cause)

def bind (schema : Schema) (spec : RuleSpec) : Except RuleError Check :=
  match schema.locate? spec.field with
  | none => .error (.unknownField spec.field)
  | some (sectionIndex, f) => do
      let path ← readName spec.field
      match spec.nested with
      | none => .ok ⟨sectionIndex, .field path, spec.rule⟩
      | some nested =>
          if f.hasNested nested then do
            let below ← readName nested
            .ok ⟨sectionIndex, .eachRepetition path below, spec.rule⟩
          else .error (.unknownNested spec.field nested)

/-- Bind rules in order; the first that does not fit decides. -/
def bindAll (schema : Schema) : List RuleSpec → Except RuleError (List Check)
  | [] => .ok []
  | spec :: rest => do
      let check ← spec.bind schema
      let others ← bindAll schema rest
      .ok (check :: others)

end RuleSpec

namespace Json

/-- Whether a value counts as not given: absent, null, a text of blanks, an empty array. -/
def isBlank : Option Json → Bool
  | none => true
  | some .null => true
  | some (.text s) => (Text.trim s.toList).isEmpty
  | some (.array items) => items.isEmpty
  | some _ => false

/-- The whole number of 64 bits that a value denotes, as a number or as a text with blanks around
    it. -/
def toInteger? : Json → Option Int
  | .int n => if Text.isInteger n then some n else none
  | .text s => Text.integer? (Text.trim s.toList)
  | _ => none

end Json

/-- What a rule says about one value. -/
inductive Verdict where
  /-- The value is fine as it is. -/
  | pass
  /-- The value is fine and denotes this number. -/
  | normalize (n : Int)
  /-- The value is refused. -/
  | fail (message : String)
  deriving Repr, DecidableEq, BEq

namespace Rule

/-- Message for a value that the rule refuses. -/
def refusal : Rule → String
  | .required => "Required"
  | .range min max => "Must be a number in range [" ++ toString min ++ ".." ++ toString max ++ "]"

/-- Apply the rule to the value at a target. -/
def apply (rule : Rule) (value : Option Json) : Verdict :=
  match rule with
  | .required => if Json.isBlank value then .fail rule.refusal else .pass
  | .range min max =>
      if Json.isBlank value then .pass
      else match value.bind Json.toInteger? with
        | some n => if min ≤ n ∧ n ≤ max then .normalize n else .fail rule.refusal
        | none => .fail rule.refusal

end Rule

namespace ValidationScope

def covers : ValidationScope → Nat → Bool
  | .form, _ => true
  | .formSection current, index => index == current

end ValidationScope

namespace CheckTarget

/-- The paths that a check looks at. A group has one per stored repetition. -/
def paths (target : CheckTarget) (values : Values) : List Path :=
  match target with
  | .field path => [path]
  | .eachRepetition group nested =>
      (List.range (Json.itemsOrEmpty (values.get? group)).length).map fun i =>
        (group.index i).join nested

end CheckTarget

namespace Validator

/-- What a pass over the checks has found: messages, and the values with numbers in place. -/
structure Progress where
  messages : Messages
  normalized : Values

/-- Rules and paths to apply them to, in order. -/
def tasks (v : Validator) (values : Values) (scope : ValidationScope) : List (Rule × Path) :=
  (v.checks.filter fun check => scope.covers check.sectionIndex).flatMap fun check =>
    (check.target.paths values).map fun path => (check.rule, path)

/-- Apply one rule at one path. A path that has a message already is left alone. -/
def step (values : Values) (progress : Progress) (task : Rule × Path) : Progress :=
  let key := task.2.display
  if (progress.messages.get? key).isSome then progress
  else match task.1.apply (values.get? task.2) with
    | .pass => progress
    | .normalize n => { progress with normalized := progress.normalized.set task.2 (.int n) }
    | .fail message => { progress with messages := progress.messages.insert key message }

/-- Validate values: all messages, or the values with numbers in place. -/
def check (v : Validator) (values : Values) (scope : ValidationScope) :
    Except Messages Values :=
  let done := (v.tasks values scope).foldl (step values) ⟨Messages.empty, values⟩
  if done.messages.isEmpty then .ok done.normalized else .error done.messages

def build (schema : Schema) (specs : List RuleSpec) : Except RuleError Validator :=
  (RuleSpec.bindAll schema specs).map Validator.mk

end Validator

end GatedForms
