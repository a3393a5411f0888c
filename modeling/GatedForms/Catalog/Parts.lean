import GatedForms.Schema.Basic

/-! # Shorthand for bundled schemas -/

namespace GatedForms.Catalog

/-- The path `<section>.<name>`. -/
def under (sectionKey name : String) : Option Path := some ⟨sectionKey, [.key name]⟩

def nestedName (name : String) : Option Path := some ⟨name, []⟩

/-- A field without tooltip that anyone may edit. -/
def field (name : Option Path) (label : String) (kind : FieldKind) : Field :=
  ⟨name, label, none, false, kind⟩

def option (label value : String) : FieldOption := ⟨label, .text value, none⟩

def revealing (label value : String) (revealed : Field) : FieldOption :=
  ⟨label, .text value, some revealed⟩

/-- A text field for numbers. -/
def numberInput : FieldKind := .text .number none

def button (label : String) (action : ButtonAction) (id : ButtonId) : Field :=
  ⟨none, label, none, false, .button action (some id)⟩

def static (content : String) : Field := ⟨none, "", none, false, .static content⟩

end GatedForms.Catalog
