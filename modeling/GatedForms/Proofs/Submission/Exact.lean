import GatedForms.Proofs.Submission.Live
import GatedForms.Proofs.Values.Frame
import GatedForms.Proofs.Values.Stripped

/-! # What exactly is submitted

If the names of the live fields stand apart, a payload holds the encoding of each live field at its
name and nothing beside them, in whatever order the fields are listed.
-/

namespace GatedForms

variable {viewer : Viewer} {v : Values}

namespace Schema

variable {s : Schema}

theorem Checked.isKeyOnly_of_live (checked : s.Checked) {place : FieldPlace} {f : Field}
    {name : Path} (live : s.Live viewer v place f name) : name.isKeyOnly = true := by
  obtain ⟨sectionKey, fieldChecked⟩ := checked.at? live.exists_top.1 live.at?
  exact Field.isKeyOnly_of_check fieldChecked live.submits.named

theorem Checked.isKeyOnly_of_mem_entries (checked : s.Checked) :
    ∀ entry ∈ s.entries viewer v, entry.1.isKeyOnly = true := by
  intro entry member
  obtain ⟨place, f, live, -⟩ := (s.mem_entries entry).mp member
  exact checked.isKeyOnly_of_live live

/-- At the name of a live field the payload holds its encoding. -/
theorem Checked.get?_submission (checked : s.Checked) (apart : s.LiveApart viewer v)
    {place : FieldPlace} {f : Field} {name : Path} (live : s.Live viewer v place f name) :
    (s.submission viewer v).get? name = some (f.encoding viewer v name) := by
  have member : (name, f.encoding viewer v name) ∈ s.entries viewer v :=
    (s.mem_entries _).mpr ⟨place, f, live, rfl⟩
  exact Values.get?_setAll_of_mem checked.isKeyOnly_of_mem_entries apart.pairwise_entries member

theorem Checked.get?_submission_eq_none (checked : s.Checked) {path : Path}
    (apart : ∀ place f name, s.Live viewer v place f name → name.Apart path) :
    (s.submission viewer v).get? path = none := by
  refine Values.get?_setAll_eq_none checked.isKeyOnly_of_mem_entries (fun entry member => ?_) rfl
  obtain ⟨place, f, live, -⟩ := (s.mem_entries entry).mp member
  exact apart place f entry.1 live

/-- A radio that reveals a rate while it is on, and a group of steps with a gap and a memo each. -/
def paced : Schema :=
  ⟨"Paced", "S", [⟨none, "a", [mode, steps]⟩]⟩
where
  bound (name : String) (kind : FieldKind) : Field :=
    ⟨some ⟨"a", [.key name]⟩, name, none, false, kind⟩
  nested (name : String) : NestedField :=
    ⟨⟨some ⟨name, []⟩, name, none, false, .text .plain none⟩, false⟩
  rate : Field := bound "rate" (.text .number none)
  mode : Field :=
    bound "mode" (.radio [⟨"on", .bool true, some rate⟩, ⟨"off", .bool false, none⟩])
  steps : Field := bound "steps" (.dynamic [nested "gap", nested "memo"] "Add")

theorem namesApart_paced : paced.NamesApart := by
  refine namesApart_of_list [(⟨0, 0, ⟨[], none⟩⟩, ⟨"a", [.key "mode"]⟩),
    (⟨0, 0, ⟨[0], none⟩⟩, ⟨"a", [.key "rate"]⟩), (⟨0, 1, ⟨[], none⟩⟩, ⟨"a", [.key "steps"]⟩)] ?_
    (by decide)
  rintro ⟨sectionIndex, fieldIndex, options, nested⟩ f name isDirect found named
  cases isDirect
  match sectionIndex, fieldIndex, options with
  | 0, 0, [] | 0, 0, [0] | 0, 1, [] =>
      cases found
      cases named
      simp
  | 0, 0, 0 :: _ :: _ | 0, 0, 1 :: _ | 0, 0, (_ + 2) :: _ | 0, 1, _ :: _ | 0, _ + 2, _
  | _ + 1, _, _ => cases found

end Schema

def Values.paced : Values :=
  ⟨[("a", .object [("mode", .bool true), ("rate", .int 5),
    ("steps", .array [.object [("gap", .int 1), ("memo", .text "m")]])])]⟩

end GatedForms
