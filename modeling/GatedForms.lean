import GatedForms.Field.Build
import GatedForms.Group
import GatedForms.Main
import GatedForms.Proofs.Button.Clock
import GatedForms.Proofs.Button.Events
import GatedForms.Proofs.Button.Independence
import GatedForms.Proofs.Button.Progress
import GatedForms.Proofs.CommandLine.Submitted
import GatedForms.Proofs.Form.Calls
import GatedForms.Proofs.Form.Cursor
import GatedForms.Proofs.Form.Screen
import GatedForms.Proofs.Form.Simulated
import GatedForms.Proofs.Form.Steps
import GatedForms.Proofs.Gating.Composition
import GatedForms.Proofs.Gating.Depth
import GatedForms.Proofs.Gating.Frame
import GatedForms.Proofs.Gating.Marks
import GatedForms.Proofs.Group.Edits
import GatedForms.Proofs.Group.Repetitions
import GatedForms.Proofs.Paths.Slices
import GatedForms.Proofs.Places
import GatedForms.Proofs.Schema.Checked
import GatedForms.Proofs.Schema.Clashes
import GatedForms.Proofs.Schema.RoundTrip
import GatedForms.Proofs.Schema.WellFormed
import GatedForms.Proofs.Submission.Exact
import GatedForms.Proofs.Submission.Locked
import GatedForms.Proofs.Submission.Revealed
import GatedForms.Proofs.Submission.Shown
import GatedForms.Proofs.Submission.Stable
import GatedForms.Proofs.Validation.Agreement
import GatedForms.Proofs.Validation.Declared
import GatedForms.Proofs.Validation.Delivered
import GatedForms.Proofs.Validation.Seen
import GatedForms.Proofs.Values.Frame
import GatedForms.Proofs.Values.Padding
import GatedForms.Proofs.Values.Strip
import GatedForms.Proofs.Values.Stripped
