import GatedForms.Catalog.Parts
import GatedForms.Rules

/-! # The call recording form -/

namespace GatedForms.Catalog.CallRecording

/-- Which calls are recorded. -/
def recording : FormSection :=
  { title := some "Recording rules"
    backendKey := "recording"
    fields :=
      [ field (under "recording" "enabled") "Record calls" .toggle
      , field (under "recording" "mode") "Which calls"
          (.radio
            [ option "All calls" "all"
            , revealing "A sample of calls" "sampled"
                (field (under "recording" "sampleRate") "Sample rate (%)" numberInput) ])
      , { field (under "recording" "announce") "Play recording announcement" (.checkbox none) with
          tooltip := some "Required in two-party consent jurisdictions." } ] }

/-- How long recordings are kept. -/
def retention : FormSection :=
  { title := some "Retention"
    backendKey := "retention"
    fields :=
      [ field (under "retention" "days") "Keep recordings for (days)" numberInput
      , static "Recordings older than the retention period are deleted nightly." ] }

def actions : FormSection :=
  { title := none
    backendKey := "actions"
    fields :=
      [ button "Play announcement" .custom "play-announcement"
      , button "Save rules" .submit "save-rules" ] }

def schema : Schema := ⟨"Call Recording", "Call Recording", [recording, retention, actions]⟩

/-- What the backend demands of the values. -/
def rules : List RuleSpec :=
  [ ⟨"recording.sampleRate", none, .range 1 100⟩
  , ⟨"retention.days", none, .required⟩
  , ⟨"retention.days", none, .range 1 3650⟩ ]

end GatedForms.Catalog.CallRecording
