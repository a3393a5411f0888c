import GatedForms.Catalog.Parts
import GatedForms.Rules

/-! # The list exit strategy form -/

namespace GatedForms.Catalog.ListExitStrategy

/-- One attempt to reach a lead. -/
def attempt : List NestedField :=
  [ ⟨{ field (nestedName "gap") "Delay before attempt (minutes)" numberInput with
        tooltip := some "The first attempt always dials immediately." }, true⟩
  , ⟨field (nestedName "onNoAnswer") "When nobody answers"
      (.radio [option "Hang up" "hang_up", option "Leave voicemail" "voicemail"]), false⟩
  , ⟨field (nestedName "sendSms") "Send follow-up SMS" .toggle, false⟩ ]

/-- How often a lead is dialed. -/
def exitStrategy : FormSection :=
  { title := some "Dialing attempts"
    backendKey := "exitStrategy"
    fields :=
      [ field (under "exitStrategy" "maxAttempts") "Maximum attempts per lead" numberInput
      , field (under "exitStrategy" "attempts") "Attempt schedule"
          (.dynamic attempt "Add attempt") ] }

/-- What becomes of a lead at the end. -/
def exitRules : FormSection :=
  { title := some "Exit rules"
    backendKey := "exitRules"
    fields :=
      [ field (under "exitRules" "finalDisposition") "After the last attempt"
          (.radio
            [ option "Close lead" "close", option "Move to nurture list" "nurture"
            , option "Recycle after 30 days" "recycle" ]) ] }

def actions : FormSection :=
  { title := none
    backendKey := "actions"
    fields :=
      [ button "Back" .previous "2:0:PREVIOUS", button "Next" .next "2:1:NEXT"
      , button "Save strategy" .submit "save-strategy" ] }

def schema : Schema :=
  ⟨"List Exit Strategy", "List Exit Strategy", [exitStrategy, exitRules, actions]⟩

/-- What the backend demands of the values. -/
def rules : List RuleSpec :=
  [ ⟨"exitStrategy.maxAttempts", none, .required⟩
  , ⟨"exitStrategy.maxAttempts", none, .range 1 20⟩
  , ⟨"exitStrategy.attempts", some "gap", .range 0 10080⟩
  , ⟨"exitRules.finalDisposition", none, .required⟩ ]

end GatedForms.Catalog.ListExitStrategy
