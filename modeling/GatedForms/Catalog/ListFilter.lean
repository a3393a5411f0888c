import GatedForms.Catalog.Parts
import GatedForms.Rules

/-! # The list filter form -/

namespace GatedForms.Catalog.ListFilter

/-- Which leads are dialed. -/
def criteria : FormSection :=
  { title := some "Lead criteria"
    backendKey := "criteria"
    fields :=
      [ field (under "criteria" "name") "Filter name" (.text .plain (some "e.g. Warm leads (EU)"))
      , field (under "criteria" "statuses") "Lead statuses"
          (.checkbox (some
            [ option "New" "new", option "Callback" "callback"
            , option "No answer" "no_answer", option "Busy" "busy" ]))
      , field (under "criteria" "age") "Lead age"
          (.radio
            [ option "Any age" "any"
            , revealing "Created within" "within"
                (field (under "criteria" "maxAgeDays") "Days" numberInput) ])
      , { field (under "criteria" "excludeDnc") "Exclude do-not-call numbers" .toggle with
          tooltip :=
            some "Numbers on the internal or national do-not-call registry are skipped." } ] }

/-- In which order leads are dialed. -/
def ordering : FormSection :=
  { title := some "Ordering"
    backendKey := "ordering"
    fields :=
      [ field (under "ordering" "strategy") "Dial order"
          (.radio
            [ option "Oldest first" "oldest", option "Newest first" "newest"
            , option "Random" "random" ])
      , static "Leads already in a running campaign keep their position." ] }

def actions : FormSection :=
  { title := none
    backendKey := "actions"
    fields :=
      [ button "Back" .previous "2:0:PREVIOUS", button "Next" .next "2:1:NEXT"
      , button "Save filter" .submit "save-filter" ] }

def schema : Schema := ⟨"List Filter", "List Filter", [criteria, ordering, actions]⟩

/-- What the backend demands of the values. -/
def rules : List RuleSpec :=
  [⟨"criteria.name", none, .required⟩, ⟨"criteria.maxAgeDays", none, .range 1 365⟩]

end GatedForms.Catalog.ListFilter
