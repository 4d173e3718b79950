import WebLinked.Core.ShowFile

/-!
# Documents the control API accepts

`src/control/control_api.cpp`. A refused document is answered with its error and a 400.
-/

namespace WebLinked.Control

open WebLinked.Core Json

/-- `readSourceConfig`; `src/control/control_api.cpp:68`. -/
def readSourceConfig (value : Value) (defaultId : String := "") : Except String SourceConfig := do
  let config ← SourceConfig.fromJson value
  let config := if config.id = "" then { config with id := defaultId } else config
  config.validate
  .ok config

/-- The sources that `/api/sources/apply` wants; `src/control/control_api.cpp:778–785`. -/
def readSources : List Value → Except String (List SourceConfig)
  | [] => .ok []
  | value :: list => do
    let config ← readSourceConfig value
    .ok (config :: (← readSources list))

/-- What `/api/sources/apply` wants; `src/control/control_api.cpp:772–785`. -/
def sourcesApply (body : Value) : Except String AppConfig :=
  if (body.get "sources").isArray = false then .error "expected \x7b\"sources\": [ ... ]\x7d"
  else do .ok { sources := (← readSources (body.get "sources").elements) }

end WebLinked.Control
