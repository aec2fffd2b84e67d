import TapeTutor.Interpreter
import TapeTutor.Text.Json

/-!
# Results as JSON

The flat view of a result: whether the run came to its end, what it wrote, the fault if it
failed, and how many instructions it executed.
-/

namespace TapeTutor

/-- A result as a JSON object. -/
def Execution.json : Execution → String
  | .ok done =>
      Text.jsonObject
        [("success", "true"), ("output", Text.jsonString (Text.showBytes done.output)),
          ("iterations", toString done.iterations)]
  | .error failure =>
      Text.jsonObject
        [("success", "false"), ("output", Text.jsonString (Text.showBytes failure.output)),
          ("error", Text.jsonString failure.fault.message),
          ("iterations", toString failure.iterations)]

end TapeTutor
