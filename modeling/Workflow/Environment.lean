import Workflow.Value
import Std.Data.ExtTreeMap

/-!
# Named values

An activity instance owns values under names: its variables and arguments. Names are listed in byte
order.
-/

namespace Workflow

/-- Values under names. -/
abbrev Environment := Std.ExtTreeMap String Value

namespace Environment

/-- Put a value under a name, whether the name is there or not. -/
def declare (env : Environment) (name : String) (v : Value) : Environment :=
  env.insert name v

/-- Put a value under a name that is there; `none` if it is not. -/
def assign? (env : Environment) (name : String) (v : Value) : Option Environment :=
  if env.contains name then some (env.insert name v) else none

end Environment

end Workflow
