import Stencil.Number.Basic

/-!
# Json

The values of JSON.  An object keeps the order of its fields, and a number keeps its kind, so that
a printer can tell an integer from a double.
-/

namespace Stencil

/-- A value of JSON. -/
inductive Json
  | null
  | boolean (value : Bool)
  | number (value : Number)
  | string (value : String)
  | array (elements : List Json)
  | object (fields : List (String × Json))

instance : Inhabited Json := ⟨.null⟩

end Stencil
