/-
  NodeQuorum.Table — finite maps in the order of their keys.

  Two tables with the same entries are equal, whatever was written to them in which order.
-/

import Std.Data.ExtTreeMap

namespace NodeQuorum

/-- A finite map. -/
abbrev Table (κ : Type) (α : Type) [Ord κ] := Std.ExtTreeMap κ α compare

/-- A finite set. -/
abbrev Roster (κ : Type) [Ord κ] := Std.ExtTreeMap κ Unit compare

end NodeQuorum
