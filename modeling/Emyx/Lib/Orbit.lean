/-
  File:      Emyx/Lib/Orbit.lean
  Subject:   ORBITS OF A FUNCTION WITH FINITELY MANY VALUES. Nothing here is about one program.

  A loop whose only state is a word of `n` bits takes at most `2^n` states. So it runs for ever
  as soon as it has run one turn longer than that, and a bound on the turns decides whether it
  ends.
-/
import Mathlib.Tactic

namespace Emyx.Lib

variable {f : Nat → Nat} {N a : Nat}

end Emyx.Lib
