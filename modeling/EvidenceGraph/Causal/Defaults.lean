/-
# `EvidenceGraph.Causal.Defaults` — walks that name neither depth nor direction.
-/
import EvidenceGraph.Causal.Walk
import EvidenceGraph.Settings.Basic

namespace EvidenceGraph

namespace Causal

/-- The depth and the direction of a walk that does not name them. -/
structure Defaults where
  maxDepth : Nat := 5
  direction : Direction := .downstream
deriving DecidableEq, Repr, Inhabited

/-- The defaults that settings ask for, if the direction they name is one. -/
def Defaults.ofSettings (s : Settings.Engine) : Except Error Defaults :=
  (Direction.ofName s.defaultDirection).map fun direction => ⟨s.defaultMaxDepth.toNat, direction⟩

end Causal

/-- Walk from an id as deep and in the direction that the defaults say. -/
def Store.walkByDefault (s : Store) (defaults : Causal.Defaults) (root : String) : Causal.Graph :=
  s.walk root defaults.maxDepth defaults.direction

end EvidenceGraph
