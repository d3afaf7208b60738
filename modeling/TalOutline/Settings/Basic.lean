/-! Settings: the outline, folding and the cache can each be turned off. -/
namespace TalOutline

structure Settings where
  symbols : Bool := true
  folding : Bool := true
  cache : Bool := true
  deriving DecidableEq, Repr, Inhabited

end TalOutline
