import TalOutline.Error

/-!
Cancelling a scan. A scan asks whether it is cancelled just before it reads a line, and stops if
so. It never gives a partial result.
-/
namespace TalOutline

inductive CancelPoint where
  | never
  | already -- before the scan begins
  | reading (line : Nat) -- when the line is read for the first time
  deriving DecidableEq, Repr

namespace CancelPoint

def atLine (n : Int) : CancelPoint :=
  if n < 0 then .already else .reading n.toNat

/-- Asks whether the scan is cancelled, and then reads a line, which may be the moment for it. -/
def poll (point : CancelPoint) (n : Nat) : Except Error CancelPoint :=
  match point with
  | .never => .ok .never
  | .already => .error .cancelled
  | .reading line => .ok (if line = n then .already else .reading line)

end CancelPoint

/-- A scan that asks whether it is cancelled. Its state is the moment of cancelling still to come. -/
abbrev Polling := StateT CancelPoint (Except Error)

def Polling.ask (n : Nat) : Polling Unit :=
  fun point => (point.poll n).map ((), ·)

end TalOutline
