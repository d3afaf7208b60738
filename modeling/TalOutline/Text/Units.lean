/-! Widths in UTF-16 code units. A character outside the basic plane takes two. -/
namespace TalOutline.Text

def charUnits (c : Char) : Nat :=
  if c.toNat < 0x10000 then 1 else 2

def units : List Char → Nat
  | [] => 0
  | c :: rest => charUnits c + units rest

end TalOutline.Text
