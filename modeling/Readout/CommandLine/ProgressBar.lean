/-!
# The progress bar

A bar of 70 places with an arrow head at the fraction that is done, the percentage, and a carriage
return, so that the next bar is drawn over it.
-/

namespace Readout.CommandLine.ProgressBar

/-- The places of the bar. -/
def width : Nat := 70

/-- The fraction that is drawn: from zero to one, and zero where there is none to speak of. -/
def clamp (fraction : Float) : Float :=
  if fraction < 0 then 0 else if 1 < fraction then 1 else fraction

/-- The whole part of a multiple of a fraction. -/
def part (fraction : Float) (whole : Nat) : Nat := (fraction * whole.toFloat).toUInt64.toNat

/-- What stands in a place when the arrow head is at `head`. -/
def mark (head place : Nat) : Char :=
  if place < head then '=' else if place = head then '>' else ' '

/-- The bar for a fraction. -/
def text (fraction : Float) : String :=
  let fraction := clamp fraction
  let bar := (List.range width).map (mark (part fraction width))
  "[" ++ String.ofList bar ++ "] " ++ toString (part fraction 100) ++ " %\r"

/-- The bar for so many of so many. -/
def ofCounts (done total : Nat) : String := text (done.toFloat / total.toFloat)

end Readout.CommandLine.ProgressBar
