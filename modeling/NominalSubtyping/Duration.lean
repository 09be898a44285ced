/-!
# Durations

Deadlines are measured in whole nanoseconds. A duration is written in the largest of the units
`s`, `ms`, `µs`, `ns` of which it holds at least one, as an exact decimal without trailing zeros.

## Main definitions

* `Duration.render` : the text of a duration.
-/

namespace NominalSubtyping

/-- A span of time. -/
structure Duration where
  nanoseconds : Nat
  deriving DecidableEq, Repr

namespace Duration

/-- The decimal that has the digits of `value`, the last `places` of them behind the point, without
trailing zeros there. Some digit must stand before the point. -/
def decimal (value places : Nat) : String :=
  let digits := Nat.toDigits 10 value
  let whole := digits.take (digits.length - places)
  let fraction := digits.drop (digits.length - places)
  match (fraction.reverse.dropWhile (· = '0')).reverse with
  | [] => String.ofList whole
  | fraction => String.ofList whole ++ "." ++ String.ofList fraction

/-- The text of a duration. -/
def render (d : Duration) : String :=
  if 1_000_000_000 ≤ d.nanoseconds then decimal d.nanoseconds 9 ++ "s"
  else if 1_000_000 ≤ d.nanoseconds then decimal d.nanoseconds 6 ++ "ms"
  else if 1_000 ≤ d.nanoseconds then decimal d.nanoseconds 3 ++ "µs"
  else toString d.nanoseconds ++ "ns"

example : render ⟨1_000_000_001⟩ = "1.000000001s" := by decide +kernel

example : render ⟨1_500_000⟩ = "1.5ms" := by decide +kernel

example : render ⟨60_000_000_000⟩ = "60s" := by decide +kernel

end Duration

end NominalSubtyping
