import ChainFetch.Duration
import ChainFetch.Text.Digits
/-!
A duration for reading: a decimal number of the largest unit that it reaches, among seconds,
milliseconds, microseconds and nanoseconds.
-/

namespace ChainFetch.Duration

/-- `whole` and a fraction of `places` digits, without trailing zeros and with no point before
nothing. -/
def decimalText (whole part places : Nat) : String :=
  let ds := (Text.padded places part).toList.reverse.dropWhile (· = '0')
  if ds = [] then toString whole else toString whole ++ "." ++ String.ofList ds.reverse

def text (d : Duration) : String :=
  if 1000000000 ≤ d.nanos then decimalText d.secs d.subNanos 9 ++ "s"
  else if 1000000 ≤ d.nanos then decimalText (d.nanos / 1000000) (d.nanos % 1000000) 6 ++ "ms"
  else if 1000 ≤ d.nanos then decimalText (d.nanos / 1000) (d.nanos % 1000) 3 ++ "µs"
  else toString d.nanos ++ "ns"

example : text (ofParts 300 1000000) = "300.001s" ∧ text ⟨1500000⟩ = "1.5ms" := by decide +kernel
example : text ⟨1499⟩ = "1.499µs" ∧ text ⟨0⟩ = "0ns" ∧ text ⟨999⟩ = "999ns" := by decide +kernel

end ChainFetch.Duration
