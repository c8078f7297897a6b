import ChainFetch.Schedule.Signal
/-!
An interval that follows throughput: with `ratio` items wanted per tick and `count` seen, the next
interval is `ratio / count` times the present one, and twice it when none came.
-/

namespace ChainFetch.Schedule

structure Rate where
  ratio : Binary64
  threshold : UInt64
  deriving DecidableEq, Inhabited

namespace Rate

def new (ratio : Binary64) (threshold : UInt64) : Rate :=
  let ratio :=
    if ratio.isNaN ∨ ratio.isNegative ∨ ratio.bits < Binary64.leastNormal.bits then
      Binary64.leastNormal
    else if Binary64.largest.bits < ratio.bits then Binary64.largest
    else ratio
  ⟨ratio, threshold⟩

def factor (r : Rate) (count : UInt64) : Float :=
  if count = 0 then 2 else r.ratio.toFloat / count.toFloat

/-- The signal after `count` items in an interval that counts as one second at least. An interval
that no duration holds is the longest one. -/
def signal (r : Rate) (interval : Duration) (count : UInt64) : Signal :=
  if r.threshold < count then .reset
  else
    let base := max interval (.ofSecs 1)
    let next := Binary64.ofFloat (base.toReal * r.factor count)
    .interval ((Duration.ofReal? next).getD .longest)

instance : Json.Codec Rate where
  encode r := .ofFields [("ratio", Json.encode r.ratio),
    ("ratio_threshold", Json.encode r.threshold)]
  decode? j := do
    let r ← j.record? 2
    pure {
      ratio := ← r.read? 0 "ratio" Json.required
      threshold := ← r.read? 1 "ratio_threshold" Json.required }

end Rate
end ChainFetch.Schedule
