import ChainFetch.Direction
import ChainFetch.Schedule.Config
import ChainFetch.Schedule.Rate
/-!
Configuration of a fetcher: a schedule for each direction that it is to follow.
-/

namespace ChainFetch.Fetch

structure Config where
  id : String
  schedules : Both (Option Schedule.Config) := ⟨none, none⟩
  rate : Option Schedule.Rate := none
  deriving DecidableEq, Inhabited

/-- What a tick of one direction goes by. -/
structure Lane where
  direction : Direction
  schedule : Schedule.Config
  rate : Option Schedule.Rate
  deriving DecidableEq, Inhabited

namespace Config

/-- The first fault: no id, no direction, then the faults of the schedules, forward first. -/
def fault? (c : Config) : Option ConfigFault :=
  if c.id = "" then some .unnamedFetcher
  else if Direction.all.all fun d => (c.schedules.get d).isNone then some (.noDirection c.id)
  else Direction.all.findSome? fun d => (c.schedules.get d).bind (·.fault?)

theorem fault?_eq_none_iff {c : Config} :
    c.fault? = none ↔ c.id ≠ "" ∧ (∃ d, (c.schedules.get d).isSome) ∧
      ∀ d base, c.schedules.get d = some base → base.fault? = none := by
  have bare : (Direction.all.all fun d => (c.schedules.get d).isNone) = true ↔
      ¬ ∃ d, (c.schedules.get d).isSome := by
    simp [Direction.mem_all]
  have fine : (Direction.all.findSome? fun d => (c.schedules.get d).bind (·.fault?)) = none ↔
      ∀ d base, c.schedules.get d = some base → base.fault? = none := by
    simp [Direction.mem_all]
  rw [← fine, fault?]
  by_cases named : c.id = ""
  · simp [named]
  · by_cases scheduled : ∃ d, (c.schedules.get d).isSome
    · rw [if_neg named, if_neg (mt bare.mp (not_not_intro scheduled))]
      exact ⟨fun same => ⟨named, scheduled, same⟩, fun same => same.2.2⟩
    · rw [if_neg named, if_pos (bare.mpr scheduled)]
      simp [scheduled]

def lane? (c : Config) (d : Direction) : Option Lane :=
  (c.schedules.get d).map fun schedule =>
    { direction := d, schedule := schedule, rate := if d = .forward then c.rate else none }

def startFrequency (c : Config) (d : Direction) : Duration :=
  match c.schedules.get d with
  | some schedule => schedule.startInterval
  | none => .ofSecs 1

end Config
end ChainFetch.Fetch
