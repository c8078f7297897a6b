import ChainFetch.Settings
/-!
What comes of settings, whatever texts they are read from. Main statement: `ofLookup_schedulable`,
their fetcher is always accepted, and their pool unless it has no room for an item or a batch.
-/

namespace ChainFetch.Settings

variable {lookup : String → Option String} {s : Settings} {name : String}

theorem ne_empty_of_filled? {text id : String} (h : filled? text = some id) : id ≠ "" := by
  unfold filled? at h
  split at h
  · cases h
  · rename_i filled
    cases h
    exact filled

theorem fetcherId_ofLookup_ne_empty (lookup : String → Option String) :
    (ofLookup lookup).fetcherId ≠ "" := by
  change ((lookup "FETCHER_ID").bind filled?).getD "blocks" ≠ ""
  cases set : (lookup "FETCHER_ID").bind filled? with
  | none => decide
  | some id =>
    obtain ⟨text, -, filled⟩ := Option.bind_eq_some_iff.mp set
    exact ne_empty_of_filled? filled

/-! ## Schedules -/

theorem fault?_schedule (s : Settings) (d : Direction) : (s.schedule d).fault? = none := by
  rw [Schedule.Config.fault?_eq_none_iff]
  refine ⟨?_, Duration.le_max_right _ _, (Option.some_ne_none 0).symm⟩
  simp [schedule]

theorem resetInterval_schedule (s : Settings) (d : Direction) :
    (s.schedule d).resetInterval = s.interval.get d := by
  rw [Schedule.Config.resetInterval_of_intervalInit rfl,
    Schedule.Config.startInterval_of_le (Duration.le_max_right _ _)]
  rfl

theorem schedules_fetcherConfig (s : Settings) (d : Direction) :
    s.fetcherConfig.schedules.get d = some (s.schedule d) := by
  cases d <;> rfl

/-! ## Fetchers and pools -/

theorem fault?_fetcherConfig (named : s.fetcherId ≠ "") : s.fetcherConfig.fault? = none := by
  rw [Fetch.Config.fault?_eq_none_iff]
  refine ⟨named, ⟨.forward, rfl⟩, fun d base scheduled => ?_⟩
  rw [schedules_fetcherConfig] at scheduled
  cases scheduled
  exact s.fault?_schedule d

theorem fault?_poolConfig_eq_none_iff (named : name ≠ "") :
    (s.poolConfig name).fault? = none ↔ s.poolChunkSize ≠ 0 ∧ s.poolConcurrency ≠ 0 := by
  have schedule : (s.poolConfig name).schedule.fault? = none :=
    Schedule.Config.fault?_eq_none_iff.mpr
      ⟨named, Duration.le_max_right _ _, (Option.some_ne_none 0).symm⟩
  rw [Work.Config.fault?_eq_none_iff]
  exact ⟨fun ⟨chunk, concurrency, _⟩ => ⟨chunk, concurrency⟩,
    fun ⟨chunk, concurrency⟩ => ⟨chunk, concurrency, schedule⟩⟩

/-- The defaults are above zero, so only a text that spells zero gives a pool that is refused. -/
theorem fault?_poolConfig_ofLookup_eq_none_iff (named : name ≠ "") :
    ((ofLookup lookup).poolConfig name).fault? = none ↔
      (lookup "FETCHER_POOL_CHUNK_SIZE").bind count? ≠ some 0 ∧
        (lookup "FETCHER_POOL_CONCURRENCY").bind count? ≠ some 0 := by
  have zero {standard : UInt64} (above : standard ≠ 0) (read : Option UInt64) :
      read.getD standard ≠ 0 ↔ read ≠ some 0 := by
    cases read <;> simp [above]
  rw [fault?_poolConfig_eq_none_iff named]
  exact and_congr (zero (by decide) _) (zero (by decide) _)

/-- Whatever the texts, the fetcher that they give is accepted: both directions have a schedule,
whose ceiling is not below its interval and which a reset takes back to that interval. A pool with a
name is accepted exactly if its batches have items and its window has room, and its ceiling is not
below its interval either. -/
theorem ofLookup_schedulable (lookup : String → Option String) :
    (ofLookup lookup).fetcherConfig.fault? = none ∧
    (∀ d, ∃ base, (ofLookup lookup).fetcherConfig.schedules.get d = some base ∧
      base.interval = (ofLookup lookup).interval.get d ∧ base.interval ≤ base.intervalMax ∧
      base.resetInterval = (ofLookup lookup).interval.get d) ∧
    ∀ name, name ≠ "" →
      (((ofLookup lookup).poolConfig name).fault? = none ↔
        (ofLookup lookup).poolChunkSize ≠ 0 ∧ (ofLookup lookup).poolConcurrency ≠ 0) ∧
      ((ofLookup lookup).poolConfig name).schedule.interval ≤
        ((ofLookup lookup).poolConfig name).schedule.intervalMax := by
  refine ⟨fault?_fetcherConfig (fetcherId_ofLookup_ne_empty lookup), ?_, ?_⟩
  · intro d
    exact ⟨(ofLookup lookup).schedule d, schedules_fetcherConfig _ d, rfl,
      Duration.le_max_right _ _, resetInterval_schedule _ d⟩
  · intro name named
    exact ⟨fault?_poolConfig_eq_none_iff named, Duration.le_max_right _ _⟩

/-- An empty id, a ceiling below an interval that stands between blanks, batches of no items, and a
window that is no number. -/
def bleak : String → Option String
  | "FETCHER_ID" => some ""
  | "FETCHER_FORWARD_INTERVAL_MS" => some " 90000\n"
  | "FETCHER_INTERVAL_MAX_MS" => some "1"
  | "FETCHER_POOL_CHUNK_SIZE" => some "0"
  | "FETCHER_POOL_CONCURRENCY" => some "lots"
  | _ => none

theorem ofLookup_schedulable_bleak :
    (ofLookup bleak).fetcherConfig.fault? = none ∧
    (∃ base, (ofLookup bleak).fetcherConfig.schedules.forward = some base ∧
      base.interval ≤ base.intervalMax ∧ base.resetInterval = .ofSecs 90) ∧
    (ofLookup bleak).intervalMax = .ofMillis 1 ∧ "refresh" ≠ "" ∧
    ((ofLookup bleak).poolConfig "refresh").fault? ≠ none ∧
    ((ofLookup fun _ => none).poolConfig "refresh").fault? = none ∧
    ((ofLookup bleak).poolConfig "refresh").schedule.interval ≤
      ((ofLookup bleak).poolConfig "refresh").schedule.intervalMax := by
  have named : "refresh" ≠ "" := by decide
  have interval : (ofLookup bleak).interval.get .forward = .ofSecs 90 := by decide +kernel
  have chunk : (ofLookup bleak).poolChunkSize = 0 := by decide +kernel
  obtain ⟨fetcher, schedules, pools⟩ := ofLookup_schedulable bleak
  obtain ⟨base, scheduled, -, ceiling, reset⟩ := schedules .forward
  obtain ⟨accepted, bounded⟩ := pools "refresh" named
  obtain ⟨-, -, unset⟩ := ofLookup_schedulable fun _ => none
  refine ⟨fetcher, ⟨base, scheduled, ceiling, reset.trans interval⟩, by decide +kernel, named,
    fun fine => (accepted.mp fine).1 chunk, (unset "refresh" named).1.mpr ?_, bounded⟩
  decide +kernel

end ChainFetch.Settings
