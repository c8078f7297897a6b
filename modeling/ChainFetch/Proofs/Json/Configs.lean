import ChainFetch.Proofs.Json.Records
import ChainFetch.Work.Config
/-!
Configurations as they are stored. Main statement: `configs_come_back`, a configuration comes back
with its durations cut to whole milliseconds, and where they fit 64 bits it is accepted as before.
-/

namespace ChainFetch

open Json (encode decode? bind_record? bind_read?)

namespace Duration

variable {d e : Duration}

theorem encode_ne_null (d : Duration) : encode d ≠ Json.null := Json.encode_ne_null d.word

theorem toWord_le_toWord (shorter : d ≤ e) (fits : e < ofMillis UInt64.size) :
    d.toWord ≤ e.toWord := by
  have fits' : d < ofMillis UInt64.size := Nat.lt_of_le_of_lt shorter fits
  rw [toWord_of_lt fits, toWord_of_lt fits']
  exact Nat.mul_le_mul_right _ (Nat.div_le_div_right shorter)

theorem toWord_min (fits : d < ofMillis UInt64.size) (fits' : e < ofMillis UInt64.size) :
    (min d e).toWord = min d.toWord e.toWord := by
  rcases le_total d e with shorter | longer
  · rw [min_eq_left shorter, min_eq_left (toWord_le_toWord shorter fits')]
  · rw [min_eq_right longer, min_eq_right (toWord_le_toWord longer fits)]

end Duration

namespace Schedule.Config

def toWords (c : Config) : Config :=
  { c with
    interval := c.interval.toWord
    intervalMax := c.intervalMax.toWord
    intervalInit := c.intervalInit.map Duration.toWord
    startDelay := c.startDelay.toWord
    jitterMax := c.jitterMax.toWord
    errorCooldown := c.errorCooldown.toWord }

theorem decode?_encode (c : Config) : decode? (encode c) = some c.toWords := by
  have init : decode? (encode c.intervalInit) = some (c.intervalInit.map Duration.toWord) :=
    Json.decode?_encode_option Duration.encode_ne_null fun d _ => Duration.decode?_encode d
  have runs : decode? (encode c.maxRuns) = some (c.maxRuns.map id) :=
    Json.decode?_encode_option Json.encode_ne_null fun n _ => Json.decode?_encode n
  rw [Option.map_id_fun, id] at runs
  unfold decode? encode instCodec
  dsimp only
  rw [bind_record?]
  refine bind_read? (by simp) (by simp) (Json.decode?_encode c.name) ?_
  refine bind_read? (by simp) (by simp) (Duration.decode?_encode c.interval) ?_
  refine bind_read? (by simp) (by simp) (Duration.decode?_encode c.intervalMax) ?_
  refine bind_read? (by simp) (by simp) init ?_
  refine bind_read? (by simp) (by simp) (Json.decode?_encode c.accurateTiming) ?_
  refine bind_read? (by simp) (by simp) runs ?_
  refine bind_read? (by simp) (by simp) (Duration.decode?_encode c.startDelay) ?_
  refine bind_read? (by simp) (by simp) (Duration.decode?_encode c.jitterMax) ?_
  exact bind_read? (by simp) (by simp) (Duration.decode?_encode c.errorCooldown) rfl

def durations (c : Config) : List Duration :=
  c.intervalInit.toList ++ [c.interval, c.intervalMax, c.startDelay, c.jitterMax, c.errorCooldown]

/-- The whole milliseconds of every duration fit 64 bits. -/
def Fits (c : Config) : Prop := ∀ d ∈ c.durations, d < .ofMillis UInt64.size

instance (c : Config) : Decidable c.Fits :=
  inferInstanceAs (Decidable (∀ d ∈ c.durations, d < .ofMillis UInt64.size))

variable {c : Config}

theorem Fits.interval_lt (fits : c.Fits) : c.interval < .ofMillis UInt64.size :=
  fits _ (by simp [durations])

theorem Fits.intervalMax_lt (fits : c.Fits) : c.intervalMax < .ofMillis UInt64.size :=
  fits _ (by simp [durations])

theorem Fits.intervalInit_lt (fits : c.Fits) :
    c.intervalInit.getD c.interval < .ofMillis UInt64.size := by
  cases init : c.intervalInit with
  | none => exact fits.interval_lt
  | some d => exact fits d (by simp [durations, init])

theorem Fits.fault?_toWords (fits : c.Fits) (fine : c.fault? = none) : c.toWords.fault? = none := by
  rw [fault?_eq_none_iff] at fine ⊢
  obtain ⟨named, bounds, runs⟩ := fine
  exact ⟨named, Duration.toWord_le_toWord bounds fits.intervalMax_lt, runs⟩

theorem Fits.resetInterval_toWords (fits : c.Fits) :
    c.toWords.resetInterval = .ofMillis c.resetInterval.millis := by
  have init : c.toWords.intervalInit.getD c.toWords.interval =
      (c.intervalInit.getD c.interval).toWord := by
    simp only [toWords]
    cases c.intervalInit <;> rfl
  have short : c.resetInterval < .ofMillis UInt64.size :=
    Nat.lt_of_le_of_lt c.resetInterval_le fits.intervalMax_lt
  rw [← Duration.toWord_of_lt short, resetInterval, resetInterval, init,
    Duration.toWord_min fits.intervalInit_lt fits.intervalMax_lt]
  rfl

end Schedule.Config

namespace Work.Config

def toWords (c : Config) : Config := { c with schedule := c.schedule.toWords }

theorem decode?_encode (c : Config) : decode? (encode c) = some c.toWords := by
  unfold decode? encode instCodec
  dsimp only
  rw [bind_record?]
  refine bind_read? (by simp) (by simp) (Schedule.Config.decode?_encode c.schedule) ?_
  refine bind_read? (by simp) (by simp) (Json.decode?_encode c.chunkSize) ?_
  refine bind_read? (by simp) (by simp) (Json.decode?_encode c.concurrency) ?_
  exact bind_read? (by simp) (by simp) (Json.decode?_encode c.debounced) rfl

theorem fault?_toWords {c : Config} (fits : c.schedule.Fits) (fine : c.fault? = none) :
    c.toWords.fault? = none := by
  rw [fault?_eq_none_iff] at fine ⊢
  obtain ⟨chunk, concurrency, schedule⟩ := fine
  exact ⟨chunk, concurrency, fits.fault?_toWords schedule⟩

end Work.Config

/-- A configuration of a schedule or of a pool comes back with its durations cut to whole
milliseconds in 64 bits. Where they fit, one without a fault has none then, and a reset restores the
interval it did, cut like the others. -/
theorem configs_come_back :
    (∀ c : Schedule.Config, decode? (encode c) = some c.toWords ∧
      (c.Fits → (c.fault? = none → c.toWords.fault? = none) ∧
        c.toWords.resetInterval = .ofMillis c.resetInterval.millis)) ∧
    ∀ c : Work.Config, decode? (encode c) = some c.toWords ∧
      (c.schedule.Fits → (c.fault? = none → c.toWords.fault? = none) ∧
        c.toWords.schedule.resetInterval = .ofMillis c.schedule.resetInterval.millis) :=
  ⟨fun c => ⟨c.decode?_encode, fun fits => ⟨fits.fault?_toWords, fits.resetInterval_toWords⟩⟩,
    fun c => ⟨c.decode?_encode, fun fits =>
      ⟨Work.Config.fault?_toWords fits, fits.resetInterval_toWords⟩⟩⟩

def crowded : Work.Config where
  schedule :=
    { name := "crowded"
      interval := ⟨1500000⟩
      intervalMax := ⟨1700000⟩
      intervalInit := some ⟨3250000⟩
      maxRuns := some 3
      startDelay := ⟨999999⟩ }

theorem crowded_comes_back :
    crowded.schedule.Fits ∧ crowded.fault? = none ∧
      decode? (encode crowded) = some crowded.toWords ∧ crowded.toWords.fault? = none ∧
      crowded.toWords.schedule.resetInterval = .ofMillis 1 ∧
      crowded.toWords.schedule.intervalInit = some (.ofMillis 3) ∧
      crowded.schedule.toWords.fault? = none := by
  have fits : crowded.schedule.Fits := by decide
  have fine : crowded.fault? = none := by decide
  obtain ⟨back, kept⟩ := configs_come_back.2 crowded
  obtain ⟨-, keptSchedule⟩ := configs_come_back.1 crowded.schedule
  exact ⟨fits, fine, back, (kept fits).1 fine, (kept fits).2, rfl,
    (keptSchedule fits).1 (by decide)⟩

/-- A ceiling of `2 ^ 64` milliseconds comes back as none at all, and below the interval. -/
example :
    let c : Schedule.Config := { intervalMax := .ofMillis UInt64.size }
    c.fault? = none ∧
      c.toWords.fault? = some (.ceilingBelowInterval "scheduler" .zero (.ofSecs 1)) := by
  decide

end ChainFetch
