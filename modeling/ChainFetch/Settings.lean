import ChainFetch.Binary64.Text
import ChainFetch.Fetch.Config
import ChainFetch.Text.Blank
import ChainFetch.Text.Digits
import ChainFetch.Work.Config
/-!
Settings of a fetcher and its pool, read from named texts such as environment variables. A text that
does not read is as good as none, and what is not set has a default.
-/

namespace ChainFetch

structure Settings where
  fetcherId : String := "blocks"
  databaseUrl : Option String := none
  interval : Both Duration := ⟨.ofSecs 2, .ofMillis 250⟩
  intervalMax : Duration := .ofSecs 60
  jitterMax : Duration := .zero
  poolInterval : Duration := .ofSecs 5
  poolChunkSize : UInt64 := 50
  poolConcurrency : UInt64 := 4
  rate : Option Schedule.Rate := none
  deriving DecidableEq, Inhabited

namespace Settings

def count? (text : String) : Option UInt64 := Text.readCount? (Text.trim text.toList)

def millis? (text : String) : Option Duration := (count? text).map fun n => .ofMillis n.toNat

def ratio? (text : String) : Option Binary64 :=
  (Binary64.read? (String.ofList (Text.trim text.toList))).filter fun x =>
    x.isFinite && x.isPositive

def filled? (text : String) : Option String := if text = "" then none else some text

def ofLookup (lookup : String → Option String) : Settings :=
  let standard : Settings := {}
  { fetcherId := ((lookup "FETCHER_ID").bind filled?).getD standard.fetcherId
    databaseUrl := (lookup "DATABASE_URL").bind filled?
    interval :=
      ⟨((lookup "FETCHER_FORWARD_INTERVAL_MS").bind millis?).getD standard.interval.forward,
        ((lookup "FETCHER_BACKWARD_INTERVAL_MS").bind millis?).getD standard.interval.backward⟩
    intervalMax := ((lookup "FETCHER_INTERVAL_MAX_MS").bind millis?).getD standard.intervalMax
    jitterMax := ((lookup "FETCHER_JITTER_MS").bind millis?).getD standard.jitterMax
    poolInterval := ((lookup "FETCHER_POOL_INTERVAL_MS").bind millis?).getD standard.poolInterval
    poolChunkSize := ((lookup "FETCHER_POOL_CHUNK_SIZE").bind count?).getD standard.poolChunkSize
    poolConcurrency :=
      ((lookup "FETCHER_POOL_CONCURRENCY").bind count?).getD standard.poolConcurrency
    rate := ((lookup "FETCHER_RATE_RATIO").bind ratio?).map fun ratio =>
      .new ratio (((lookup "FETCHER_RATE_THRESHOLD").bind count?).getD 1000) }

/-- The schedule of one direction. Its ceiling is never below its interval. -/
def schedule (s : Settings) (d : Direction) : Schedule.Config where
  name := s.fetcherId ++ "/" ++ d.text
  interval := s.interval.get d
  intervalMax := max s.intervalMax (s.interval.get d)
  jitterMax := s.jitterMax
  accurateTiming := true

def fetcherConfig (s : Settings) : Fetch.Config where
  id := s.fetcherId
  schedules := ⟨some (s.schedule .forward), some (s.schedule .backward)⟩
  rate := s.rate

def poolConfig (s : Settings) (name : String) : Work.Config where
  schedule := {
    name := name
    interval := s.poolInterval
    intervalMax := max s.intervalMax s.poolInterval }
  chunkSize := s.poolChunkSize
  concurrency := s.poolConcurrency
  debounced := true

example : millis? " 250\n" = some (.ofMillis 250) ∧ millis? "2.5" = none := by decide +kernel
example : (ratio? "0").isNone ∧ (ratio? "inf").isNone ∧ (ratio? "1e-3").isSome := by
  decide +kernel

end Settings
end ChainFetch
