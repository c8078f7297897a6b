import ChainFetch.Duration.Text
/-!
What can go wrong, as causes. `Failure.message` is the one place that words them.
-/

namespace ChainFetch

inductive StoreFailure
  | database (text : String)
  | serialization (text : String)
  deriving DecidableEq, Inhabited

def StoreFailure.message : StoreFailure → String
  | database text => "database error: " ++ text
  | serialization text => "serialization error: " ++ text

inductive ConfigFault
  | unnamedSchedule
  | ceilingBelowInterval (name : String) (ceiling interval : Duration)
  | noRuns (name : String)
  | emptyChunk
  | noConcurrency
  | unnamedFetcher
  | noDirection (id : String)
  | unscheduled (direction id : String)
  | other (text : String)
  deriving DecidableEq, Inhabited

def ConfigFault.message : ConfigFault → String
  | unnamedSchedule => "scheduler name must not be empty"
  | ceilingBelowInterval name ceiling interval =>
    name ++ ": interval_max (" ++ ceiling.text ++ ") is below interval (" ++ interval.text ++ ")"
  | noRuns name => name ++ ": max_runs must be at least 1"
  | emptyChunk => "chunk_size must be positive"
  | noConcurrency => "concurrency must be positive"
  | unnamedFetcher => "fetcher id must not be empty"
  | noDirection id => "fetcher " ++ id ++ " configures neither direction"
  | unscheduled direction id => direction ++ " is not configured for " ++ id
  | other text => text

inductive Failure
  | fetch (text : String)
  | store (cause : StoreFailure)
  | config (fault : ConfigFault)
  | work (text : String)
  deriving DecidableEq, Inhabited

def Failure.message : Failure → String
  | fetch text => "fetch error: " ++ text
  | store cause => "store error: " ++ cause.message
  | config fault => "configuration error: " ++ fault.message
  | work text => "work handler error: " ++ text

end ChainFetch
