/-!
Settings of the log output, read from named texts such as environment variables.
-/

namespace ChainFetch

structure LogSettings where
  serviceName : String := "indexer-fetcher"
  logFilter : Option String := none
  withTarget : Bool := true
  deriving DecidableEq, Inhabited

namespace LogSettings

/-- Whether a text spells "false"; no other letters than A to Z have these as their small forms. -/
def isFalse (text : String) : Bool := text.map Char.toLower = "false"

def ofLookup (lookup : String → Option String) : LogSettings where
  serviceName := (lookup "SERVICE_NAME").getD "indexer-fetcher"
  logFilter := (lookup "RUST_LOG").or (lookup "LOG_LEVEL")
  withTarget := !(lookup "LOG_TARGET").any isFalse

example : isFalse "FaLSE" = true ∧ isFalse "no" = false := by decide +kernel

end LogSettings
end ChainFetch
