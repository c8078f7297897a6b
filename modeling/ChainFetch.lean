import ChainFetch.Failure
import ChainFetch.Json.Printer
import ChainFetch.Json.Reader
import ChainFetch.Proofs.Cursor
import ChainFetch.Proofs.Driver
import ChainFetch.Proofs.Fetch.Cadence
import ChainFetch.Proofs.Fetch.Ceiling
import ChainFetch.Proofs.Fetch.Completion
import ChainFetch.Proofs.Fetch.Cursors
import ChainFetch.Proofs.Fetch.Failing
import ChainFetch.Proofs.Fetch.Gate
import ChainFetch.Proofs.Fetch.Halves
import ChainFetch.Proofs.Fetch.History
import ChainFetch.Proofs.Fetch.Launch
import ChainFetch.Proofs.Fetch.Ledger
import ChainFetch.Proofs.Fetch.Locking
import ChainFetch.Proofs.Fetch.Moves
import ChainFetch.Proofs.Fetch.NextRun
import ChainFetch.Proofs.Fetch.Resuming
import ChainFetch.Proofs.Fetch.Rounds
import ChainFetch.Proofs.Fetch.Shifts
import ChainFetch.Proofs.Fetch.Starting
import ChainFetch.Proofs.Fetch.Stopping
import ChainFetch.Proofs.Instant.Calendar
import ChainFetch.Proofs.Instant.Text
import ChainFetch.Proofs.Json.Configs
import ChainFetch.Proofs.Json.Records
import ChainFetch.Proofs.Json.States
import ChainFetch.Proofs.Schedule.Alone
import ChainFetch.Proofs.Schedule.Counters
import ChainFetch.Proofs.Schedule.Drift
import ChainFetch.Proofs.Schedule.Failures
import ChainFetch.Proofs.Schedule.Intervals
import ChainFetch.Proofs.Schedule.Lifecycle
import ChainFetch.Proofs.Schedule.Stages
import ChainFetch.Proofs.Schedule.Tally
import ChainFetch.Proofs.Schedule.Wakes
import ChainFetch.Proofs.Settings
import ChainFetch.Proofs.Table
import ChainFetch.Proofs.Text.Bytes
import ChainFetch.Proofs.Trace
import ChainFetch.Proofs.Window
import ChainFetch.Proofs.Window.Timetable
import ChainFetch.Proofs.Window.Timing
import ChainFetch.Proofs.Work.Dispatch
import ChainFetch.Proofs.Work.Earned
import ChainFetch.Proofs.Work.Faults
import ChainFetch.Proofs.Work.Journal
import ChainFetch.Proofs.Work.Moves
import ChainFetch.Proofs.Work.Order
import ChainFetch.Proofs.Work.Overlap
import ChainFetch.Proofs.Work.Reads
import ChainFetch.Proofs.Work.Reports
import ChainFetch.Proofs.Work.Signals
import ChainFetch.Proofs.Work.Slots
import ChainFetch.Proofs.Work.Solo
import ChainFetch.Proofs.Work.Stock
import ChainFetch.Proofs.Work.Versions
import ChainFetch.Proofs.Work.Wakeful
import ChainFetch.Rehearsal.Fetcher
import ChainFetch.Rehearsal.Pool
import ChainFetch.Rehearsal.Schedule
import ChainFetch.Rehearsal.Window
import ChainFetch.Schedule.Rate
import ChainFetch.Settings
import ChainFetch.Settings.Log
import ChainFetch.Work.Subscribers
