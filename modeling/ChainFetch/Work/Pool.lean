import ChainFetch.Schedule.Loop
import ChainFetch.Window
import ChainFetch.Work.Batch
import ChainFetch.Work.Config
import ChainFetch.Work.Queue
/-!
A pool of deferred work as a machine. Each tick of its loop is a pass over the queue: batches are
read along the index and driven through a bounded window. An event is one uninterrupted step of a
caller, of the loop or of a batch, together with the answer that it had waited for; `Pool.step` says
when it can happen and what it does.
-/

namespace ChainFetch.Work

open Schedule (Loop Effect Signal)

/-- The part of a pass that reads the queue and works on what it has read. -/
structure Drain (α : Type) where
  position : Option Position := none
  readFailed : Bool := false
  window : Window (Batch α) (Except Failure Report)
  deriving Inhabited

inductive Pass (α : Type)
  | opening
  | draining (drain : Drain α)
  | closed (result : Except Failure Signal)
  deriving Inhabited

structure Pool (α : Type) where
  config : Config
  queue : Queue α := {}
  loop : Loop
  newWork : Bool := false
  /-- Calls of add that have saved their items and not yet noted so. -/
  saved : Nat := 0
  /-- Calls of add that have noted their items and not yet woken the loop. -/
  noted : Nat := 0
  pass : Option (Pass α) := none
  deriving Inhabited

/-- A call of add is a `save`, a `note` and a `wake`, with whatever comes between. A `fault` is the
failure of the call of the store that an event makes. -/
inductive Event (α : Type)
  | save (items : List (Item α)) (fault : Option StoreFailure)
  | note
  | wake
  | remove (ids : List String) (fault : Option StoreFailure)
  | start (jitter : Duration)
  | turn
  | timeout
  | rouse
  | interrupt
  | askStop
  | settleStop
  | join
  | openPass
  | read (fault : Option StoreFailure)
  | prechecked (batch : Nat) (answer : Except Failure Bool)
  | cleared (batch : Nat) (fault : Option StoreFailure)
  | handled (batch : Nat) (answer : Except Failure (Option Duration))
  | verified (batch : Nat) (answer : Except Failure Bool)
  | removed (batch : Nat) (fault : Option StoreFailure)
  | collect (batch : Nat)
  | closePass
  | passDone

namespace Config

/-- What a pass asks of the loop: another pass at once if work came, one after the shortest hint, or
one after the interval; a debounced pool that kept nothing idles. -/
def signal (c : Config) (newWork : Bool) (total : Report) : Signal :=
  if newWork then .interval .zero
  else match total.hint with
    | some hint => .interval hint
    | none => if c.debounced ∧ total.kept = 0 then .keep else .interval c.schedule.interval

end Config

namespace Drain

variable {α : Type}

def new (concurrency : Nat) : Drain α := { window := .new concurrency }

/-- The answer to a read: a batch, the end of the queue where it is empty, or a failure, which
takes a place in the window like a batch. After a failed read nothing is asked. -/
def read (d : Drain α) (queue : Queue α) (chunk : Nat) (fault : Option StoreFailure) :
    Option (Drain α) :=
  if d.readFailed then d.window.close?.map fun w => { d with window := w }
  else match fault with
    | some e =>
      (d.window.pull? (.done (.error (.store e)))).map fun w =>
        { d with readFailed := true, window := w }
    | none =>
      let items := queue.readAfter d.position chunk
      match items.getLast? with
      | none => d.window.close?.map fun w => { d with window := w }
      | some last =>
        (d.window.pull? (.start items)).map fun w =>
          { d with position := some last.position, window := w }

def advance (d : Drain α) (k : Nat) (next : Batch α → Option (Batch α)) : Option (Drain α) := do
  let batch ← d.window.get? k
  let batch ← next batch
  pure { d with window := d.window.set k batch }

def collect (d : Drain α) (k : Nat) : Option (Drain α) :=
  match d.window.get? k with
  | some (.done result) => (d.window.complete? k result).map fun w => { d with window := w }
  | _ => none

end Drain

namespace Pool

variable {α : Type}

def new (c : Config) : Except Failure (Pool α) :=
  match c.fault? with
  | some fault => .error (.config fault)
  | none => .ok { config := c, loop := .new c.schedule c.mode }

def status (p : Pool α) : Schedule.Status := p.loop.status

def count (p : Pool α) : Nat := p.queue.count

def firstPayload? (p : Pool α) : Option α := p.queue.first?.map (·.payload)

def get? (p : Pool α) (id : String) : Option (Item α) := p.queue.get? id

def follow (p : Pool α) : Effect → Pool α
  | .tick _ => { p with pass := some .opening }
  | .firstSuccess => p
  | .sleep _ => p
  | .returned => p

def stepLoop (now : Nat) (p : Pool α) (e : Schedule.Event) : Option (Pool α) :=
  (p.loop.step now e).map fun (l, effects) => effects.foldl follow { p with loop := l }

def drain? (p : Pool α) : Option (Drain α) :=
  match p.pass with
  | some (.draining d) => some d
  | _ => none

def setDrain (p : Pool α) (d : Drain α) : Pool α := { p with pass := some (.draining d) }

def answer (p : Pool α) (k : Nat) (next : Batch α → Option (Batch α)) : Option (Pool α) := do
  let d ← p.drain?
  let d ← d.advance k next
  pure (p.setDrain d)

/-- The removal that batch `k` waits for has come back. One that failed changes nothing and ends the
batch; `removal` gives, of a batch at this stage, the positions and what follows. -/
def answerRemoval (p : Pool α) (k : Nat) (fault : Option StoreFailure)
    (removal : Batch α → Option (List Position × Batch α)) : Option (Pool α) := do
  let d ← p.drain?
  let batch ← d.window.get? k
  let (positions, next) ← removal batch
  match fault with
  | some e => pure (p.setDrain { d with window := d.window.set k (.done (.error (.store e))) })
  | none =>
    let p := { p with queue := p.queue.removeDispatched positions }
    pure (p.setDrain { d with window := d.window.set k next })

/-- One step at time `now`: the pool after it, or nothing where the event cannot happen. -/
def step (now : Nat) (p : Pool α) : Event α → Option (Pool α)
  | .save items fault =>
    match items, fault with
    | [], _ => some p
    | _, some _ => some p
    | items, none => some { p with queue := p.queue.save items, saved := p.saved + 1 }
  | .note =>
    if p.saved = 0 then none
    else some { p with
      newWork := true
      saved := p.saved - 1
      noted := if p.config.debounced then p.noted + 1 else p.noted }
  | .wake =>
    if p.noted = 0 then none
    else some { p with noted := p.noted - 1, loop := p.loop.wake }
  | .remove ids fault =>
    match fault with
    | some _ => some p
    | none => some { p with queue := p.queue.remove ids }
  | .start jitter => p.stepLoop now (.start jitter)
  | .turn => p.stepLoop now .turn
  | .timeout => p.stepLoop now .timeout
  | .rouse => p.stepLoop now .rouse
  | .interrupt => p.stepLoop now .interrupt
  | .askStop => p.stepLoop now .askStop
  | .settleStop => p.stepLoop now .settleStop
  | .join => p.stepLoop now .join
  | .openPass =>
    match p.pass with
    | some .opening =>
      some { p.setDrain (.new p.config.concurrency.toNat) with newWork := false }
    | _ => none
  | .read fault => do
    let d ← p.drain?
    let d ← d.read p.queue p.config.chunkSize.toNat fault
    pure (p.setDrain d)
  | .prechecked k a => p.answer k fun
    | .checking (item :: unchecked) satisfied remaining =>
      some (.prechecked item unchecked satisfied remaining a)
    | _ => none
  | .cleared k fault => p.answerRemoval k fault fun
    | .clearing satisfied remaining => some (satisfied, .handle remaining)
    | _ => none
  | .handled k a => p.answer k fun
    | .handling items => some (.handled items a)
    | _ => none
  | .verified k a => p.answer k fun
    | .verifying (item :: unverified) completed report =>
      some (.verified item unverified completed report a)
    | _ => none
  | .removed k fault => p.answerRemoval k fault fun
    | .removing completed report => some (completed, .done (.ok report))
    | _ => none
  | .collect k => do
    let d ← p.drain?
    let d ← d.collect k
    pure (p.setDrain d)
  | .closePass => do
    let d ← p.drain?
    if d.window.isDone then
      match Report.total (d.window.outputs.map (·.2)) with
      | .error e => some { p with pass := some (.closed (.error e)) }
      | .ok total =>
        some { p with
          newWork := false
          pass := some (.closed (.ok (p.config.signal p.newWork total))) }
    else none
  | .passDone =>
    match p.pass with
    | some (.closed result) => { p with pass := none }.stepLoop now (.tickDone result)
    | _ => none

end Pool
end ChainFetch.Work
