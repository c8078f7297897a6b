import ChainFetch.Rehearsal.Clock
import ChainFetch.Work.Pool
/-!
A pool with a scripted handler, a queue whose calls fail as planned, and callers beside its run.
-/

namespace ChainFetch.Rehearsal

open Work

/-- How the handler treats an item. Checks and calls are counted for each id. -/
structure WorkPlan (α : Type) where
  delay : Duration := .zero
  hint : Option Duration := none
  failures : Nat := 0
  satisfiedAfter : Option Nat := none
  precheckFailures : Nat := 0
  completeAfter : Nat := 0
  checkFailures : Nat := 0
  adds : List (Item α) := []
  deriving Inhabited

/-- Calls that fail: reads by their number, the others so many times for an id. -/
structure QueueFaults where
  reads : List Nat := []
  saves : Table Nat := {}
  removals : Table Nat := {}
  deriving Inhabited

structure Tally where
  prechecks : Nat := 0
  handled : Nat := 0
  checks : Nat := 0
  deriving Inhabited

inductive PoolEntry (α : Type)
  | handle (items : List (Item α))
  | read (after : Option String) (size : Option Nat)
  deriving Inhabited

inductive PoolAction (α : Type)
  | add (items : List (Item α))
  | remove (id : String)
  | count
  | first
  | get (id : String)
  | status
  | stop
  deriving Inhabited

inductive PoolResult (α : Type)
  | done
  | failed (e : Failure)
  | count (n : Nat)
  | payload (a : Option α)
  | item (i : Option (Item α))
  | status (s : Schedule.Status)
  deriving Inhabited

structure PoolNote (α : Type) where
  time : Nat
  result : PoolResult α
  count : Nat
  deriving Inhabited

structure WorkCall (α : Type) where
  batch : Nat
  due : Nat
  adds : List (Item α)
  answer : Except Failure (Option Duration)
  deriving Inhabited

structure PoolPlay (α : Type) where
  now : Nat := 0
  pool : Pool α
  plan : α → WorkPlan α
  faults : QueueFaults
  reads : Nat := 0
  tallies : Table Tally := {}
  calls : List (WorkCall α) := []
  called : Bool := false
  ended? : Option Nat := none
  agenda : List (Nat × PoolAction α)
  asked : Bool := false
  notes : List (PoolNote α) := []
  log : List (Nat × PoolEntry α) := []

def spend (faults : Table Nat) (verb : String) (ids : List String) :
    Table Nat × Option StoreFailure :=
  match ids.find? fun id => 0 < (faults.get? id).getD 0 with
  | none => (faults, none)
  | some id =>
    (faults.insert id ((faults.get? id).getD 0 - 1), some (.database (verb ++ " " ++ id)))

namespace PoolPlay

variable {α : Type}

def note (p : PoolPlay α) (e : PoolEntry α) : PoolPlay α := { p with log := p.log ++ [(p.now, e)] }

def take (p : PoolPlay α) (e : Event α) : Option (PoolPlay α) :=
  (p.pool.step p.now e).map fun pool => { p with pool := pool }

def attempt (p : PoolPlay α) (e : Event α) : PoolPlay α := (p.take e).getD p

def add (p : PoolPlay α) (items : List (Item α)) : PoolPlay α × Option Failure :=
  if items.isEmpty then (p, none)
  else
    let (saves, fault) := spend p.faults.saves "save" (items.map (·.id))
    let p := { p with faults := { p.faults with saves := saves } }.attempt (.save items fault)
    match fault with
    | some e => (p, some (.store e))
    | none => ((p.attempt .note).attempt .wake, none)

def failRemoval (p : PoolPlay α) (ids : List String) : PoolPlay α × Option StoreFailure :=
  let (removals, fault) := spend p.faults.removals "remove" ids
  ({ p with faults := { p.faults with removals := removals } }, fault)

def tally (p : PoolPlay α) (id : String) : Tally := (p.tallies.get? id).getD {}

def setTally (p : PoolPlay α) (id : String) (t : Tally) : PoolPlay α :=
  { p with tallies := p.tallies.insert id t }

def precheck (p : PoolPlay α) (i : Item α) : PoolPlay α × Except Failure Bool :=
  let plan := p.plan i.payload
  let t := p.tally i.id
  let t := { t with prechecks := t.prechecks + 1 }
  (p.setTally i.id t,
    if t.prechecks ≤ plan.precheckFailures then .error (.work ("pre-check " ++ i.id))
    else .ok (plan.satisfiedAfter.any (· ≤ t.handled)))

def check (p : PoolPlay α) (i : Item α) : PoolPlay α × Except Failure Bool :=
  let plan := p.plan i.payload
  let t := p.tally i.id
  let t := { t with checks := t.checks + 1 }
  (p.setTally i.id t,
    if t.checks ≤ plan.checkFailures then .error (.work ("check " ++ i.id))
    else .ok (plan.completeAfter ≤ t.handled))

def beginCall (p : PoolPlay α) (k : Nat) (items : List (Item α)) : PoolPlay α :=
  let p := p.note (.handle items)
  let p := items.foldl (fun p i =>
    let t := p.tally i.id
    p.setTally i.id { t with handled := t.handled + 1 }) p
  let plans := items.map fun i => (p.plan i.payload, (p.tally i.id).handled)
  let delay := plans.foldl (fun d (plan, _) => max d plan.delay) .zero
  let hint := plans.foldl (fun h (plan, _) => Report.earlier h plan.hint) none
  let call : WorkCall α := {
    batch := k
    due := p.now + delay.ceilMillis
    adds := plans.flatMap fun (plan, handled) => if handled = 1 then plan.adds else []
    answer :=
      if plans.any fun (plan, handled) => handled ≤ plan.failures then .error (.work "handle")
      else .ok hint }
  { p with calls := p.calls ++ [call] }

/-- The handler comes back from the work on batch `k`, after it has added what the items bring. -/
def endCall (p : PoolPlay α) (call : WorkCall α) : Option (PoolPlay α) :=
  let p := { p with calls := p.calls.filter (·.batch ≠ call.batch) }
  let (p, fault) := p.add call.adds
  p.take (.handled call.batch (match fault with
    | some e => .error e
    | none => call.answer))

def stepBatch (p : PoolPlay α) (k : Nat) : Batch α → Option (PoolPlay α)
  | .checking unchecked _ _ => match unchecked with
    | item :: _ =>
      let (p, a) := p.precheck item
      p.take (.prechecked k a)
    | [] => none
  | .clearing satisfied _ =>
    let (p, fault) := p.failRemoval (satisfied.map fun q => q.id)
    p.take (.cleared k fault)
  | .handling items => match p.calls.find? (·.batch = k) with
    | none => some (p.beginCall k items)
    | some call => if call.due ≤ p.now then p.endCall call else none
  | .verifying unverified _ _ => match unverified with
    | item :: _ =>
      let (p, a) := p.check item
      p.take (.verified k a)
    | [] => none
  | .removing completed _ =>
    let (p, fault) := p.failRemoval (completed.map fun q => q.id)
    p.take (.removed k fault)
  | .done _ => p.take (.collect k)

def read (p : PoolPlay α) (d : Drain α) : Option (PoolPlay α) :=
  if d.readFailed then p.take (.read none)
  else
    let fault : Option StoreFailure :=
      if p.faults.reads.contains p.reads then some (.database ("read " ++ toString p.reads))
      else none
    let size := match fault with
      | some _ => none
      | none =>
        some (p.pool.queue.readAfter d.position p.pool.config.chunkSize.toNat).length
    let entry : PoolEntry α := .read (d.position.map fun q => q.id) size
    ({ p with reads := p.reads + 1 }.note entry).take (.read fault)

def stepDrain (p : PoolPlay α) (d : Drain α) : Option (PoolPlay α) :=
  match d.window.running.findSome? fun (k, batch) => p.stepBatch k batch with
  | some p => some p
  | none =>
    if d.window.isOpen then p.read d
    else p.take .closePass

def program (p : PoolPlay α) : Option (PoolPlay α) :=
  if !p.called then { p with called := true }.take (.start .zero)
  else if p.pool.status = .finished ∧ p.ended?.isNone then some { p with ended? := some p.now }
  else match p.pool.pass with
    | some .opening => p.take .openPass
    | some (.draining d) => p.stepDrain d
    | some (.closed _) => p.take .passDone
    | none => match p.pool.loop.nextEvent? p.now with
      | some .turn => p.take .turn
      | some .timeout => p.take .timeout
      | some .rouse => p.take .rouse
      | some .interrupt => p.take .interrupt
      | _ => none

def act (p : PoolPlay α) : PoolAction α → PoolPlay α × PoolResult α
  | .add items => match p.add items with
    | (p, none) => (p, .done)
    | (p, some e) => (p, .failed e)
  | .remove id =>
    let (p, fault) := p.failRemoval [id]
    (p.attempt (.remove [id] fault), match fault with
      | none => .done
      | some e => .failed (.store e))
  | .count => (p, .count p.pool.count)
  | .first => (p, .payload p.pool.firstPayload?)
  | .get id => (p, .item (p.pool.get? id))
  | .status => (p, .status p.pool.status)
  | .stop =>
    let p := (p.attempt .askStop).attempt .settleStop
    (p, .status p.pool.status)

/-- Actions are done one after the other; a stop lasts until the loop is finished. -/
def script (p : PoolPlay α) : Option (PoolPlay α) :=
  match p.agenda with
  | [] => none
  | (t, action) :: rest =>
    let finish (p : PoolPlay α) (result : PoolResult α) : PoolPlay α :=
      { p with
        notes := p.notes ++ [⟨p.now, result, p.pool.count⟩]
        agenda := rest
        asked := false }
    if p.now < t then none
    else if p.asked then (p.take .join).map fun p => finish p (.status p.pool.status)
    else
      let (p, result) := p.act action
      match action with
      | .stop => some { p with asked := true }
      | _ => some (finish p result)

def world : World (PoolPlay α) where
  program := program
  script := script
  now := now
  setNow t p := { p with now := t }
  alarms p :=
    p.calls.map (·.due) ++ p.pool.loop.deadline?.toList ++ (p.agenda.head?.map (·.1)).toList

end PoolPlay

structure PoolReport (α : Type) where
  before : List (PoolResult α)
  log : List (Nat × PoolEntry α)
  notes : List (PoolNote α)
  ended : Nat
  left : List (Item α)
  status : Schedule.Status
  name : String
  deriving Inhabited

/-- Rehearses a pool: the actions `before` its run, then its run with `agenda` beside it. -/
def rehearsePool {α : Type} (config : Config) (plan : α → WorkPlan α) (faults : QueueFaults)
    (before : List (PoolAction α)) (agenda : List (Nat × PoolAction α)) :
    Except Failure (PoolReport α) :=
  (Pool.new config).map fun pool =>
    let p : PoolPlay α := { pool := pool, plan := plan, faults := faults, agenda := agenda }
    let (p, results) := before.foldl (fun (p, results) a =>
      let (p, result) := p.act a
      (p, results ++ [result])) (p, [])
    let p := PoolPlay.world.play patience p
    { before := results
      log := p.log
      notes := p.notes
      ended := p.ended?.getD p.now
      left := p.pool.queue.readAfter none p.pool.count
      status := p.pool.status
      name := config.schedule.name }

end ChainFetch.Rehearsal
