import ChainFetch.Fetch.Fetcher
import ChainFetch.Rehearsal.Clock
/-!
A fetcher with a scripted handler, a store that fails on chosen calls, and callers beside its run.
The wall clock stands still at `wallClock`.
-/

namespace ChainFetch.Rehearsal

open Fetch

def wallClock : Instant := ⟨1782909296, 789012345, by decide, by decide, by decide⟩

/-- How the handler answers one fetch, and the merge and the check that follow it. -/
structure FetchPlan (γ : Type) where
  delay : Duration := .zero
  fail : Option Failure := none
  cursor : Option γ := none
  other : Option γ := none
  interval : Option Duration := none
  error : Option Failure := none
  mergeError : Option Failure := none
  /-- The reached cursor is handed back as it is, with so many items. -/
  rawMerge : Option UInt64 := none
  checkError : Option Failure := none
  complete : Option Bool := none
  deriving Inhabited

namespace FetchPlan

variable {γ : Type}

def fetch (p : FetchPlan γ) (d : Direction) : Except Failure (Outcome γ) :=
  match p.fail with
  | some e => .error e
  | none => .ok {
      error := p.error
      newInterval := p.interval
      reached := ((⟨none, none⟩ : Both (Option γ)).set d p.cursor).set d.opposite p.other }

def merge [Cursor γ] (p : FetchPlan γ) (d : Direction) (held reached : Option γ) :
    Except Failure (Merge γ) :=
  match p.mergeError, p.rawMerge with
  | some e, _ => .error e
  | none, some n => .ok ⟨reached, n⟩
  | none, none => .ok (d.merge held reached)

def check (p : FetchPlan γ) (progress : Progress γ) : Except Failure Bool :=
  match p.checkError, p.complete with
  | some e, _ => .error e
  | none, some b => .ok b
  | none, none => .ok progress.standsStill

end FetchPlan

inductive FetchEntry (γ : Type)
  | fetch (request : Request γ)
  | update (d : Direction) (held reached : Option γ) (result : Except Failure (Merge γ))
  | check (d : Direction) (progress : Progress γ) (result : Except Failure Bool)
  | save (ok : Bool) (state : State γ)

inductive FetchAction
  | stop
  | run
  | init
  | query
  | delete
  deriving DecidableEq, Inhabited

structure FetchNote (γ : Type) where
  time : Nat
  action : FetchAction
  error : Option Failure
  after : Fetcher γ

inductive StoreCall (γ : Type)
  | get
  | save (state : State γ)

structure FetchPlay (γ : Type) where
  now : Nat := 0
  system : System γ
  gets : Nat := 0
  saves : Nat := 0
  failGet : List Nat
  failSave : List Nat
  plans : Both (List (FetchPlan γ)) := ⟨[], []⟩
  current : Both (FetchPlan γ) := ⟨{}, {}⟩
  flights : Both (Option Nat) := ⟨none, none⟩
  main? : Option Nat := none
  ended? : Option Nat := none
  agenda : List (Nat × FetchAction) := []
  pending? : Option Nat := none
  notes : List (FetchNote γ) := []
  log : List (Nat × FetchEntry γ) := []

namespace FetchPlay

variable {γ : Type} [Cursor γ]

def fetcher (p : FetchPlay γ) : Fetcher γ := p.system.fetcher

def note (p : FetchPlay γ) (e : FetchEntry γ) : FetchPlay γ :=
  { p with log := p.log ++ [(p.now, e)] }

def take (p : FetchPlay γ) (e : Event γ) : Option (FetchPlay γ) :=
  (p.system.step p.now e).map fun s => { p with system := s }

def callStore (p : FetchPlay γ) : StoreCall γ → FetchPlay γ × Option StoreFailure
  | .get =>
    ({ p with gets := p.gets + 1 },
      if p.failGet.contains p.gets then some (.database ("get " ++ toString p.gets)) else none)
  | .save state =>
    let fails := p.failSave.contains p.saves
    ({ p with saves := p.saves + 1 }.note (.save (!fails) state),
      if fails then some (.database ("save " ++ toString p.saves)) else none)

def initCall? (p : FetchPlay γ) : Init γ → Option (StoreCall γ)
  | .reading => some .get
  | .creating => some (.save p.fetcher.config.freshState)
  | _ => none

def storeCall? (p : FetchPlay γ) : Call γ → Option (StoreCall γ)
  | .init stage => p.initCall? stage
  | .run (.loading stage) => p.initCall? stage
  | _ => none

def advance (p : FetchPlay γ) (k : Nat) : Option (FetchPlay γ) :=
  match p.fetcher.calls[k]?.bind p.storeCall? with
  | some c =>
    let (p, fault) := p.callStore c
    p.take (.advance k fault)
  | none => p.take (.advance k none)

def stepTick (p : FetchPlay γ) (d : Direction) (lane : Lane) (context : Schedule.Context) :
    Tick γ → Option (FetchPlay γ)
  | .fetching work =>
    match p.flights.get d with
    | none =>
      let plan := (p.plans.get d).headD {}
      let p := p.note (.fetch (Tick.request lane context work))
      some { p with
        plans := p.plans.set d (p.plans.get d).tail
        current := p.current.set d plan
        flights := p.flights.set d (some (p.now + plan.delay.ceilMillis)) }
    | some t =>
      if t ≤ p.now then
        { p with flights := p.flights.set d none }.take (.fetched d ((p.current.get d).fetch d))
      else none
  | .merging work outcome =>
    let held := work.cursor d
    let reached := outcome.reached.get d
    let result := (p.current.get d).merge d held reached
    (p.note (.update d held reached result)).take (.merged d result)
  | .judging work _ newItems =>
    let progress := Tick.progress lane work newItems
    let result := (p.current.get d).check progress
    (p.note (.check d progress result)).take (.judged d result)
  | .locking _ _ => p.take (.lock d)
  | .saving next _ =>
    let (p, fault) := p.callStore (.save next)
    p.take (.saved d fault)
  | .done _ => p.take (.tickDone d)

def stepDirection (p : FetchPlay γ) (d : Direction) : Option (FetchPlay γ) :=
  match p.fetcher.tasks.get d with
  | .held => p.take .release
  | .entering => p.take (.enter d .zero)
  | .looping =>
    match p.fetcher.loops.get d, p.fetcher.ticks.get d, p.fetcher.config.lane? d with
    | some loop, some tick, some lane => p.stepTick d lane loop.context tick
    | some loop, _, _ =>
      match loop.nextEvent? p.now with
      | some .turn => p.take (.turn d wallClock)
      | some .timeout => p.take (.timeout d)
      | some .interrupt => p.take (.interrupt d)
      | _ => none
    | none, _, _ => none
  | _ => none

def callResult? (p : FetchPlay γ) (k : Nat) : Option (Option Failure) :=
  match p.fetcher.calls[k]? with
  | some (.init (.done (.ok _))) => some none
  | some (.init (.done (.error e))) => some (some e)
  | some (.run (.done e)) => some e
  | some (.stop .done) => some none
  | _ => none

def program (p : FetchPlay γ) : Option (FetchPlay γ) :=
  match p.stepDirection .forward with
  | some p => some p
  | none => match p.stepDirection .backward with
    | some p => some p
    | none => match p.main? with
      | none => none
      | some k =>
        if p.ended?.isSome then none
        else if (p.callResult? k).isSome then some { p with ended? := some p.now }
        else p.advance k

def call (p : FetchPlay γ) (kind : CallKind) : Option (FetchPlay γ × Nat) :=
  (p.take (.call kind)).map fun q => (q, p.fetcher.calls.length)

def deleteState (p : FetchPlay γ) (id : String) : FetchPlay γ :=
  { p with system := ⟨p.system.store.erase id, p.system.fetcher⟩ }

/-- Actions are done one after the other, each at its time or once the one before has come back. -/
def script (p : FetchPlay γ) : Option (FetchPlay γ) :=
  match p.agenda with
  | [] => none
  | (t, action) :: rest =>
    let finish (p : FetchPlay γ) (error : Option Failure) : FetchPlay γ :=
      { p with
        notes := p.notes ++ [⟨p.now, action, error, p.fetcher⟩]
        agenda := rest
        pending? := none }
    let begin (kind : CallKind) : Option (FetchPlay γ) :=
      (p.call kind).map fun (p, k) => { p with pending? := some k }
    if p.now < t then none
    else match p.pending?, action with
      | some k, _ => match p.callResult? k with
        | some error => some (finish p error)
        | none => p.advance k
      | none, .stop => begin .stop
      | none, .run => begin .run
      | none, .init => begin .init
      | none, .query => some (finish p none)
      | none, .delete => some (finish (p.deleteState p.fetcher.config.id) none)

def world : World (FetchPlay γ) where
  program := program
  script := script
  now := now
  setNow t p := { p with now := t }
  alarms p :=
    (Direction.all.flatMap fun d => (p.flights.get d).toList ++
      ((p.fetcher.loops.get d).bind (·.deadline?)).toList) ++
    (p.agenda.head?.map (·.1)).toList

def playCall (p : FetchPlay γ) (kind : CallKind) : FetchPlay γ :=
  match p.call kind with
  | some (p, k) => world.play patience { p with main? := some k, ended? := none }
  | none => p

def playRun (p : FetchPlay γ) (plans : Both (List (FetchPlan γ)))
    (agenda : List (Nat × FetchAction)) : FetchPlay γ :=
  { p with now := 0, plans := plans, agenda := agenda, notes := [] }.playCall .run

def mainError? (p : FetchPlay γ) : Option Failure :=
  (p.main?.bind p.callResult?).join

end FetchPlay

inductive FetchStep (γ : Type)
  | new (config : Config)
  | init
  | stop
  | query
  | get (id : String)
  | delete (id : String)
  | run (plans : Both (List (FetchPlan γ))) (agenda : List (Nat × FetchAction))

inductive FetchResult (γ : Type)
  | made
  | refused (e : Failure)
  | nobody
  | state (s : State γ)
  | nothing
  | stored (s : Option (State γ))
  | left (size : Nat)
  | ran (error : Option Failure) (ended : Nat) (notes : List (FetchNote γ))

structure FetchAnswer (γ : Type) where
  result : FetchResult γ
  log : List (Nat × FetchEntry γ)
  after : Option (Fetcher γ)

/-- A rehearsal between steps: the store, and the play of the fetcher if one was made. -/
structure FetchSession (γ : Type) where
  store : Table (State γ)
  failGet : List Nat
  failSave : List Nat
  play? : Option (FetchPlay γ) := none

namespace FetchSession

variable {γ : Type} [Cursor γ]

def make (s : FetchSession γ) (f : Fetcher γ) : FetchPlay γ :=
  match s.play? with
  | some p => {
      system := ⟨p.system.store, f⟩
      now := p.now
      gets := p.gets
      saves := p.saves
      failGet := p.failGet
      failSave := p.failSave }
  | none => { system := ⟨s.store, f⟩, failGet := s.failGet, failSave := s.failSave }

def currentStore (s : FetchSession γ) : Table (State γ) :=
  match s.play? with
  | some p => p.system.store
  | none => s.store

def withPlay (s : FetchSession γ) (f : FetchPlay γ → FetchPlay γ × FetchResult γ) :
    FetchSession γ × FetchResult γ :=
  match s.play? with
  | none => (s, .nobody)
  | some p =>
    let (p, r) := f p
    ({ s with play? := some p }, r)

def step (s : FetchSession γ) : FetchStep γ → FetchSession γ × FetchResult γ
  | .new config =>
    match Fetcher.new config with
    | .error e => (s, .refused e)
    | .ok f => ({ s with play? := some (s.make f) }, .made)
  | .init => s.withPlay fun p =>
    let p := p.playCall .init
    (p, match p.mainError? with
      | some e => .refused e
      | none => .state p.fetcher.memory)
  | .stop => s.withPlay fun p => (p.playCall .stop, .nothing)
  | .query => s.withPlay fun p => (p, .nothing)
  | .get id => (s, .stored (s.currentStore.get? id))
  | .delete id =>
    let s := match s.play? with
      | some p => { s with play? := some (p.deleteState id) }
      | none => { s with store := s.store.erase id }
    (s, .left s.currentStore.size)
  | .run plans agenda => s.withPlay fun p =>
    let p := p.playRun plans agenda
    (p, .ran p.mainError? (p.ended?.getD p.now) p.notes)

def answer (s : FetchSession γ) (step : FetchStep γ) : FetchSession γ × FetchAnswer γ :=
  let cleared := s.play?.map fun p => { p with log := [] }
  let (s, result) := { s with play? := cleared }.step step
  (s, ⟨result, (s.play?.map (·.log)).getD [], s.play?.map (·.fetcher)⟩)

end FetchSession

/-- Rehearses fetchers, one after the other, over one store. -/
def rehearseFetcher {γ : Type} [Cursor γ] (stored : List (State γ)) (failGet failSave : List Nat)
    (steps : List (FetchStep γ)) : List (FetchAnswer γ) :=
  let store := stored.foldl (fun t s => t.insert s.id s) Table.empty
  let session : FetchSession γ := { store := store, failGet := failGet, failSave := failSave }
  (steps.foldl (fun (s, answers) step =>
    let (s, a) := s.answer step
    (s, answers ++ [a])) (session, [])).2

end ChainFetch.Rehearsal
