import Fibers.Machine.World
import Fibers.Script.Expr

/-!
# Sessions

A session runs effects and script steps on one machine. Each `Step` is a program on the caller's
thread; its answer is the result of the step and a view of what the machine holds afterwards. The
machine stays as the step left it, so later steps may complete callbacks, run waiting tasks, or look
at fibers that earlier steps started.
-/

namespace Fibers.Script

/-- One step of a script. An executor that is left out is the script's own. -/
inductive Step where
  | start (slot : String) (effect : Expr) (executor : Option String)
  | startWith (slot : String) (effect : Expr) (panics : Bool) (executor : Option String)
  | run (effect : Expr) (executor : Option String)
  | runTimeout (effect : Expr) (timeout : Nat) (executor : Option String)
  | drain (executor : String) (limit : Nat) (newest : Bool)
  | discard (executor : String)
  | complete (name : String) (value : Datum)
  | dropCallback (name : String)
  | interrupt (slot : String)
  | awaitExit (slot tag : String)
  | join (slot tag : String)
  | info (slot : String)
  | forget (slot : String)

/-! ## The machine of a session -/

/-- The executors that every session has, by name. The first one runs everything at once. -/
def standardExecutors : List (String × Executor Store) :=
  [("immediate", { name := "immediate", discipline := .inline }),
    ("q1", { name := "q1", discipline := .hold }),
    ("q2", { name := "q2", discipline := .hold }),
    ("q3", { name := "q3", discipline := .hold }),
    ("drop", { name := "executor", discipline := .discard }),
    ("refuse", { name := "refuse", discipline := .refuse (.message "executor refused") })]

/-- The names of the executors whose waiting tasks a step's answer counts. -/
def queueNames : List String := ["q1", "q2", "q3"]

/-- A thread pool of a session: the prefix of its threads' names and their number. -/
structure PoolSpec where
  name : String
  workers : Nat

/-- The workers of one pool. -/
def PoolSpec.threads (pool : PoolSpec) (executor : ExecutorId) (firstId : Nat) :
    List (Thread Store) :=
  (List.range pool.workers).map fun index =>
    { id := ⟨firstId + index⟩
      name := pool.name ++ "-" ++ toString index
      role := .worker executor index }

/-- The workers of several pools, whose executors follow each other. -/
def poolThreads : List PoolSpec → Nat → Nat → List (Thread Store)
  | [], _, _ => []
  | pool :: rest, executor, firstId =>
    pool.threads ⟨executor⟩ firstId ++ poolThreads rest (executor + 1) (firstId + pool.workers)

/-- What a session is made from. -/
structure Setting where
  pools : List PoolSpec := []
  /-- The procedures by name, each with its parameter and its body. -/
  procedures : List (String × String × Expr) := []
  level : LogLevel := .off

namespace Setting

/-- The executors of a session, those of its pools last. -/
def executors (setting : Setting) : List (String × Executor Store) :=
  standardExecutors ++
    setting.pools.map fun pool => (pool.name, { name := pool.name, discipline := .hold })

/-- The executor of a name. Pools take precedence over the standard executors. -/
def executorId (setting : Setting) (name : String) : ExecutorId :=
  let names := setting.executors.map Prod.fst
  ⟨names.length - 1 - (names.reverse.idxOf name)⟩

/-- The machine of a session before anything has run. -/
def world (setting : Setting) : World Store :=
  .initial {} (setting.executors.map Prod.snd).toArray setting.level
    (poolThreads setting.pools standardExecutors.length 1).toArray

/-- The procedures of a setting, whose bodies may call each other up to the given depth. Only the
parameter is bound in a body. -/
def procedure (setting : Setting) : Nat → String → Datum → Routine DataEffect
  | 0, name, _ => Action.panicWith ("procedure " ++ name ++ " calls too deeply")
  | depth + 1, name, value =>
    match setting.procedures.lookup name with
    | some (parameter, body) =>
      .done <| body.build
        { executor := setting.executorId, procedure := fun name => procedure setting depth name }
        { vars := [(parameter, value)] }
    | none => Action.panicWith ("unknown procedure " ++ name)

/-- What the expressions of a session refer to by name. -/
def names (setting : Setting) : Names where
  executor := setting.executorId
  procedure := procedure setting World.patience

/-- The effect of an expression without variables. -/
def effect (setting : Setting) (expr : Expr) : DataEffect := expr.build setting.names {}

end Setting

/-! ## Programs of steps -/

/-- The panic of a step whose slot holds no fiber. -/
def noFiber {α : Type} (slot : String) : Routine α :=
  Action.panicWith ("no fiber in slot " ++ slot)

/-- Go on with the fiber in a slot. -/
def withSlot {α : Type} (slot : String) (f : Fiber .datum → Routine α) : Routine α :=
  .get fun store =>
    match store.fiberIn? slot with
    | some id => f ⟨id⟩
    | none => noFiber slot

/-- A callback that logs an exit behind a label. -/
def logExit (label : String) (exit : Exit Datum) : Routine Unit :=
  Routine.log (label ++ ":" ++ (Datum.exit exit).render)

/-- Put the handle of a root fiber into a slot, once the fiber has started. -/
def putHandle (slot : String) (started : Routine (Fiber .datum)) : Routine Outcome :=
  started.bind fun fiber => (Routine.put slot (.fiber fiber.id)).bind fun _ => .done .nothing

/-- The program of a step. `runner` gives the runner of an executor that may be left out. -/
def Step.program (setting : Setting) (runner : Option String → Runner) : Step → Routine Outcome
  | .start slot effect executor =>
    putHandle slot ((runner executor).fork (setting.effect effect))
  | .startWith slot effect panics executor =>
    putHandle slot <| (runner executor).runAsync (setting.effect effect) fun exit =>
      (logExit slot exit).bind fun _ =>
        if panics then Action.panicWith "callback bug" else .done ()
  | .run effect executor =>
    ((runner executor).runSync (setting.effect effect)).bind fun exit => .done (.exit exit)
  | .runTimeout effect timeout executor =>
    ((runner executor).runSyncTimeout (setting.effect effect) timeout).bind fun exit =>
      .done (match exit with
        | some exit => .exit exit
        | none => .nothing)
  | .drain executor limit newest =>
    (Routine.drain (setting.executorId executor) newest limit 0).bind fun n => .done (.count n)
  | .discard executor => .discardTasks (setting.executorId executor) fun n => .done (.count n)
  | .complete name value =>
    (Routine.completeKept name value).bind fun found => .done (.flag found)
  | .dropCallback name =>
    (Routine.takeCallback name).bind fun callback => .done (.flag callback.isSome)
  | .interrupt slot =>
    withSlot slot fun fiber =>
      (immediately.runSync (A := .datum)
        ((Effect.interrupt fiber).map fun _ => .done .unit)).bind fun exit => .done (.exit exit)
  | .awaitExit slot tag =>
    withSlot slot fun fiber =>
      (immediately.runAsync (A := .datum)
        ((Effect.awaitExit fiber).map fun exit => .done (.exit exit)) (logExit tag)).bind
        fun _ => .done .nothing
  | .join slot tag =>
    withSlot slot fun fiber =>
      (immediately.runAsync (Effect.join fiber) (logExit tag)).bind fun _ => .done .nothing
  | .info slot =>
    withSlot slot fun fiber => fiber.poll.bind fun exit =>
      .done (.info { display := fiber.id.render, exit := exit })
  | .forget slot =>
    .get fun store =>
      .modify (·.forget slot) fun _ => .done (.flag (store.slots.lookup slot).isSome)

/-! ## Running steps -/

/-- Run a program on the caller's thread; its result, or the panic that ended it, is left in the
world as the outcome. -/
def perform (world : World Store) (program : Routine Outcome) : World Store :=
  let world := world.perform
    (program.bind fun outcome => Action.change fun store => { store with outcome := outcome })
  match world.crashed? with
  | some payload =>
    let store := world.heap.world
    { world.clearCrash with
      heap := { world.heap with
        world := { store with outcome := .panicked payload.text } } }
  | none => world

/-- What a machine holds after a step, and what was logged and reported since the step before. -/
structure Snapshot where
  outcome : Outcome
  log : List String
  /-- The number of waiting tasks of every queue that is not empty. -/
  queues : List (String × Nat)
  /-- The number of callbacks under every name that has some. -/
  callbacks : List (String × Nat)
  /-- The exit of every fiber in a slot, if it is done. -/
  fibers : List (String × Option (Exit Datum))
  events : List Event

/-- The slots that hold fibers, with the exits of those that are done. -/
def fiberExits (heap : Heap Store) : List (String × Option (Exit Datum)) :=
  heap.world.slots.filterMap fun (slot, value) =>
    match value with
    | .fiber id => some (slot, (heap.poll id).map (Exit.recover .datum))
    | _ => none

/-- The number of waiting tasks of every queue that is not empty. -/
def queueSizes (setting : Setting) (heap : Heap Store) : List (String × Nat) :=
  queueNames.filterMap fun name =>
    let size := (heap.waiting (setting.executorId name)).size
    if size = 0 then none else some (name, size)

/-- The number of callbacks under every name that has some. -/
def callbackCounts (store : Store) : List (String × Nat) :=
  store.callbacks.filterMap fun (name, queue) =>
    if queue.isEmpty then none else some (name, queue.size)

/-- The events of the caller's own thread. -/
def mainEvents (heap : Heap Store) : List Event :=
  heap.events.toList.filterMap fun (thread, event) =>
    if thread.index = 0 then some event else none

/-- View a machine after a step, and take the log and the events from it. -/
def takeSnapshot (setting : Setting) (world : World Store) : World Store × Snapshot :=
  let heap := world.heap
  let store := heap.world
  ({ world with
      heap := { heap with
        world := { store with log := #[], outcome := .nothing }
        events := #[] } },
    { outcome := store.outcome
      log := store.log.toList
      queues := queueSizes setting heap
      callbacks := callbackCounts store
      fibers := fiberExits heap
      events := mainEvents heap })

/-- A script: its steps and the setting they run in. -/
structure Scenario where
  setting : Setting
  /-- The executor of steps that name none. -/
  executor : String := "immediate"
  steps : List Step

/-- Run the steps one after another. -/
def Scenario.runSteps (script : Scenario) : List Step → World Store → World Store × List Snapshot
  | [], world => (world, [])
  | step :: rest, world =>
    let runner := fun executor : Option String =>
      Runner.mk (script.setting.executorId (executor.getD script.executor))
    let (world, snapshot) := takeSnapshot script.setting
      (perform world (step.program script.setting runner))
    let (world, snapshots) := script.runSteps rest world
    (world, snapshot :: snapshots)

/-- What a script leaves behind. -/
structure Report where
  snapshots : List Snapshot
  counters : List (String × Nat)
  defects : Nat

/-- Run a script. -/
def Scenario.run (script : Scenario) : Report :=
  let (world, snapshots) := script.runSteps script.steps script.setting.world
  { snapshots := snapshots, counters := world.heap.world.counters, defects := world.heap.defects }

/-! ## Running one effect -/

/-- What running one effect leaves behind. -/
structure RunReport where
  outcome : Outcome
  log : List String
  defects : Nat

/-- Run one effect on an executor and wait for its exit. Where pools take part the order of the
lines depends on their threads, so the log is sorted. -/
def runEffect (setting : Setting) (executor : String) (effect : Expr) : RunReport :=
  let runner := Runner.mk (setting.executorId executor)
  let world := perform setting.world
    ((runner.runSync (setting.effect effect)).bind fun exit => .done (.exit exit))
  let store := world.heap.world
  let log := store.log.toList
  { outcome := store.outcome
    log := if setting.pools.isEmpty then log else log.mergeSort (· ≤ ·)
    defects := world.heap.defects }

/-- Apply a function to the value of an exit, outside every effect. -/
def mapExit (function : Fn) (exit : Exit Datum) : RunReport :=
  let program : Routine Outcome :=
    match exit with
    | .success value =>
      (function.apply value).bind fun result => .done (.exit (.success result))
    | .failure cause => .done (.exit (.failure cause))
  let world := perform ({} : Setting).world program
  let store := world.heap.world
  { outcome := store.outcome, log := store.log.toList, defects := world.heap.defects }

end Fibers.Script
