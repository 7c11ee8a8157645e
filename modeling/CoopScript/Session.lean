import CoopScript.DirectCall
import CoopScript.Environment
import CoopScript.Host
import CoopScript.Scheduler
import CoopScript.Script.Accounting

/-! Sessions: an environment with named objects, executors and a scheduler, the way an
embedding program holds them. -/

namespace CoopScript

structure Session where
  config : Config
  /-- How many steps one run of a machine may take. -/
  fuel : Nat
  world : World
  environment : TableId
  scheduler : Scheduler
  /-- Names in the order they were bound. -/
  names : List (String × Value) := []
  executors : List (String × Executor) := []
  /-- Handles in the order they came to be known. -/
  handles : List UserdataId := []
  /-- The handles whose sinks are reported, by name. -/
  streams : List (String × UserdataId) := []

/-- What a session does; nothing comes back when a run's fuel does not last. -/
abbrev SessionM := StateT Session Option

/-- How an embedder refers to a value. -/
inductive Reference where
  | value (v : Value)
  | newTable
  | named (name : String)
  /-- The value at a path in the environment. -/
  | path (path : String)
  /-- The field of the table under `__index` in the metatable of an object. -/
  | method (object : Reference) (name : String)
  /-- The handler of an object for an event. -/
  | handler (object : Reference) (event : String)
  | environment
  | standard (which : Io.Default)

namespace Session

/-- A name that is bound again moves to the end. -/
def bound (s : Session) (name : String) (v : Value) : Session :=
  { s with names := s.names.filter (·.1 != name) ++ [(name, v)] }

/-- Remembers the handles among the values. -/
def remembering (s : Session) (values : List Value) : Session :=
  values.foldl (fun s v =>
    match v with
    | .userdata u =>
      if (s.world.file? u).isSome && !s.handles.contains u then
        { s with handles := s.handles ++ [u] }
      else s
    | _ => s) s

/-- Binds a handle whose sink is reported under the same name. -/
def withStream (s : Session) (name : String) (u : UserdataId) : Session :=
  let s := (s.bound name (.userdata u)).remembering [.userdata u]
  { s with streams := s.streams ++ [(name, u)] }

/-- A session with an environment and the three standard handles. -/
def start (fuel : Nat) (config : Config) (disk : Disk) (input output error : Handle) :
    Except ConfigError Session := do
  let config ← config.validated
  let setUp : StateM World TableId := do
    World.installFiles input output error
    World.environment
  let (environment, world) := setUp.run { disk }
  let s : Session :=
    { config, fuel, world, environment, scheduler := { config := config.engine } }
  return ((s.withStream "stdin" world.io.input).withStream "stdout" world.io.output).withStream
    "stderr" world.io.error

/-- The name of an object, the one bound earliest. -/
def nameOf? (s : Session) (v : Value) : Option String :=
  (s.names.find? fun (_, held) => held == v).map (·.1)

def inWorld {α : Type} (op : StateM World α) : SessionM α := do
  let s ← get
  let (a, world) := op.run s.world
  set { s with world }
  return a

def bind (name : String) (v : Value) : SessionM Unit := modify fun s => s.bound name v

/-- Binds results to names in order, as far as there are both. -/
def bindResults (names : List String) (results : List Value) : SessionM Unit := do
  modify fun s => s.remembering results
  for (name, v) in names.zip results do bind name v

/-- The value that a reference stands for. -/
def eval : Reference → SessionM Value
  | .value v => return v
  | .newTable => return .table (← inWorld (World.newTable []))
  | .named name => return ((← get).names.lookup name).getD .nil
  | .path path => do
    let s ← get
    return s.world.lookupPath s.environment path
  | .method object name => do
    let object ← eval object
    let w := (← get).world
    match w.metamethod? object "__index" with
    | some (.table t) => return (w.table t).getText name
    | _ => return .nil
  | .handler object event => do
    let object ← eval object
    return ((← get).world.metamethod? object event).getD .nil
  | .environment => return .table (← get).environment
  | .standard which => return .userdata (Io.default (← get).world which)

/-- A table with entries set in order. -/
def newTable (entries : List (Value × Value)) (metatable : Option TableId) :
    SessionM (Except ScriptError TableId) := do
  match entries.foldlM (fun (t : Table) (key, v) => t.set key v) {} with
  | .error e => return .error e
  | .ok t => return .ok (← inWorld (modifyGet fun w => w.addTable { t with metatable }))

def newUserdata (metatable : Option TableId) : SessionM UserdataId :=
  inWorld (modifyGet fun w => w.addUserdata ⟨.plain, metatable⟩)

/-- A handle on a stream, bound to the stream's name. -/
def openStream (name : String) (h : Handle) : SessionM Unit := do
  let u ← inWorld (World.newFile h)
  modify fun s => s.withStream name u

/-- A script function, with accounting for the costs of the session if asked for. -/
def newScript (p : Proto) (accounted : Bool) : SessionM (Except VerifyError FunctionId) := do
  let costs := (← get).config.engine.preemption.costs
  let verified := do
    let p ← p.verified
    if accounted then p.withCode (instrument p.code costs) else return p
  match verified with
  | .error e => return .error e
  | .ok p => return .ok (← inWorld (World.newFunction (.script p)))

def newHost (h : HostFunction) : SessionM FunctionId := inWorld (World.newFunction (.host h))

/-- Sets an entry of a table, and tells how many it has then. -/
def setEntry (t : TableId) (key v : Value) : SessionM (Except ScriptError Nat) := do
  let w := (← get).world
  match (w.table t).set key v with
  | .error e => return .error e
  | .ok contents =>
    inWorld (set (w.setTable t contents))
    return .ok contents.size

def setMetatable (t : TableId) (metatable : Option TableId) : SessionM Unit :=
  inWorld (modify fun w => w.setTable t { w.table t with metatable })

def setExecutor (name : String) (e : Executor) : SessionM Unit :=
  modify fun s => { s with executors := (name, e) :: s.executors.filter (·.1 != name) }

/-- The executor of a name, which comes to be when it is first asked for. -/
def executor (name : String) : SessionM Executor := do
  let s ← get
  match s.executors.lookup name with
  | some e => return e
  | none =>
    match Executor.new s.config.engine with
    | .ok e =>
      setExecutor name e
      return e
    | .error _ => failure

/-- Replaces the executor of a name by a new one. -/
def renewExecutor (name : String) (config : EngineConfig) : SessionM (Except StackError Unit) := do
  match Executor.new config with
  | .error e => return .error e
  | .ok e =>
    setExecutor name e
    return .ok ()

/-- Runs an operation of an executor on the world. -/
def onExecutor {α : Type} (name : String)
    (op : World → Executor → Option (α × World × Executor)) : SessionM α := do
  let e ← executor name
  let (a, world, e) ← StateT.lift (op (← get).world e)
  modify fun s => { s with world }
  setExecutor name e
  return a

def push (name : String) (f : FunctionId) (args : List Value) : SessionM (Except Failure Unit) :=
  onExecutor name fun w e =>
    let (result, e) := e.pushCall f args
    some (result, w, e)

def drain (name : String) : SessionM (Except Failure Drain) := do
  let fuel := (← get).fuel
  onExecutor name (Executor.drain fuel)

def takeResults (name : String) : SessionM (List Value) :=
  onExecutor name fun w e =>
    let (results, e) := e.takeResults
    some (results, w, e)

/-- A pause of a call: its reason, and how many frames were saved. -/
abbrev Pause := SuspendReason × Nat

/-- Drains until the call ends, at most `rounds` times. -/
def drainToEnd (name : String) : Nat → SessionM (Except Failure Unit × List Pause)
  | 0 => failure
  | rounds + 1 => do
    match ← drain name with
    | .error e => return (.error e, [])
    | .ok .finished => return (.ok (), [])
    | .ok .paused =>
      let e ← executor name
      let pause : Pause := (e.lastReason.getD .preempted, e.callStack.length)
      let (result, later) ← drainToEnd name rounds
      return (result, pause :: later)

/-- The end of a call that has been set up: its results or its failure, and its pauses. -/
def finishCall (name : String) : SessionM (Except Failure (List Value) × List Pause) := do
  let (result, pauses) ← drainToEnd name (← get).fuel
  match result with
  | .error e => return (.error e, pauses)
  | .ok () => return (.ok (← takeResults name), pauses)

/-- The number of pauses that direct calls wait through, unless told otherwise. -/
def pauseLimit (given : Option Nat) : SessionM Nat := do
  return given.getD (← get).config.maxPauses

def call (name : String) (maxPauses : Nat) (f : FunctionId) (args : List Value) :
    SessionM (Except HostError (List Value)) := do
  let fuel := (← get).fuel
  onExecutor name fun w e => DirectCall.call fuel maxPauses w e f args

def resume (name : String) (maxPauses : Nat) : SessionM (Except HostError (List Value)) := do
  let fuel := (← get).fuel
  onExecutor name (DirectCall.resume fuel maxPauses)

/-- A direct call on an executor of its own. -/
def callFresh (f : FunctionId) (args : List Value) :
    SessionM (Except HostError (List Value)) := do
  let s ← get
  let (result, world) ← StateT.lift (DirectCall.onFresh s.fuel s.config s.world f args)
  set { s with world }
  return result

/-- Puts arguments in the window at `base` of an executor that is not drained. -/
def openWindow (name : String) (base : Nat) (args : List Value) :
    SessionM (Except Failure Window) :=
  onExecutor name fun w e =>
    let (result, e) := e.onStack do
      let window ← RegisterStack.window base
      window.pushAll args
      return window
    some (result, w, e)

/-- Serves an activity in a window outside a drain. What the window holds afterwards are its
results. -/
def serve (name : String) (w : Window) (activity : Activity) :
    SessionM (Except Failure (List Value)) := do
  let fuel := (← get).fuel
  match ← onExecutor name fun world e => e.serve fuel world activity with
  | .error e => return .error e
  | .ok () => return .ok (w.values (← executor name).context.stack)

def renewScheduler (config : EngineConfig) : SessionM Unit :=
  modify fun s => { s with scheduler := { config } }

def spawn (f : FunctionId) (args : List Value) : SessionM (Except HostError Nat) :=
  modifyGet fun s =>
    let (result, scheduler) := s.scheduler.spawn s.world f args
    (result, { s with scheduler })

def stepScheduler : SessionM (Option Completion) := do
  let s ← get
  let (done, world, scheduler) ← StateT.lift (s.scheduler.step s.fuel s.world)
  set { s with world, scheduler }
  return done

def runScheduler : SessionM (List Completion) := do
  let s ← get
  let (done, world, scheduler) ← StateT.lift (s.scheduler.run s.fuel s.fuel s.world)
  set { s with world, scheduler }
  return done

def cancel (id : Nat) : SessionM Bool :=
  modifyGet fun s =>
    let (found, scheduler) := s.scheduler.cancel id
    (found, { s with scheduler })

/-- What the sinks have accepted, by name. -/
def accepted (s : Session) : List (String × Bytes) :=
  s.streams.map fun (name, u) => (name, ((s.world.file? u).map Handle.accepted).getD [])

/-- What the sinks have accepted since an earlier state of the session. -/
def acceptedSince (s earlier : Session) : List (String × Bytes) :=
  s.accepted.map fun (name, bytes) =>
    (name, bytes.drop ((earlier.accepted.lookup name).getD []).length)

/-- The lines logged since the last time they were taken. -/
def takeLog : SessionM (List String) := do
  let lines := (← get).world.log
  inWorld (modify fun w => { w with log := [] })
  return lines

/-- Writes the pending bytes of a handle, as far as its device takes them. -/
def letGo (w : World) (u : UserdataId) : World :=
  match w.file? u with
  | none => w
  | some h => (w.transfer u h [] 0 Transfer.flushPending).2.2

/-- The session after all handles were let go of, in the order they came to be known. -/
def closed (s : Session) : Session :=
  let all := (List.range s.world.objects.size).map UserdataId.mk
  let order := s.handles ++ all.filter fun u => !s.handles.contains u
  { s with world := order.foldl letGo s.world }

end Session

end CoopScript
