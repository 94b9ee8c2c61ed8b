import UniversalFencingHub.Library.Lifetime
import UniversalFencingHub.Threads.Operations

open transition

namespace ufh

namespace Server

/-- The field of class `PluginMgr` that its destructor tests. -/
structure PluginMgr where
  have_plugin_init : Bool := false
  deriving DecidableEq

/-- Where the thread stands that runs `Server::run`. From `running` on, and until
`thread_pool` is destroyed, its position is that of the selector. -/
inductive Stage where
  | arguments
  | load_plugin
  | plugin_init
  | connector
  | thread_pool
  | start_lock
  | start (idx : Nat)
  | await_threads
  | running
  | stop_lock
  | stop
  | join
  | destroy_connector
  | destroy_plugin
  | returned
  deriving DecidableEq

/-- The state of `Server::run`: the plugin manager, the number of threads that
`WorkerPool::start` has started, the connector and the threads, the workers that are in a
function of the plugin, and what has happened to the plugin. -/
structure Run (Buf : Type) where
  stage : Stage := .arguments
  plugin : Option PluginMgr := none
  started : Nat := 0
  state : State Buf
  calling : WorkerId → Bool := fun _ => false
  plugin_calls : List (lifetime.Event WorkerId) := []

/-- One step of `Server::run`, of a thread or of the signal handler. -/
inductive RunAction where
  | read_parameters (valid : Bool)
  | load_plugin (success : Bool)
  | plugin_init (init_successful : Bool)
  | new_connector (success : Bool)
  | new_thread_pool (success : Bool)
  | start_lock
  | start_thread
  | start_failed (system_error : Bool)
  | start_done
  | await_threads
  | end_running
  | stop_lock
  | stop
  | join
  | destroy_connector
  | destroy_plugin
  | call (id : WorkerId)
  | server (action : Action)
  deriving DecidableEq

namespace Run

variable {Buf : Type} [CharBuffer Buf]

def initial (Buf : Type) [CharBuffer Buf] (memory : ClientMemory) : Run Buf := { state := State.initial Buf memory }

/-- `pool_threads[idx]` has been started. -/
def Started (run : Run Buf) (id : WorkerId) : Prop := id.val < run.started

instance (run : Run Buf) (id : WorkerId) : Decidable (run.Started id) := inferInstanceAs (Decidable (_ < _))

/-- All threads that were started have ended, and can be joined. -/
def AllExited (run : Run Buf) : Prop := ∀ id, run.Started id → run.state.workers id = .exited

instance (run : Run Buf) : Decidable run.AllExited := inferInstanceAs (Decidable (∀ _, _ → _))

/-- Processing the message of a client calls the plugin. -/
def calls_plugin (run : Run Buf) (client : ClientPtr) : Bool :=
  ((run.state.connector.clients client).process_client_message false).call.isSome

/-- A call of the plugin has returned when a worker ends the processing of a message. -/
def has_returned (run : Run Buf) : Action → Bool
  | .worker_process id client _ => !run.calls_plugin client || run.calling id
  | _ => true

/-- A thread may take a step: the main thread inside `ServerConnector::run` and in the destructor of
the thread pool that follows, a worker when it has been started and when a call of the plugin has
returned, and the signal handler always. -/
def Permits (run : Run Buf) (action : Action) : Prop :=
  (action.by_selector = true → run.stage = .running) ∧ (∀ id, action.worker = some id → run.Started id) ∧
    run.has_returned action = true

instance (run : Run Buf) (action : Action) : Decidable (run.Permits action) := inferInstanceAs (Decidable (_ ∧ _ ∧ _))

/-- A worker enters a function of the plugin. -/
def enter (run : Run Buf) (id : WorkerId) : Run Buf :=
  { run with
    calling := Function.update run.calling id true
    plugin_calls := run.plugin_calls ++ [.enter id] }

/-- A worker that is in a function of the plugin returns from it. -/
def leave (run : Run Buf) (id : WorkerId) : Run Buf :=
  if run.calling id then
    { run with
      calling := Function.update run.calling id false
      plugin_calls := run.plugin_calls ++ [.leave id] }
  else run

/-- The destructor of class `PluginMgr`. -/
def destroy_plugin (run : Run Buf) : Run Buf :=
  match run.plugin with
  | some mgr =>
    { run with
      plugin := none
      plugin_calls := if mgr.have_plugin_init then run.plugin_calls ++ [.destroy] else run.plugin_calls }
  | none => run

/-- A step of the threads, from which a worker that ends the processing of a message has returned from
the plugin. -/
def server (run : Run Buf) (action : Action) : Option (Run Buf) :=
  (run.state.step action).map fun state =>
    match action with
    | .worker_process id _ _ => { run.leave id with state }
    | _ => { run with state }

def act (run : Run Buf) : RunAction → Option (Run Buf)
  | .read_parameters valid =>
    if run.stage = .arguments then some { run with stage := if valid then .load_plugin else .destroy_plugin } else none
  | .load_plugin success =>
    if run.stage = .load_plugin then some { run with stage := if success then .plugin_init else .destroy_plugin }
    else none
  | .plugin_init init_successful =>
    if run.stage = .plugin_init then
      let run := { run with plugin_calls := run.plugin_calls ++ [lifetime.Event.create init_successful] }
      -- an exception in its constructor leaves no object behind
      if init_successful then some { run with plugin := some { have_plugin_init := true }, stage := .connector }
      else some { run with stage := .destroy_plugin }
    else none
  | .new_connector success =>
    if run.stage = .connector then some { run with stage := if success then .thread_pool else .destroy_plugin }
    else none
  | .new_thread_pool success =>
    if run.stage = .thread_pool then some { run with stage := if success then .start_lock else .destroy_connector }
    else none
  | .start_lock =>
    if run.stage = .start_lock ∧ run.state.action_queue_lock = none then
      some { run with state := { run.state with action_queue_lock := some .selector }, stage := .start 0 }
    else none
  | .start_thread =>
    match run.stage with
    | .start idx =>
      if idx < MAX_CONNECTIONS then some { run with started := idx + 1, stage := .start (idx + 1) } else none
    | _ => none
  | .start_failed system_error =>
    match run.stage with
    | .start idx =>
      if idx < MAX_CONNECTIONS then
        -- only `std::system_error` is caught in `start`
        if system_error then some { run with state := run.state.stop_threads, stage := .await_threads }
        else some { run with state := { run.state with action_queue_lock := none }, stage := .stop_lock }
      else none
    | _ => none
  | .start_done =>
    if run.stage = .start MAX_CONNECTIONS then
      some { run with state := { run.state with action_queue_lock := none }, stage := .running }
    else none
  | .await_threads => if run.stage = .await_threads ∧ run.AllExited then some { run with stage := .stop_lock } else none
  | .end_running =>
    if run.stage = .running ∧ run.state.selector = .finished then some { run with stage := .destroy_connector }
    else none
  | .stop_lock =>
    if run.stage = .stop_lock ∧ run.state.action_queue_lock = none then
      some { run with state := { run.state with action_queue_lock := some .selector }, stage := .stop }
    else none
  | .stop => if run.stage = .stop then some { run with state := run.state.stop_threads, stage := .join } else none
  | .join => if run.stage = .join ∧ run.AllExited then some { run with stage := .destroy_connector } else none
  | .destroy_connector =>
    if run.stage = .destroy_connector then
      some { run with state := run.state.close_own run.state.socket_fd, stage := .destroy_plugin }
    else none
  | .destroy_plugin =>
    if run.stage = .destroy_plugin then some { run.destroy_plugin with stage := .returned } else none
  | .call id =>
    match run.state.workers id with
    | .process client =>
      if run.Started id ∧ run.calling id = false ∧ run.calls_plugin client = true then some (run.enter id) else none
    | _ => none
  | .server action => if run.Permits action then run.server action else none

/-- A step of a process that has not been terminated by a signal. -/
def step (run : Run Buf) (action : RunAction) : Option (Run Buf) :=
  if run.state.terminated then none else run.act action

/-- The states of `Server::run`, under every schedule and every failure. -/
def Reachable (run : Run Buf) : Prop := ReachesFrom (initial Buf) step run

end Run

end Server

end ufh
