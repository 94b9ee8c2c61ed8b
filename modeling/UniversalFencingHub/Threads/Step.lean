import UniversalFencingHub.Library.Transition
import UniversalFencingHub.Threads.State

open transition

namespace ufh

/-- One step of one thread, or the delivery of a stop signal, together with what
the kernel, the plugin and the scheduler decide in it. -/
inductive Action where
  | init (socket_fd trigger_read trigger_write : Int) (failed : Bool)
  | enable_wakeup
  | test_signal
  | build_lock
  | build
  | select (ready_read ready_write : List Int)
  | select_interrupted
  | select_failed
  | accept (fd : Int)
  | accept_lock (client : ClientPtr)
  | accept_add (client : ClientPtr)
  | drain
  | pass_lock
  | pass_first
  | visit (client : ClientPtr) (result : IoResult)
  | pass_end
  | enqueue_lock (client : ClientPtr) (next_client : Option ClientPtr)
  | enqueue (client : ClientPtr) (next_client : Option ClientPtr) (target : Option WorkerId)
  | cleanup_socket
  | cleanup_action_lock
  | cleanup_action
  | cleanup_com_lock
  | cleanup_disable
  | cleanup_signal
  | cleanup_com
  | stop_lock
  | stop
  | join
  | worker_lock (id : WorkerId)
  | worker_test (id : WorkerId)
  | worker_take (id : WorkerId)
  | worker_process (id : WorkerId) (client : ClientPtr) (success_flag : Bool)
  | worker_hand_back_lock (id : WorkerId) (client : ClientPtr)
  | worker_hand_back (id : WorkerId) (client : ClientPtr)
  | worker_close (id : WorkerId) (client : ClientPtr)
  | worker_relock (id : WorkerId)
  | worker_wait (id : WorkerId)
  | worker_wake (id : WorkerId)
  | signal
  | signal_flag
  | signal_write
  deriving DecidableEq

namespace Action

/-- The start of the selector thread. -/
def startup : List Action := [.init 3 4 5 false, .enable_wakeup]

/-- A round of the selector loop up to the pass over `com_queue`. The steps
between `select` and the pass are `middle`. -/
def round (ready_read ready_write : List Int) (middle visits : List Action) : List Action :=
  [.test_signal, .build_lock, .build, .select ready_read ready_write] ++ middle ++
  [.pass_lock, .pass_first] ++ visits ++
    [.pass_end]

/-- The pass over clients that are not ready. -/
def skip (clients : List ClientPtr) : List Action := clients.map (Action.visit · .no_call)

/-- A round that accepts a connection behind the clients that are queued. -/
def accept_round (fd : Int) (client : ClientPtr) (queued : List ClientPtr) : List Action :=
  round [3] [] [.accept fd, .accept_lock client, .accept_add client] (skip (queued ++ [client]))

/-- The visit that completes a message and wakes up no worker. -/
def complete (client : ClientPtr) (next_client : Option ClientPtr) (data : Bytes) : List Action :=
  [.visit client (.received data), .enqueue_lock client next_client, .enqueue client next_client none]

/-- A worker takes a client and processes its message. -/
def work (id : WorkerId) (client : ClientPtr) (success_flag : Bool) : List Action :=
  [.worker_lock id, .worker_test id, .worker_take id, .worker_process id client success_flag]

end Action

namespace State

/-- A step that is possible under a condition. -/
def only_if {Buf : Type} (condition : Prop) [Decidable condition] (after : State Buf) : Option (State Buf) :=
  if condition then some after else none

theorem only_if_eq_some {Buf : Type} {condition : Prop} [Decidable condition] {after state : State Buf} :
    only_if condition after = some state ↔ condition ∧ after = state := by
  unfold only_if
  by_cases h : condition
  · simp [h]
  · simp [h]

/-- The step of a running process. -/
def act {Buf : Type} [CharBuffer Buf] (state : State Buf) : Action → Option (State Buf)
  | .init socket_fd trigger_read trigger_write failed =>
    only_if (state.selector = .init ∧ state.init_possible socket_fd trigger_read trigger_write failed)
      (state.init socket_fd trigger_read trigger_write failed)
  | .enable_wakeup =>
    only_if (state.selector = .enable_wakeup ∧ state.handler = .idle)
      { state with wakeup_fd := state.trigger_write, selector := .test_signal }
  | .test_signal =>
    only_if (state.selector = .test_signal ∧ state.handler = .idle)
      { state with selector := if state.signal_flag then .cleanup_socket else .build_lock }
  | .build_lock =>
    only_if (state.selector = .build_lock ∧ state.com_queue_lock = none)
      { state with com_queue_lock := some .selector, selector := .build }
  | .build => only_if (state.selector = .build) state.build
  | .select ready_read ready_write =>
    only_if (state.selector = .select ∧ state.select_possible ready_read ready_write)
      (state.select ready_read ready_write)
  | .select_interrupted => only_if (state.selector = .select) { state with selector := .test_signal }
  | .select_failed => only_if (state.selector = .select) { state with selector := .cleanup_socket }
  | .accept fd => only_if (state.selector = .accept ∧ state.accept_possible fd) (state.accept fd)
  | .accept_lock client =>
    only_if (state.selector = .accept_lock client ∧ state.com_queue_lock = none)
      { state with com_queue_lock := some .selector, selector := .accept_add client }
  | .accept_add client =>
    only_if (state.selector = .accept_add client)
      { state with
        connector := state.connector.com_add_last client
        com_queue_lock := none
        selector := state.after_accept }
  | .drain => only_if (state.selector = .drain) state.drain
  | .pass_lock =>
    only_if (state.selector = .pass_lock ∧ state.com_queue_lock = none)
      { state with com_queue_lock := some .selector, selector := .pass_first }
  | .pass_first =>
    only_if (state.selector = .pass_first) { state with selector := .pass state.connector.com_queue.get_first }
  | .visit client result =>
    only_if (state.selector = .pass (some client) ∧
        (state.connector.clients client).io_possible state.read_fd_set state.write_fd_set result)
      (state.visit client result)
  | .pass_end =>
    only_if (state.selector = .pass none) { state with com_queue_lock := none, selector := .test_signal }
  | .enqueue_lock client next_client =>
    only_if (state.selector = .enqueue_lock client next_client ∧ state.action_queue_lock = none)
      { state with action_queue_lock := some .selector, selector := .enqueue client next_client }
  | .enqueue client next_client target =>
    only_if (state.selector = .enqueue client next_client ∧ state.notify_possible target)
      (state.enqueue client next_client target)
  | .cleanup_socket => only_if (state.selector = .cleanup_socket) state.cleanup_socket
  | .cleanup_action_lock =>
    only_if (state.selector = .cleanup_action_lock ∧ state.action_queue_lock = none)
      { state with action_queue_lock := some .selector, selector := .cleanup_action }
  | .cleanup_action => only_if (state.selector = .cleanup_action) state.cleanup_action
  | .cleanup_com_lock =>
    only_if (state.selector = .cleanup_com_lock ∧ state.com_queue_lock = none)
      { state with com_queue_lock := some .selector, selector := .cleanup_disable }
  | .cleanup_disable =>
    only_if (state.selector = .cleanup_disable ∧ state.handler = .idle) state.disable_wakeup_fd
  | .cleanup_signal => only_if (state.selector = .cleanup_signal ∧ state.handler = .idle) state.signal
  | .cleanup_com => only_if (state.selector = .cleanup_com) state.cleanup_com
  | .stop_lock =>
    only_if (state.selector = .stop_lock ∧ state.action_queue_lock = none)
      { state with action_queue_lock := some .selector, selector := .stop }
  | .stop => only_if (state.selector = .stop) state.stop_threads
  | .join =>
    only_if (state.selector = .join ∧ ∀ id, state.workers id = .exited) { state with selector := .finished }
  | .worker_lock id =>
    only_if (state.workers id = .locking ∧ state.action_queue_lock = none)
      { state.set_worker id .loop with action_queue_lock := some (.worker id) }
  | .worker_test id => only_if (state.workers id = .loop) (state.test_stop id)
  | .worker_take id => only_if (state.workers id = .take) (state.take id)
  | .worker_process id client success_flag =>
    only_if (state.workers id = .process client) (state.process id client success_flag)
  | .worker_hand_back_lock id client =>
    only_if (state.workers id = .hand_back_lock client ∧ state.com_queue_lock = none)
      { state.set_worker id (.hand_back client) with com_queue_lock := some (.worker id) }
  | .worker_hand_back id client =>
    only_if (state.workers id = .hand_back client ∧ state.handler = .idle) (state.hand_back id client)
  | .worker_close id client => only_if (state.workers id = .close client) (state.close id client)
  | .worker_relock id =>
    only_if (state.workers id = .relock ∧ state.action_queue_lock = none)
      { state.set_worker id .take with action_queue_lock := some (.worker id) }
  | .worker_wait id =>
    only_if (state.workers id = .returned ∨ state.workers id = .raised) (state.wait_or_exit id)
  | .worker_wake id => only_if (state.workers id = .asleep) (state.set_worker id .locking)
  | .signal => only_if (state.handler = .idle) { state with handler := .locked }
  | .signal_flag => only_if (state.handler = .locked) state.ufh_signal_handler_flag
  | .signal_write => only_if (state.handler = .flagged) state.ufh_signal_handler_write

def step {Buf : Type} [CharBuffer Buf] (state : State Buf) (action : Action) : Option (State Buf) :=
  if state.terminated then none else state.act action

/-- The states of the server, under every schedule and every behaviour of the
kernel, the peers and the plugin. -/
def Reachable {Buf : Type} [CharBuffer Buf] (state : State Buf) : Prop :=
  ReachesFrom (initial Buf) step state

/-- The states of the runs all of whose steps meet a condition. -/
def ReachableWhere {Buf : Type} [CharBuffer Buf] (condition : State Buf → Action → Prop) (state : State Buf) : Prop :=
  ReachesFromWhere (initial Buf) step condition state

end State

end ufh
