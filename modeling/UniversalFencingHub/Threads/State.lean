import UniversalFencingHub.ServerConnector.Placement

open linked_list

namespace ufh

/-- Where the thread that runs `ServerConnector::run` stands. A position that
names a client holds a pointer to it. -/
inductive SelectorPosition where
  | init
  | enable_wakeup
  | test_signal
  | build_lock
  | build
  | select
  | accept
  | accept_lock (client : ClientPtr)
  | accept_add (client : ClientPtr)
  | drain
  | pass_lock
  | pass_first
  | pass (client : Option ClientPtr)
  | enqueue_lock (client : ClientPtr) (next_client : Option ClientPtr)
  | enqueue (client : ClientPtr) (next_client : Option ClientPtr)
  | cleanup_socket
  | cleanup_action_lock
  | cleanup_action
  | cleanup_com_lock
  | cleanup_disable
  | cleanup_signal
  | cleanup_com
  | stop_lock
  | stop
  | join
  | finished
  deriving DecidableEq

/-- Where a thread in `WorkerPool::worker_loop` stands. -/
inductive WorkerPosition where
  | locking
  | loop
  | take
  | process (client : ClientPtr)
  | hand_back_lock (client : ClientPtr)
  | hand_back (client : ClientPtr)
  | close (client : ClientPtr)
  | relock
  | returned
  | raised
  | asleep
  | exited
  deriving DecidableEq

/-- Where the run of `ufh_signal_handler` stands that holds `signal_lock`. -/
inductive HandlerPosition where
  | idle
  | locked
  | flagged
  deriving DecidableEq

/-- The bytes that the trigger pipe holds. -/
def PIPE_CAPACITY : Nat := 65536

def INT_MAX : Int := 2147483647

/-- The state of the server process: the connector, the descriptors of its own,
the trigger pipe, the stop signal, the locks and the positions of all threads. -/
structure State (Buf : Type) where
  connector : Connector Buf
  socket_fd : Int := sys.FD_NONE
  trigger_read : Int := sys.FD_NONE
  trigger_write : Int := sys.FD_NONE
  pipe_bytes : Nat := 0
  read_fd_set : List Int := []
  write_fd_set : List Int := []
  signal_flag : Bool := false
  wakeup_fd : Int := sys.FD_NONE
  handler : HandlerPosition := .idle
  com_queue_lock : Option Thread := none
  action_queue_lock : Option Thread := none
  stop_workers : Bool := false
  selector : SelectorPosition := .init
  workers : WorkerId → WorkerPosition := fun _ => .locking
  terminated : Bool := false

namespace State

/-- The process after `WorkerPool::start`, when `ServerConnector::run` is called. -/
def initial (Buf : Type) [CharBuffer Buf] (memory : ClientMemory) : State Buf := { connector := .new Buf memory }

def set_worker {Buf : Type} (state : State Buf) (id : WorkerId) (position : WorkerPosition) : State Buf :=
  { state with workers := Function.update state.workers id position }

/-- Writing one byte to the trigger pipe; a full pipe stays as it is. -/
def write_pipe {Buf : Type} (state : State Buf) : State Buf :=
  { state with
    pipe_bytes := if state.pipe_bytes < PIPE_CAPACITY then state.pipe_bytes + 1 else state.pipe_bytes }

def wakeup_selector {Buf : Type} (state : State Buf) : State Buf :=
  if state.trigger_write ≠ sys.FD_NONE then state.write_pipe else state

/-- The first half of the handler, which sets the flag. -/
def ufh_signal_handler_flag {Buf : Type} (state : State Buf) : State Buf :=
  { state with signal_flag := true, handler := .flagged }

/-- The second half of the handler, which writes to the trigger pipe and unlocks
`signal_lock`. -/
def ufh_signal_handler_write {Buf : Type} (state : State Buf) : State Buf :=
  { (if state.wakeup_fd ≠ sys.FD_NONE then state.write_pipe else state) with handler := .idle }

/-- Closing one of the connector's own descriptors. -/
def close_own {Buf : Type} (state : State Buf) (fd : Int) : State Buf :=
  { state with connector := { state.connector with open_fds := (sys.close_fd state.connector.open_fds fd).1 } }

/-- The end of `init()`. A call that failed leaves its descriptor at `FD_NONE`
and sends the thread to `cleanup()`. -/
def init {Buf : Type} (state : State Buf) (socket_fd trigger_read trigger_write : Int) (failed : Bool) : State Buf :=
  let opened := [socket_fd, trigger_read, trigger_write].filter (· ≠ sys.FD_NONE)
  { state with
    connector := { state.connector with open_fds := opened ++ state.connector.open_fds }
    socket_fd
    trigger_read
    trigger_write
    selector := if failed then .cleanup_socket else .enable_wakeup }

/-- The descriptors that `init()` may obtain from the kernel. -/
def init_possible {Buf : Type} (state : State Buf) (socket_fd trigger_read trigger_write : Int) (failed : Bool) :
    Prop :=
  (∀ fd ∈ [socket_fd, trigger_read, trigger_write],
    fd = sys.FD_NONE ∨ 0 ≤ fd ∧ fd ∉ state.connector.open_fds) ∧
    ([socket_fd, trigger_read, trigger_write].filter (· ≠ sys.FD_NONE)).Nodup ∧
    (failed = false → 0 ≤ socket_fd ∧ 0 ≤ trigger_read ∧ 0 ≤ trigger_write)

instance {Buf : Type} (state : State Buf) (socket_fd trigger_read trigger_write : Int) (failed : Bool) :
    Decidable (state.init_possible socket_fd trigger_read trigger_write failed) :=
  inferInstanceAs (Decidable (_ ∧ _ ∧ _))

/-- The clients met by the walk over `com_queue`. -/
def com_clients {Buf : Type} (state : State Buf) : List ClientPtr :=
  follow state.connector.nodes.next MAX_CONNECTIONS state.connector.com_queue.get_first

/-- The clients that a walk over `com_queue` comes to. -/
def OnComQueue {Buf : Type} (state : State Buf) (client : ClientPtr) : Prop :=
  ∃ fuel, client ∈ follow state.connector.nodes.next fuel state.connector.com_queue.get_first

/-- The descriptors of the queued clients that wait for one kind of operation. -/
def interest {Buf : Type} (state : State Buf) (operation : IoOp) : List Int :=
  (state.com_clients.filter (fun client => (state.connector.clients client).io_state = operation)).map
    (fun client => (state.connector.clients client).socket_fd)

/-- The section that builds the descriptor sets. -/
def build {Buf : Type} (state : State Buf) : State Buf :=
  let read_fd_set := state.trigger_read ::
    ((if state.connector.client_pool.get_free_count ≥ 1 then [state.socket_fd] else []) ++ state.interest .READ)
  let write_fd_set := state.interest .WRITE
  let max_fd := (read_fd_set ++ write_fd_set).foldl max 0
  { state with
    read_fd_set
    write_fd_set
    com_queue_lock := none
    selector := if max_fd ≥ INT_MAX then .cleanup_socket else .select }

/-- What the kernel may answer to `select()`: it reports the trigger pipe
exactly when there is something to read from it. -/
def select_possible {Buf : Type} (state : State Buf) (ready_read ready_write : List Int) : Prop :=
  ready_read ⊆ state.read_fd_set ∧ ready_write ⊆ state.write_fd_set ∧ (ready_read ≠ [] ∨ ready_write ≠ []) ∧
    (state.trigger_read ∈ ready_read ↔ 0 < state.pipe_bytes)

instance {Buf : Type} (state : State Buf) (ready_read ready_write : List Int) :
    Decidable (state.select_possible ready_read ready_write) :=
  inferInstanceAs (Decidable (_ ∧ _ ∧ _ ∧ _))

/-- Where the selector goes after the part that accepts connections. -/
def after_accept {Buf : Type} (state : State Buf) : SelectorPosition :=
  if state.trigger_read ∈ state.read_fd_set then .drain else .pass_lock

def select {Buf : Type} (state : State Buf) (ready_read ready_write : List Int) : State Buf :=
  let state := { state with read_fd_set := ready_read, write_fd_set := ready_write }
  { state with selector := if state.socket_fd ∈ state.read_fd_set then .accept else state.after_accept }

/-- The descriptors that `accept()` may return; `FD_NONE` stands for a failure. -/
def accept_possible {Buf : Type} (state : State Buf) (fd : Int) : Prop :=
  fd = sys.FD_NONE ∨ 0 ≤ fd ∧ fd ∉ state.connector.open_fds

instance {Buf : Type} (state : State Buf) (fd : Int) : Decidable (state.accept_possible fd) :=
  inferInstanceAs (Decidable (_ ∨ _))

def accept {Buf : Type} [CharBuffer Buf] (state : State Buf) (fd : Int) : State Buf :=
  match state.connector.accept fd with
  | some (client, connector) => { state with connector, selector := .accept_lock client }
  | none => { state with selector := state.after_accept }

def drain {Buf : Type} (state : State Buf) : State Buf :=
  if 0 < state.pipe_bytes then { state with pipe_bytes := state.pipe_bytes - 1 }
  else { state with selector := .pass_lock }

/-- One round of the loop over `com_queue`. The successor is read before any
I/O operation. `SIGPIPE` ends the process. -/
def visit {Buf : Type} [CharBuffer Buf] (state : State Buf) (client : ClientPtr) (result : IoResult) : State Buf :=
  let next_client := state.connector.nodes.next client
  if result = .broken_pipe then { state with terminated := true }
  else
    let (connector, pending) :=
      state.connector.perform_io state.read_fd_set state.write_fd_set client result
    { state with
      connector
      selector := if pending then .enqueue_lock client next_client else .pass next_client }

/-- The threads that `notify_one` may wake up. -/
def notify_possible {Buf : Type} (state : State Buf) (target : Option WorkerId) : Prop :=
  match target with
  | some id => state.workers id = .asleep
  | none => ∀ id, state.workers id ≠ .asleep

instance {Buf : Type} (state : State Buf) (target : Option WorkerId) : Decidable (state.notify_possible target) :=
  match target with
  | some id => inferInstanceAs (Decidable (state.workers id = .asleep))
  | none => inferInstanceAs (Decidable (∀ id, state.workers id ≠ .asleep))

def notify {Buf : Type} (state : State Buf) (target : Option WorkerId) : State Buf :=
  match target with
  | some id => state.set_worker id .locking
  | none => state

def enqueue {Buf : Type} (state : State Buf) (client : ClientPtr) (next_client : Option ClientPtr)
    (target : Option WorkerId) : State Buf :=
  let state := { state with connector := state.connector.action_add_last client }
  { state.notify target with action_queue_lock := none, selector := .pass next_client }

def cleanup_socket {Buf : Type} (state : State Buf) : State Buf :=
  { state.close_own state.socket_fd with socket_fd := sys.FD_NONE, selector := .cleanup_action_lock }

/-- One round of the loop that closes the clients on `action_queue`. -/
def cleanup_action {Buf : Type} [CharBuffer Buf] (state : State Buf) : State Buf :=
  match state.connector.action_remove_first with
  | (some client, connector) => { state with connector := connector.close_connection client }
  | (none, connector) =>
    { state with connector, action_queue_lock := none, selector := .cleanup_com_lock }

def disable_wakeup_fd {Buf : Type} (state : State Buf) : State Buf :=
  { state with wakeup_fd := sys.FD_NONE, selector := .cleanup_signal }

def signal {Buf : Type} (state : State Buf) : State Buf :=
  { state with signal_flag := true, selector := .cleanup_com }

/-- One round of the loop that closes the clients on `com_queue`; after the
last one the trigger pipe is closed. -/
def cleanup_com {Buf : Type} [CharBuffer Buf] (state : State Buf) : State Buf :=
  match state.connector.com_remove_first with
  | (some client, connector) => { state with connector := connector.close_connection client }
  | (none, connector) =>
    let state := { state with connector }
    let state := state.close_own state.trigger_read
    let state := state.close_own state.trigger_write
    { state with
      trigger_read := sys.FD_NONE
      trigger_write := sys.FD_NONE
      com_queue_lock := none
      selector := .stop_lock }

def stop_threads {Buf : Type} (state : State Buf) : State Buf :=
  { state with
    stop_workers := true
    workers := fun id => if state.workers id = .asleep then .locking else state.workers id
    action_queue_lock := none
    selector := .join }

/-- The test at the head of the worker loop. -/
def test_stop {Buf : Type} (state : State Buf) (id : WorkerId) : State Buf :=
  if state.stop_workers then { state.set_worker id .exited with action_queue_lock := none }
  else state.set_worker id .take

/-- The end of a round of the worker loop: `wait`, or the end of the thread. Both
unlock `action_queue_lock` whether the thread owns it or not. -/
def wait_or_exit {Buf : Type} (state : State Buf) (id : WorkerId) : State Buf :=
  { state.set_worker id (if state.stop_workers then .exited else .asleep) with action_queue_lock := none }

def take {Buf : Type} (state : State Buf) (id : WorkerId) : State Buf :=
  match state.connector.take_action with
  | (some client, connector) =>
    { state.set_worker id (.process client) with connector, action_queue_lock := none }
  | (none, connector) => { state.set_worker id .returned with connector }

def process {Buf : Type} [CharBuffer Buf] (state : State Buf) (id : WorkerId) (client : ClientPtr)
    (success_flag : Bool) : State Buf :=
  let (connector, outcome) := state.connector.process client success_flag
  let state := { state with connector }
  match outcome with
  | .error _ => state.set_worker id .raised
  | .ok () =>
    let phase := (connector.clients client).current_phase
    state.set_worker id (if phase = .RECV ∨ phase = .SEND then .hand_back_lock client else .close client)

/-- The section that hands a client back to the selector, or closes it when the
selector has been stopped. -/
def hand_back {Buf : Type} [CharBuffer Buf] (state : State Buf) (id : WorkerId) (client : ClientPtr) : State Buf :=
  let state := state.set_worker id .relock
  if state.signal_flag then
    { state with connector := state.connector.close_connection client, com_queue_lock := none }
  else
    { { state with connector := state.connector.com_add_last client }.wakeup_selector with com_queue_lock := none }

def close {Buf : Type} [CharBuffer Buf] (state : State Buf) (id : WorkerId) (client : ClientPtr) : State Buf :=
  { state.set_worker id .relock with connector := state.connector.close_connection client }

end State

end ufh
