import UniversalFencingHub.Library.Locking
import UniversalFencingHub.ServerConnector.Placement

open locking locking.Program

namespace ufh

/-- The mutexes of the server process. `client_pool_lock` is the lock of class `GenAlloc`. -/
inductive Mutex where
  | com_queue_lock
  | action_queue_lock
  | client_pool_lock
  | signal_lock
  | stdio_lock
  | class_lock
  deriving DecidableEq

/-- The order in which locks are taken. -/
def Mutex.rank : Mutex → Nat
  | .com_queue_lock => 0
  | .action_queue_lock => 1
  | .client_pool_lock => 2
  | .stdio_lock => 2
  | .class_lock => 2
  | .signal_lock => 3

/-- The lock that the signal handler takes. -/
def Mutex.in_handler : Mutex → Bool
  | .signal_lock => true
  | _ => false

-- What the methods of the server do with the locks, under the names of the methods.
namespace locks

def get_instance : Program Mutex := locked .class_lock skip

def ufh_signal_handler : Program Mutex := locked .signal_lock skip

/-- The four methods of class `SignalHandler` take the lock of the handler in the same way. -/
def signals_blocked : Program Mutex := seq block_signals (seq (locked .signal_lock skip) unblock_signals)

def is_signaled : Program Mutex := signals_blocked

def signal : Program Mutex := signals_blocked

def enable_wakeup_fd : Program Mutex := signals_blocked

def disable_wakeup_fd : Program Mutex := signals_blocked

def get_pool_size : Program Mutex := locked .client_pool_lock skip

def get_free_count : Program Mutex := locked .client_pool_lock skip

def allocate : Program Mutex := locked .client_pool_lock skip

def deallocate : Program Mutex := locked .client_pool_lock skip

def close_connection : Program Mutex := deallocate

def receive_message : Program Mutex := maybe close_connection

def send_message : Program Mutex := maybe close_connection

/-- `wakeup_selector` writes to the trigger pipe, which does not block. -/
def wakeup_selector : Program Mutex := skip

/-- `allocate_scope` raises `std::bad_alloc` when the pool is empty. -/
def accept_connection : Program Mutex := seq allocate (maybe (locked .com_queue_lock skip))

/-- The section that builds the descriptor sets. -/
def build : Program Mutex := locked .com_queue_lock get_free_count

/-- The client is put on `action_queue`, and a worker is notified. -/
def enqueue : Program Mutex := locked .action_queue_lock skip

/-- One round of the loop over `com_queue`. -/
def visit : Program Mutex :=
  choice close_connection
    (choice (seq receive_message (maybe (choice close_connection enqueue)))
      (maybe (seq send_message (maybe close_connection))))

def pass : Program Mutex := locked .com_queue_lock (loop visit)

/-- The loop is left after the test, or by an exception before or after `select()`. -/
def selector_loop : Program Mutex :=
  seq enable_wakeup_fd
    (seq (loop (seq is_signaled (seq build (seq pause (maybe (seq (maybe accept_connection) pass))))))
      (seq is_signaled (maybe (seq build (maybe pause)))))

def cleanup : Program Mutex :=
  seq (locked .action_queue_lock (loop close_connection))
    (locked .com_queue_lock (seq disable_wakeup_fd (seq signal (loop close_connection))))

/-- `ServerConnector::run`. An exception of `init` leads to `cleanup` at once. -/
def run : Program Mutex := seq (maybe selector_loop) cleanup

def await_threads_termination : Program Mutex := pause

def stop_threads : Program Mutex := seq (locked .action_queue_lock skip) await_threads_termination

/-- `start` waits for the threads that were started when another one cannot be started. -/
def start : Program Mutex := seq (locked .action_queue_lock skip) (maybe await_threads_termination)

/-- A method of class `Server` reports on the call of the plugin before and after it. -/
def process_client_message : Program Mutex :=
  maybe (seq (locked .stdio_lock skip) (seq pause (locked .stdio_lock skip)))

/-- The caller holds `action_queue_lock`. No message raises an exception. -/
def process_action_queue : Program Mutex :=
  loop (seq (release .action_queue_lock)
    (seq process_client_message
      (seq
        (choice (locked .com_queue_lock (seq is_signaled (choice wakeup_selector close_connection))) close_connection)
        (acquire .action_queue_lock))))

def worker_loop : Program Mutex :=
  locked .action_queue_lock (loop (seq process_action_queue (maybe (wait .action_queue_lock))))

/-- The thread that runs `Server::run`. It ends early when the connector or the thread pool cannot be
constructed; threads that were started are stopped in any case. -/
def server_main : Program Mutex :=
  seq get_instance (maybe (seq get_pool_size (maybe (seq start (seq (maybe run) stop_threads)))))

/-- All threads of the process, none of which has taken a step. -/
def threads_initial : Thread → locking.Thread Mutex
  | .selector => { todo := [server_main] }
  | .worker _ => { todo := [worker_loop] }

/-- The states of the locks, under every schedule of the threads and every delivery of signals. -/
def Reachable (threads : Thread → locking.Thread Mutex) : Prop :=
  Relation.ReflTransGen (Step ufh_signal_handler) threads_initial threads

end locks

end ufh
