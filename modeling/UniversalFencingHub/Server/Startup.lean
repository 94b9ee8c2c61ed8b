import UniversalFencingHub.Server.Run
import UniversalFencingHub.ServerConnector.Release
import UniversalFencingHub.Threads.Moves

open transition

namespace ufh

/-- The positions of a worker that has not met any client. -/
def WorkerPosition.without_client : WorkerPosition → Bool
  | .locking => true
  | .loop => true
  | .take => true
  | .returned => true
  | .asleep => true
  | .exited => true
  | _ => false

namespace State

variable {Buf : Type} [CharBuffer Buf] {before after state : State Buf} {action : Action} {id : WorkerId}
  {strict : Prop} {client : ClientPtr} {memory : ClientMemory}

/-- The connector is as its constructor has left it, and the workers have met no client. -/
structure Untouched (memory : ClientMemory) (state : State Buf) : Prop where
  connector : state.connector = Connector.new Buf memory
  socket_fd : state.socket_fd = sys.FD_NONE
  workers : ∀ id, (state.workers id).without_client = true

/-- Nothing of the connector and of its connections is left. -/
structure Cleared (memory : ClientMemory) (state : State Buf) : Prop where
  open_fds : state.connector.open_fds = []
  socket_fd : state.socket_fd = sys.FD_NONE
  pool : ∀ client, client ∈ state.connector.client_pool.free_objects
  blank : ∀ client, (state.connector.clients client).Blank (memory.io_buffer client)

theorem Untouched.cleared (h : state.Untouched memory) : state.Cleared memory := by
  have hnew := h.connector
  refine ⟨by rw [hnew]; rfl, h.socket_fd, fun client => ?_, fun client => ?_⟩
  · rw [hnew]
    exact List.mem_finRange client
  · rw [hnew]
    exact Or.inr rfl

theorem Untouched.set_worker (h : before.Untouched memory) {position : WorkerPosition}
    (hposition : position.without_client = true) (hconnector : after.connector = before.connector)
    (hsocket : after.socket_fd = before.socket_fd)
    (hworkers : after.workers = Function.update before.workers id position) : after.Untouched memory := by
  refine ⟨hconnector.trans h.connector, hsocket.trans h.socket_fd, fun other => ?_⟩
  rw [hworkers]
  by_cases hsame : other = id
  · rw [hsame, Function.update_self]
    exact hposition
  · rw [Function.update_of_ne hsame]
    exact h.workers other

/-- Workers that start before the selector find nothing to do. -/
theorem Untouched.act (h : before.Untouched memory) (hact : before.act action = some after)
    (haction : action.by_selector = false) : after.Untouched memory := by
  have hmet : ∀ {id position}, before.workers id = position → position.without_client = true := by
    rintro id _ rfl
    exact h.workers id
  cases action with
  | worker_lock id =>
    obtain ⟨_, rfl⟩ := only_if_eq_some.mp hact
    exact h.set_worker rfl rfl rfl rfl
  | worker_test id =>
    obtain ⟨_, rfl⟩ := only_if_eq_some.mp hact
    unfold test_stop
    split
    · exact h.set_worker rfl rfl rfl rfl
    · exact h.set_worker rfl rfl rfl rfl
  | worker_take id =>
    obtain ⟨_, rfl⟩ := only_if_eq_some.mp hact
    have hempty : before.connector.take_action = (none, Connector.new Buf memory) := by
      rw [h.connector]
      rfl
    simp only [take, hempty]
    exact h.set_worker rfl h.connector.symm rfl rfl
  | worker_process id client success_flag => cases hmet (only_if_eq_some.mp hact).1
  | worker_hand_back_lock id client => cases hmet (only_if_eq_some.mp hact).1.1
  | worker_hand_back id client => cases hmet (only_if_eq_some.mp hact).1.1
  | worker_close id client => cases hmet (only_if_eq_some.mp hact).1
  | worker_relock id => cases hmet (only_if_eq_some.mp hact).1.1
  | worker_wait id =>
    obtain ⟨_, rfl⟩ := only_if_eq_some.mp hact
    have hposition : WorkerPosition.without_client (if before.stop_workers then .exited else .asleep) = true := by
      split
      · rfl
      · rfl
    exact h.set_worker hposition rfl rfl rfl
  | worker_wake id =>
    obtain ⟨_, rfl⟩ := only_if_eq_some.mp hact
    exact h.set_worker rfl rfl rfl rfl
  | signal =>
    obtain ⟨_, rfl⟩ := only_if_eq_some.mp hact
    exact ⟨h.connector, h.socket_fd, h.workers⟩
  | signal_flag =>
    obtain ⟨_, rfl⟩ := only_if_eq_some.mp hact
    exact ⟨h.connector, h.socket_fd, h.workers⟩
  | signal_write =>
    obtain ⟨_, rfl⟩ := only_if_eq_some.mp hact
    unfold ufh_signal_handler_write
    split
    · exact ⟨h.connector, h.socket_fd, h.workers⟩
    · exact ⟨h.connector, h.socket_fd, h.workers⟩
  | _ => cases haction

theorem Untouched.stop_threads (h : state.Untouched memory) : state.stop_threads.Untouched memory := by
  refine ⟨h.connector, h.socket_fd, fun id => ?_⟩
  change WorkerPosition.without_client (if state.workers id = .asleep then .locking else state.workers id) = true
  split
  · rfl
  · exact h.workers id

theorem handler_act_kept (hact : before.act action = some after) (hselector : action.by_selector = false)
    (hworker : action.worker = none) : after.connector = before.connector ∧ after.socket_fd = before.socket_fd := by
  cases action with
  | signal =>
    obtain ⟨_, rfl⟩ := only_if_eq_some.mp hact
    exact ⟨rfl, rfl⟩
  | signal_flag =>
    obtain ⟨_, rfl⟩ := only_if_eq_some.mp hact
    exact ⟨rfl, rfl⟩
  | signal_write =>
    obtain ⟨_, rfl⟩ := only_if_eq_some.mp hact
    unfold ufh_signal_handler_write
    split
    · exact ⟨rfl, rfl⟩
    · exact ⟨rfl, rfl⟩
  | worker_lock | worker_test | worker_take | worker_process | worker_hand_back_lock | worker_hand_back | worker_close
  | worker_relock | worker_wait | worker_wake => cases hworker
  | _ => cases hselector

theorem Cleared.same (h : before.Cleared memory)
    (hsame : after.connector = before.connector ∧ after.socket_fd = before.socket_fd) : after.Cleared memory := by
  obtain ⟨hconnector, hsocket⟩ := hsame
  refine ⟨?_, hsocket.trans h.socket_fd, ?_, ?_⟩
  · rw [hconnector]
    exact h.open_fds
  · rw [hconnector]
    exact h.pool
  · rw [hconnector]
    exact h.blank

/-- The destructor of class `ServerConnector` finds nothing to close. -/
theorem Cleared.close_own (h : state.Cleared memory) : (state.close_own state.socket_fd).Cleared memory := by
  refine ⟨?_, h.socket_fd, h.pool, h.blank⟩
  change (sys.close_fd state.connector.open_fds state.socket_fd).1 = []
  rw [h.open_fds, h.socket_fd]
  rfl

/-- The steps of a run that is orderly, or of any run. -/
def Guard (strict : Prop) (state : State Buf) (action : Action) : Prop := strict → state.Orderly action

/-- The process before `WorkerPool::start`, to which nothing but signals may have happened. -/
structure Unstarted (strict : Prop) (memory : ClientMemory) (state : State Buf) : Prop where
  reachable : ReachesWhere State.step (Guard strict) (State.initial Buf memory) state
  selector : state.selector = .init
  workers : ∀ id, state.workers id = .locking
  action_queue_lock : state.action_queue_lock = none
  connector : state.connector = Connector.new Buf memory
  socket_fd : state.socket_fd = sys.FD_NONE
  wakeup_fd : state.wakeup_fd = sys.FD_NONE

theorem Unstarted.initial (memory : ClientMemory) : Unstarted strict memory (State.initial Buf memory) :=
  ⟨.refl _, rfl, fun _ => rfl, rfl, rfl, rfl, rfl⟩

theorem Unstarted.untouched (h : Unstarted strict memory state) : state.Untouched memory := by
  refine ⟨h.connector, h.socket_fd, fun id => ?_⟩
  rw [h.workers id]
  rfl

/-- No worker gets past its first lock while the main thread holds `action_queue_lock`. -/
theorem Unstarted.worker_blocked (h : Unstarted strict memory state) {thread : Thread}
    (hworker : action.worker = some id) :
    ({ state with action_queue_lock := some thread } : State Buf).act action ≠ some after := by
  intro hact
  have hnext := (act_worker_moves hact hworker).next
  change WorkerPosition.Next id (state.workers id) action _ at hnext
  rw [h.workers id] at hnext
  generalize after.workers id = position at hnext
  cases hnext
  obtain ⟨⟨_, hlock⟩, _⟩ := only_if_eq_some.mp hact
  cases hlock

/-- A step of the signal handler, before the threads run and whoever holds `action_queue_lock`. -/
theorem Unstarted.act (h : Unstarted strict memory state) (hrunning : state.terminated = false) (lock : Option Thread)
    (hact : ({ state with action_queue_lock := lock } : State Buf).act action = some after)
    (hselector : action.by_selector = false) (hworker : action.worker = none) :
    ∃ next, Unstarted strict memory next ∧ after = { next with action_queue_lock := lock } := by
  have hmove : ∀ {flag : Bool} {handler : HandlerPosition},
      state.act action = some { state with signal_flag := flag, handler } → Guard strict state action →
      Unstarted strict memory { state with signal_flag := flag, handler } := fun hnext hguard =>
    ⟨h.reachable.tail hguard (step_eq_some.mpr ⟨hrunning, hnext⟩), h.selector, h.workers, h.action_queue_lock,
      h.connector, h.socket_fd, h.wakeup_fd⟩
  cases action with
  | signal =>
    obtain ⟨hhandler, rfl⟩ := only_if_eq_some.mp hact
    exact ⟨_, hmove (only_if_eq_some.mpr ⟨hhandler, rfl⟩) fun _ => trivial, rfl⟩
  | signal_flag =>
    obtain ⟨hhandler, rfl⟩ := only_if_eq_some.mp hact
    exact ⟨_, hmove (only_if_eq_some.mpr ⟨hhandler, rfl⟩) fun _ => trivial, rfl⟩
  | signal_write =>
    obtain ⟨hhandler, rfl⟩ := only_if_eq_some.mp hact
    have hwrite : ∀ {other : State Buf}, other.wakeup_fd = sys.FD_NONE →
        other.ufh_signal_handler_write = { other with handler := .idle } := by
      intro other hnone
      simp only [ufh_signal_handler_write, hnone, ne_eq, not_true_eq_false, if_false]
    refine ⟨_, hmove (only_if_eq_some.mpr ⟨hhandler, hwrite h.wakeup_fd⟩) fun _ => trivial, ?_⟩
    have hlocked : ({ state with action_queue_lock := lock } : State Buf).wakeup_fd = sys.FD_NONE := h.wakeup_fd
    exact hwrite hlocked
  | worker_lock | worker_test | worker_take | worker_process | worker_hand_back_lock | worker_hand_back | worker_close
  | worker_relock | worker_wait | worker_wake => cases hworker
  | _ => cases hselector

end State

end ufh
