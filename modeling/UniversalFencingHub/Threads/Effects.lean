import UniversalFencingHub.Threads.Reachable

namespace ufh

/-- The steps that operate on one of the queues or on the pool. -/
def Action.on_lists : Action → Bool
  | .accept _ => true
  | .accept_add _ => true
  | .visit _ _ => true
  | .enqueue _ _ _ => true
  | .cleanup_action => true
  | .cleanup_com => true
  | .worker_take _ => true
  | .worker_hand_back _ _ => true
  | .worker_close _ _ => true
  | _ => false

/-- The steps of the thread that runs `ServerConnector::run`. -/
def Action.by_selector : Action → Bool
  | .worker_lock _ => false
  | .worker_test _ => false
  | .worker_take _ => false
  | .worker_process _ _ _ => false
  | .worker_hand_back_lock _ _ => false
  | .worker_hand_back _ _ => false
  | .worker_close _ _ => false
  | .worker_relock _ => false
  | .worker_wait _ => false
  | .worker_wake _ => false
  | .signal => false
  | .signal_flag => false
  | .signal_write => false
  | _ => true

/-- The steps that lock or unlock `action_queue_lock`, or move a worker. -/
def Action.on_pool : Action → Bool
  | .worker_lock _ => true
  | .worker_test _ => true
  | .worker_take _ => true
  | .worker_process _ _ _ => true
  | .worker_hand_back_lock _ _ => true
  | .worker_hand_back _ _ => true
  | .worker_close _ _ => true
  | .worker_relock _ => true
  | .worker_wait _ => true
  | .worker_wake _ => true
  | .enqueue_lock _ _ => true
  | .enqueue _ _ _ => true
  | .cleanup_action_lock => true
  | .cleanup_action => true
  | .stop_lock => true
  | .stop => true
  | _ => false

/-- Where a step takes the selector from a position. -/
inductive SelectorPosition.Next : SelectorPosition → Action → SelectorPosition → Prop where
  | opened (socket_fd trigger_read trigger_write : Int) :
    Next .init (.init socket_fd trigger_read trigger_write false) .enable_wakeup
  | not_opened (socket_fd trigger_read trigger_write : Int) :
    Next .init (.init socket_fd trigger_read trigger_write true) .cleanup_socket
  | enabled : Next .enable_wakeup .enable_wakeup .test_signal
  | signaled : Next .test_signal .test_signal .cleanup_socket
  | not_signaled : Next .test_signal .test_signal .build_lock
  | build_locked : Next .build_lock .build_lock .build
  | built : Next .build .build .select
  | not_built : Next .build .build .cleanup_socket
  | interrupted : Next .select .select_interrupted .test_signal
  | failed : Next .select .select_failed .cleanup_socket
  | connection_ready (ready_read ready_write : List Int) : Next .select (.select ready_read ready_write) .accept
  | trigger_ready (ready_read ready_write : List Int) : Next .select (.select ready_read ready_write) .drain
  | clients_ready (ready_read ready_write : List Int) : Next .select (.select ready_read ready_write) .pass_lock
  | accepted (fd : Int) (client : ClientPtr) : Next .accept (.accept fd) (.accept_lock client)
  | not_accepted (fd : Int) : Next .accept (.accept fd) .drain
  | not_accepted_pass (fd : Int) : Next .accept (.accept fd) .pass_lock
  | accept_locked (client : ClientPtr) : Next (.accept_lock client) (.accept_lock client) (.accept_add client)
  | added (client : ClientPtr) : Next (.accept_add client) (.accept_add client) .drain
  | added_pass (client : ClientPtr) : Next (.accept_add client) (.accept_add client) .pass_lock
  | draining : Next .drain .drain .drain
  | drained : Next .drain .drain .pass_lock
  | pass_locked : Next .pass_lock .pass_lock .pass_first
  | first (client : Option ClientPtr) : Next .pass_first .pass_first (.pass client)
  | killed (client : ClientPtr) (result : IoResult) :
    Next (.pass (some client)) (.visit client result) (.pass (some client))
  | visited (client : ClientPtr) (result : IoResult) (next_client : Option ClientPtr) :
    Next (.pass (some client)) (.visit client result) (.pass next_client)
  | completed (client : ClientPtr) (result : IoResult) (next_client : Option ClientPtr) :
    Next (.pass (some client)) (.visit client result) (.enqueue_lock client next_client)
  | passed : Next (.pass none) .pass_end .test_signal
  | enqueue_locked (client : ClientPtr) (next_client : Option ClientPtr) :
    Next (.enqueue_lock client next_client) (.enqueue_lock client next_client) (.enqueue client next_client)
  | enqueued (client : ClientPtr) (next_client : Option ClientPtr) (target : Option WorkerId) :
    Next (.enqueue client next_client) (.enqueue client next_client target) (.pass next_client)
  | socket_closed : Next .cleanup_socket .cleanup_socket .cleanup_action_lock
  | action_locked : Next .cleanup_action_lock .cleanup_action_lock .cleanup_action
  | action_closed : Next .cleanup_action .cleanup_action .cleanup_action
  | action_emptied : Next .cleanup_action .cleanup_action .cleanup_com_lock
  | com_locked : Next .cleanup_com_lock .cleanup_com_lock .cleanup_disable
  | disabled : Next .cleanup_disable .cleanup_disable .cleanup_signal
  | signal_sent : Next .cleanup_signal .cleanup_signal .cleanup_com
  | com_closed : Next .cleanup_com .cleanup_com .cleanup_com
  | com_emptied : Next .cleanup_com .cleanup_com .stop_lock
  | stop_locked : Next .stop_lock .stop_lock .stop
  | stopped : Next .stop .stop .join
  | joined : Next .join .join .finished

namespace State

variable {Buf : Type} [CharBuffer Buf] {before after state : State Buf} {client : ClientPtr} {id : WorkerId}
  {action : Action}

theorem process_connector (state : State Buf) (id : WorkerId) (client : ClientPtr) (success_flag : Bool) :
    (state.process id client success_flag).connector = (state.connector.process client success_flag).1 := by
  unfold State.process
  simp only
  split
  · rfl
  · rfl

theorem process_lists (state : State Buf) (id : WorkerId) (client : ClientPtr) (success_flag : Bool) :
    SameQueues state.connector (state.process id client success_flag).connector ∧
      (state.process id client success_flag).connector.client_pool = state.connector.client_pool := by
  rw [process_connector]
  exact ⟨⟨rfl, rfl, rfl⟩, rfl⟩

omit [CharBuffer Buf] in
theorem take_action_kept (connector : Connector Buf) : connector.take_action.2.open_fds = connector.open_fds ∧
    connector.take_action.2.client_pool = connector.client_pool := by
  unfold Connector.take_action Connector.action_remove_first
  simp only
  split
  · next heq =>
    obtain ⟨_, rfl⟩ := Prod.mk.inj heq
    exact ⟨rfl, rfl⟩
  · next heq =>
    obtain ⟨_, rfl⟩ := Prod.mk.inj heq
    exact ⟨rfl, rfl⟩

omit [CharBuffer Buf] in
theorem take_connector (state : State Buf) (id : WorkerId) :
    (state.take id).connector = state.connector.take_action.2 := by
  unfold State.take
  split
  · next heq => rw [heq]
  · next heq => rw [heq]

omit [CharBuffer Buf] in
theorem take_client_pool (state : State Buf) (id : WorkerId) :
    (state.take id).connector.client_pool = state.connector.client_pool := by
  rw [take_connector]
  exact (take_action_kept state.connector).2

/-- All other steps leave the queues, the links and the pool as they are. -/
theorem act_elsewhere (hact : before.act action = some after) (haction : action.on_lists = false) :
    SameQueues before.connector after.connector ∧ after.connector.client_pool = before.connector.client_pool := by
  have hsilent : ∀ {connector : Connector Buf}, connector = before.connector →
      SameQueues before.connector connector ∧ connector.client_pool = before.connector.client_pool := by
    rintro connector rfl
    exact ⟨⟨rfl, rfl, rfl⟩, rfl⟩
  cases action with
  | init socket_fd trigger_read trigger_write failed =>
    obtain ⟨_, rfl⟩ := only_if_eq_some.mp hact
    exact ⟨⟨rfl, rfl, rfl⟩, rfl⟩
  | cleanup_socket =>
    obtain ⟨_, rfl⟩ := only_if_eq_some.mp hact
    exact ⟨⟨rfl, rfl, rfl⟩, rfl⟩
  | worker_process id client success_flag =>
    obtain ⟨_, rfl⟩ := only_if_eq_some.mp hact
    exact process_lists before id client success_flag
  | drain =>
    obtain ⟨_, rfl⟩ := only_if_eq_some.mp hact
    unfold State.drain
    split
    · exact hsilent rfl
    · exact hsilent rfl
  | worker_test id =>
    obtain ⟨_, rfl⟩ := only_if_eq_some.mp hact
    unfold test_stop
    split
    · exact hsilent rfl
    · exact hsilent rfl
  | signal_write =>
    obtain ⟨_, rfl⟩ := only_if_eq_some.mp hact
    obtain ⟨pipe_bytes, hwrite⟩ := ufh_signal_handler_write_eq before
    rw [hwrite]
    exact hsilent rfl
  | accept fd => cases haction
  | accept_add client => cases haction
  | visit client result => cases haction
  | enqueue client next_client target => cases haction
  | cleanup_action => cases haction
  | cleanup_com => cases haction
  | worker_take id => cases haction
  | worker_hand_back id client => cases haction
  | worker_close id client => cases haction
  | _ =>
    obtain ⟨_, rfl⟩ := only_if_eq_some.mp hact
    exact hsilent rfl

theorem hand_back_eq_close (hsignal : state.signal_flag = true) :
    state.hand_back id client =
      { state.set_worker id .relock with
        connector := state.connector.close_connection client, com_queue_lock := none } := by
  have hsignal' : (state.set_worker id .relock).signal_flag = true := hsignal
  simp only [State.hand_back, if_pos hsignal']
  rfl

/-- Without a stop signal the client goes back to `com_queue`. -/
theorem hand_back_connector (hsignal : state.signal_flag = false) :
    (state.hand_back id client).connector = state.connector.com_add_last client := by
  have hsignal' : ¬ (state.set_worker id .relock).signal_flag = true := by
    change ¬ state.signal_flag = true
    simp [hsignal]
  obtain ⟨pipe_bytes, hwakeup⟩ := wakeup_selector_eq
    { state.set_worker id .relock with connector := (state.set_worker id .relock).connector.com_add_last client }
  simp only [State.hand_back, if_neg hsignal', hwakeup]
  rfl

/-- The other steps leave the pool alone. Those of the signal handler leave the selector alone. -/
theorem act_off_pool (hact : before.act action = some after) (haction : action.on_pool = false) :
    after.workers = before.workers ∧ after.stop_workers = before.stop_workers ∧
      after.action_queue_lock = before.action_queue_lock ∧
      (action.by_selector = false → after.selector = before.selector) := by
  cases action with
  | accept fd =>
    obtain ⟨_, rfl⟩ := only_if_eq_some.mp hact
    unfold State.accept
    split
    · exact ⟨rfl, rfl, rfl, fun hselector => by cases hselector⟩
    · exact ⟨rfl, rfl, rfl, fun hselector => by cases hselector⟩
  | drain =>
    obtain ⟨_, rfl⟩ := only_if_eq_some.mp hact
    unfold State.drain
    split
    · exact ⟨rfl, rfl, rfl, fun hselector => by cases hselector⟩
    · exact ⟨rfl, rfl, rfl, fun hselector => by cases hselector⟩
  | visit client result =>
    obtain ⟨_, rfl⟩ := only_if_eq_some.mp hact
    by_cases hpipe : result = .broken_pipe
    · rw [State.visit, if_pos hpipe]
      exact ⟨rfl, rfl, rfl, fun hselector => by cases hselector⟩
    · rw [visit_eq hpipe]
      exact ⟨rfl, rfl, rfl, fun hselector => by cases hselector⟩
  | cleanup_com =>
    obtain ⟨_, rfl⟩ := only_if_eq_some.mp hact
    unfold State.cleanup_com
    split
    · exact ⟨rfl, rfl, rfl, fun hselector => by cases hselector⟩
    · exact ⟨rfl, rfl, rfl, fun hselector => by cases hselector⟩
  | signal =>
    obtain ⟨_, rfl⟩ := only_if_eq_some.mp hact
    exact ⟨rfl, rfl, rfl, fun _ => rfl⟩
  | signal_flag =>
    obtain ⟨_, rfl⟩ := only_if_eq_some.mp hact
    exact ⟨rfl, rfl, rfl, fun _ => rfl⟩
  | signal_write =>
    obtain ⟨_, rfl⟩ := only_if_eq_some.mp hact
    obtain ⟨pipe_bytes, hwrite⟩ := ufh_signal_handler_write_eq before
    rw [hwrite]
    exact ⟨rfl, rfl, rfl, fun _ => rfl⟩
  | worker_lock | worker_test | worker_take | worker_process | worker_hand_back_lock | worker_hand_back | worker_close
  | worker_relock | worker_wait | worker_wake | enqueue_lock | enqueue | cleanup_action_lock | cleanup_action
  | stop_lock | stop => cases haction
  | _ =>
    obtain ⟨_, rfl⟩ := only_if_eq_some.mp hact
    exact ⟨rfl, rfl, rfl, fun hselector => by cases hselector⟩

/-- A step of the selector takes it to one of the next positions. -/
theorem act_next (hact : before.act action = some after) (haction : action.by_selector = true) :
    before.selector.Next action after.selector := by
  have hafter : ∀ (position : SelectorPosition) (state : State Buf), position.Next action .drain →
      position.Next action .pass_lock → position.Next action state.after_accept := by
    intro position state hdrain hpass
    cases after_accept_cases state with
    | inl hnow => rwa [hnow]
    | inr hnow => rwa [hnow]
  cases action with
  | init socket_fd trigger_read trigger_write failed =>
    obtain ⟨⟨hposition, _⟩, rfl⟩ := only_if_eq_some.mp hact
    rw [hposition]
    cases failed with
    | true => exact .not_opened ..
    | false => exact .opened ..
  | enable_wakeup =>
    obtain ⟨⟨hposition, _⟩, rfl⟩ := only_if_eq_some.mp hact
    exact hposition ▸ .enabled
  | test_signal =>
    obtain ⟨⟨hposition, _⟩, rfl⟩ := only_if_eq_some.mp hact
    rw [hposition]
    cases before.signal_flag with
    | true => exact .signaled
    | false => exact .not_signaled
  | build_lock =>
    obtain ⟨⟨hposition, _⟩, rfl⟩ := only_if_eq_some.mp hact
    exact hposition ▸ .build_locked
  | build =>
    obtain ⟨hposition, rfl⟩ := only_if_eq_some.mp hact
    rw [hposition]
    cases build_selector before with
    | inl hnow => rw [hnow]; exact .not_built
    | inr hnow => rw [hnow]; exact .built
  | select ready_read ready_write =>
    obtain ⟨⟨hposition, _⟩, rfl⟩ := only_if_eq_some.mp hact
    rw [hposition]
    obtain hnow | hnow | hnow := select_selector before ready_read ready_write
    · rw [hnow]
      exact .connection_ready ..
    · rw [hnow]
      exact .trigger_ready ..
    · rw [hnow]
      exact .clients_ready ..
  | select_interrupted =>
    obtain ⟨hposition, rfl⟩ := only_if_eq_some.mp hact
    exact hposition ▸ .interrupted
  | select_failed =>
    obtain ⟨hposition, rfl⟩ := only_if_eq_some.mp hact
    exact hposition ▸ .failed
  | accept fd =>
    obtain ⟨⟨hposition, _⟩, rfl⟩ := only_if_eq_some.mp hact
    rw [hposition]
    unfold State.accept
    split
    · exact .accepted ..
    · exact hafter .accept before (.not_accepted fd) (.not_accepted_pass fd)
  | accept_lock client =>
    obtain ⟨⟨hposition, _⟩, rfl⟩ := only_if_eq_some.mp hact
    exact hposition ▸ .accept_locked client
  | accept_add client =>
    obtain ⟨hposition, rfl⟩ := only_if_eq_some.mp hact
    rw [hposition]
    exact hafter (.accept_add client) before (.added client) (.added_pass client)
  | drain =>
    obtain ⟨hposition, rfl⟩ := only_if_eq_some.mp hact
    unfold State.drain
    split
    · rw [hposition]
      exact .draining
    · exact hposition ▸ .drained
  | pass_lock =>
    obtain ⟨⟨hposition, _⟩, rfl⟩ := only_if_eq_some.mp hact
    exact hposition ▸ .pass_locked
  | pass_first =>
    obtain ⟨hposition, rfl⟩ := only_if_eq_some.mp hact
    exact hposition ▸ .first _
  | visit client result =>
    obtain ⟨⟨hposition, _⟩, rfl⟩ := only_if_eq_some.mp hact
    by_cases hpipe : result = .broken_pipe
    · simp only [State.visit, if_pos hpipe, hposition]
      exact .killed ..
    · rw [visit_eq hpipe, hposition]
      simp only
      split
      · exact .completed ..
      · exact .visited ..
  | pass_end =>
    obtain ⟨hposition, rfl⟩ := only_if_eq_some.mp hact
    exact hposition ▸ .passed
  | enqueue_lock client next_client =>
    obtain ⟨⟨hposition, _⟩, rfl⟩ := only_if_eq_some.mp hact
    exact hposition ▸ .enqueue_locked client next_client
  | enqueue client next_client target =>
    obtain ⟨⟨hposition, _⟩, rfl⟩ := only_if_eq_some.mp hact
    rw [hposition]
    exact .enqueued client next_client target
  | cleanup_socket =>
    obtain ⟨hposition, rfl⟩ := only_if_eq_some.mp hact
    exact hposition ▸ .socket_closed
  | cleanup_action_lock =>
    obtain ⟨⟨hposition, _⟩, rfl⟩ := only_if_eq_some.mp hact
    exact hposition ▸ .action_locked
  | cleanup_action =>
    obtain ⟨hposition, rfl⟩ := only_if_eq_some.mp hact
    unfold State.cleanup_action
    split
    · rw [hposition]
      exact .action_closed
    · exact hposition ▸ .action_emptied
  | cleanup_com_lock =>
    obtain ⟨⟨hposition, _⟩, rfl⟩ := only_if_eq_some.mp hact
    exact hposition ▸ .com_locked
  | cleanup_disable =>
    obtain ⟨⟨hposition, _⟩, rfl⟩ := only_if_eq_some.mp hact
    exact hposition ▸ .disabled
  | cleanup_signal =>
    obtain ⟨⟨hposition, _⟩, rfl⟩ := only_if_eq_some.mp hact
    exact hposition ▸ .signal_sent
  | cleanup_com =>
    obtain ⟨hposition, rfl⟩ := only_if_eq_some.mp hact
    unfold State.cleanup_com
    split
    · rw [hposition]
      exact .com_closed
    · exact hposition ▸ .com_emptied
  | stop_lock =>
    obtain ⟨⟨hposition, _⟩, rfl⟩ := only_if_eq_some.mp hact
    exact hposition ▸ .stop_locked
  | stop =>
    obtain ⟨hposition, rfl⟩ := only_if_eq_some.mp hact
    exact hposition ▸ .stopped
  | join =>
    obtain ⟨⟨hposition, _⟩, rfl⟩ := only_if_eq_some.mp hact
    exact hposition ▸ .joined
  | _ => cases haction

/-- The client object that a step may change. -/
def served_client (state : State Buf) : Action → Option ClientPtr
  | .accept _ => state.connector.client_pool.allocate.map Prod.fst
  | .visit client _ => some client
  | .cleanup_action => state.connector.action_queue.head_node
  | .cleanup_com => state.connector.com_queue.head_node
  | .worker_take _ => state.connector.action_queue.head_node
  | .worker_process _ client _ => some client
  | .worker_hand_back _ client => some client
  | .worker_close _ client => some client
  | _ => none

theorem accept_clients (state : State Buf) (fd : Int) {other : ClientPtr}
    (hother : state.served_client (.accept fd) ≠ some other) :
    (state.accept fd).connector.clients other = state.connector.clients other := by
  unfold State.accept Connector.accept
  cases hallocate : state.connector.client_pool.allocate with
  | none => rfl
  | some allocated =>
    have hne : other ≠ allocated.1 := by
      intro heq
      exact hother (by rw [heq, served_client, hallocate]; rfl)
    exact Function.update_of_ne hne _ _

theorem process_clients (state : State Buf) (id : WorkerId) {client other : ClientPtr} (success_flag : Bool)
    (hother : other ≠ client) :
    (state.process id client success_flag).connector.clients other = state.connector.clients other := by
  rw [process_connector]
  exact Function.update_of_ne hother _ _

/-- A step leaves all other client objects as they are. -/
theorem act_clients {place : ClientPtr → Place} {stamp : ClientPtr → Nat} {strict : Prop}
    [LawfulCharBuffer Buf] (h : Invariant strict before place stamp) (hact : before.act action = some after)
    {other : ClientPtr} (hother : before.served_client action ≠ some other) :
    after.connector.clients other = before.connector.clients other := by
  have hne : ∀ client, before.served_client action = some client → other ≠ client := by
    rintro client hserved rfl
    exact hother hserved
  cases action with
  | accept fd =>
    obtain ⟨_, rfl⟩ := only_if_eq_some.mp hact
    exact accept_clients before fd hother
  | visit client result =>
    obtain ⟨_, rfl⟩ := only_if_eq_some.mp hact
    by_cases hpipe : result = .broken_pipe
    · simp only [State.visit, if_pos hpipe]
    · rw [visit_eq hpipe]
      exact (affects_perform_io _ _ _ client result).others other (hne client rfl)
  | enqueue client next_client target =>
    obtain ⟨_, rfl⟩ := only_if_eq_some.mp hact
    cases target with
    | none => rfl
    | some id => rfl
  | cleanup_action =>
    obtain ⟨_, rfl⟩ := only_if_eq_some.mp hact
    obtain ⟨_, hnone⟩ | ⟨client, hhead, _, hfirst, _⟩ := h.consistent.action_remove_first .selector
    · simp only [State.cleanup_action, hnone]
    · rw [cleanup_action_eq hfirst]
      exact (affects_close_connection _ client).others other (hne client hhead)
  | cleanup_com =>
    obtain ⟨_, rfl⟩ := only_if_eq_some.mp hact
    obtain ⟨_, hnone⟩ | ⟨client, hhead, _, hfirst, _⟩ := h.consistent.com_remove_first .selector
    · rw [cleanup_com_empty hnone]
    · rw [cleanup_com_eq hfirst]
      exact (affects_close_connection _ client).others other (hne client hhead)
  | worker_take id =>
    obtain ⟨_, rfl⟩ := only_if_eq_some.mp hact
    obtain ⟨_, hnone⟩ | ⟨client, hhead, _, hfirst, haffects, _⟩ := h.consistent.take_action (.worker id)
    · simp only [State.take, hnone, set_worker]
    · rw [take_eq hfirst]
      exact haffects.others other (hne client hhead)
  | worker_process id client success_flag =>
    obtain ⟨_, rfl⟩ := only_if_eq_some.mp hact
    exact process_clients before id success_flag (hne client rfl)
  | worker_hand_back id client =>
    obtain ⟨_, rfl⟩ := only_if_eq_some.mp hact
    cases hsignal : before.signal_flag with
    | true =>
      rw [hand_back_eq_close hsignal]
      exact (affects_close_connection _ client).others other (hne client rfl)
    | false =>
      rw [hand_back_connector hsignal]
      rfl
  | worker_close id client =>
    obtain ⟨_, rfl⟩ := only_if_eq_some.mp hact
    exact (affects_close_connection _ client).others other (hne client rfl)
  | drain =>
    obtain ⟨_, rfl⟩ := only_if_eq_some.mp hact
    unfold State.drain
    split
    · rfl
    · rfl
  | worker_test id =>
    obtain ⟨_, rfl⟩ := only_if_eq_some.mp hact
    unfold test_stop
    split
    · rfl
    · rfl
  | signal_write =>
    obtain ⟨_, rfl⟩ := only_if_eq_some.mp hact
    obtain ⟨pipe_bytes, hwrite⟩ := ufh_signal_handler_write_eq before
    rw [hwrite]
  | _ =>
    obtain ⟨_, rfl⟩ := only_if_eq_some.mp hact
    rfl

end State

end ufh
