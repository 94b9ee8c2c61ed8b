import UniversalFencingHub.Threads.Wakeup

namespace ufh

/-- The steps that open or close the connector's own descriptors. -/
def Action.on_own_fds : Action → Bool
  | .init _ _ _ _ => true
  | .cleanup_socket => true
  | .cleanup_com => true
  | _ => false

/-- The worker that takes a step. -/
def Action.worker : Action → Option WorkerId
  | .worker_lock id => some id
  | .worker_test id => some id
  | .worker_take id => some id
  | .worker_process id _ _ => some id
  | .worker_hand_back_lock id _ => some id
  | .worker_hand_back id _ => some id
  | .worker_close id _ => some id
  | .worker_relock id => some id
  | .worker_wait id => some id
  | .worker_wake id => some id
  | _ => none

namespace State

variable {Buf : Type} [CharBuffer Buf] {before after : State Buf} {action : Action} {id : WorkerId}

/-- What a step does with the connector. -/
inductive Operates (state : State Buf) : Action → Connector Buf → Prop where
  | silent (action : Action) : Operates state action state.connector
  | opened (socket_fd trigger_read trigger_write : Int) (failed : Bool)
    (hpossible : state.init_possible socket_fd trigger_read trigger_write failed) :
    Operates state (.init socket_fd trigger_read trigger_write failed)
      (state.init socket_fd trigger_read trigger_write failed).connector
  | socket_closed : Operates state .cleanup_socket (state.close_own state.socket_fd).connector
  | pipe_closed :
    Operates state .cleanup_com ((state.close_own state.trigger_read).close_own state.trigger_write).connector
  | accepted (fd : Int) (client : ClientPtr) (connector : Connector Buf) (hpossible : state.accept_possible fd)
    (haccept : state.connector.accept fd = some (client, connector)) : Operates state (.accept fd) connector
  | added (client : ClientPtr) : Operates state (.accept_add client) (state.connector.com_add_last client)
  | visited (client : ClientPtr) (result : IoResult) (hpipe : result ≠ .broken_pipe) :
    Operates state (.visit client result)
      (state.connector.perform_io state.read_fd_set state.write_fd_set client result).1
  | enqueued (client : ClientPtr) (next_client : Option ClientPtr) (target : Option WorkerId) :
    Operates state (.enqueue client next_client target) (state.connector.action_add_last client)
  | pending_closed (client : ClientPtr) (hfirst : state.connector.action_remove_first.1 = some client) :
    Operates state .cleanup_action (state.connector.action_remove_first.2.close_connection client)
  | queued_closed (client : ClientPtr) (hfirst : state.connector.com_remove_first.1 = some client) :
    Operates state .cleanup_com (state.connector.com_remove_first.2.close_connection client)
  | taken (id : WorkerId) : Operates state (.worker_take id) state.connector.take_action.2
  | processed (id : WorkerId) (client : ClientPtr) (success_flag : Bool) :
    Operates state (.worker_process id client success_flag) (state.connector.process client success_flag).1
  | handed_back (id : WorkerId) (client : ClientPtr) :
    Operates state (.worker_hand_back id client) (state.connector.com_add_last client)
  | dismissed (id : WorkerId) (client : ClientPtr) :
    Operates state (.worker_hand_back id client) (state.connector.close_connection client)
  | closed (id : WorkerId) (client : ClientPtr) :
    Operates state (.worker_close id client) (state.connector.close_connection client)

omit [CharBuffer Buf] in
theorem action_remove_first_none {connector : Connector Buf} (hnone : connector.action_remove_first.1 = none) :
    connector.action_remove_first.2 = connector := by
  cases hhead : connector.action_queue.head_node with
  | none => simp only [Connector.action_remove_first, Queue.remove_first_empty hhead]
  | some client =>
    simp only [Connector.action_remove_first, Queue.remove_first, hhead] at hnone
    cases hnone

omit [CharBuffer Buf] in
theorem com_remove_first_none {connector : Connector Buf} (hnone : connector.com_remove_first.1 = none) :
    connector.com_remove_first.2 = connector := by
  cases hhead : connector.com_queue.head_node with
  | none => simp only [Connector.com_remove_first, Queue.remove_first_empty hhead]
  | some client =>
    simp only [Connector.com_remove_first, Queue.remove_first, hhead] at hnone
    cases hnone

theorem accept_open_fds {connector accepted : Connector Buf} {fd : Int} {client : ClientPtr}
    (haccept : connector.accept fd = some (client, accepted)) :
    accepted.open_fds = if 0 ≤ fd then fd :: connector.open_fds else connector.open_fds := by
  unfold Connector.accept at haccept
  split at haccept
  · cases haccept
  · obtain ⟨_, rfl⟩ := Prod.mk.inj (Option.some.inj haccept)
    rfl

/-- Every step is one of the operations. -/
theorem act_operates (hact : before.act action = some after) : before.Operates action after.connector := by
  cases action with
  | init socket_fd trigger_read trigger_write failed =>
    obtain ⟨⟨_, hpossible⟩, rfl⟩ := only_if_eq_some.mp hact
    exact .opened socket_fd trigger_read trigger_write failed hpossible
  | cleanup_socket =>
    obtain ⟨_, rfl⟩ := only_if_eq_some.mp hact
    exact .socket_closed
  | accept fd =>
    obtain ⟨⟨_, hpossible⟩, rfl⟩ := only_if_eq_some.mp hact
    unfold State.accept
    cases haccept : before.connector.accept fd with
    | none => exact .silent _
    | some accepted => exact .accepted fd accepted.1 accepted.2 hpossible haccept
  | accept_add client =>
    obtain ⟨_, rfl⟩ := only_if_eq_some.mp hact
    exact .added client
  | visit client result =>
    obtain ⟨_, rfl⟩ := only_if_eq_some.mp hact
    by_cases hpipe : result = .broken_pipe
    · rw [State.visit, if_pos hpipe]
      exact .silent _
    · rw [visit_eq hpipe]
      exact .visited client result hpipe
  | enqueue client next_client target =>
    obtain ⟨_, rfl⟩ := only_if_eq_some.mp hact
    cases target with
    | none => exact .enqueued client next_client none
    | some id => exact .enqueued client next_client (some id)
  | cleanup_action =>
    obtain ⟨_, rfl⟩ := only_if_eq_some.mp hact
    cases hfirst : before.connector.action_remove_first.1 with
    | some client =>
      rw [cleanup_action_eq hfirst]
      exact .pending_closed client hfirst
    | none =>
      have hempty : before.connector.action_remove_first = (none, before.connector) :=
        Prod.ext hfirst (action_remove_first_none hfirst)
      simp only [State.cleanup_action, hempty]
      exact .silent _
  | cleanup_com =>
    obtain ⟨_, rfl⟩ := only_if_eq_some.mp hact
    cases hfirst : before.connector.com_remove_first.1 with
    | some client =>
      rw [cleanup_com_eq hfirst]
      exact .queued_closed client hfirst
    | none =>
      rw [cleanup_com_empty (Prod.ext hfirst (com_remove_first_none hfirst))]
      exact .pipe_closed
  | worker_take id =>
    obtain ⟨_, rfl⟩ := only_if_eq_some.mp hact
    rw [take_connector]
    exact .taken id
  | worker_process id client success_flag =>
    obtain ⟨_, rfl⟩ := only_if_eq_some.mp hact
    rw [process_connector]
    exact .processed id client success_flag
  | worker_hand_back id client =>
    obtain ⟨_, rfl⟩ := only_if_eq_some.mp hact
    cases hsignal : before.signal_flag with
    | true =>
      rw [hand_back_eq_close hsignal]
      exact .dismissed id client
    | false =>
      rw [hand_back_connector hsignal]
      exact .handed_back id client
  | worker_close id client =>
    obtain ⟨_, rfl⟩ := only_if_eq_some.mp hact
    exact .closed id client
  | drain =>
    obtain ⟨_, rfl⟩ := only_if_eq_some.mp hact
    unfold State.drain
    split
    · exact .silent _
    · exact .silent _
  | worker_test id =>
    obtain ⟨_, rfl⟩ := only_if_eq_some.mp hact
    unfold test_stop
    split
    · exact .silent _
    · exact .silent _
  | signal_write =>
    obtain ⟨_, rfl⟩ := only_if_eq_some.mp hact
    obtain ⟨pipe_bytes, hwrite⟩ := ufh_signal_handler_write_eq before
    rw [hwrite]
    exact .silent _
  | _ =>
    obtain ⟨_, rfl⟩ := only_if_eq_some.mp hact
    exact .silent _

/-- A step begins a connection, or leaves the descriptors of the connections alone. -/
theorem act_sockets (hact : before.act action = some after) :
    SameSockets before.connector after.connector ∨
      ∃ fd client, action = .accept fd ∧ before.connector.accept fd = some (client, after.connector) := by
  have hoperates := act_operates hact
  generalize after.connector = connector at hoperates ⊢
  cases hoperates with
  | accepted fd client accepted _ haccept => exact Or.inr ⟨fd, client, rfl, haccept⟩
  | visited client result _ => exact Or.inl same_sockets_perform_io
  | pending_closed client _ =>
    have hfirst : SameSockets before.connector before.connector.action_remove_first.2 := .of_eq rfl rfl rfl
    exact Or.inl (hfirst.trans (same_sockets_close_connection _ client))
  | queued_closed client _ =>
    have hfirst : SameSockets before.connector before.connector.com_remove_first.2 := .of_eq rfl rfl rfl
    exact Or.inl (hfirst.trans (same_sockets_close_connection _ client))
  | taken id => exact Or.inl same_sockets_take_action
  | processed id client success_flag => exact Or.inl (.of_update rfl rfl rfl rfl)
  | dismissed id client => exact Or.inl (same_sockets_close_connection _ client)
  | closed id client => exact Or.inl (same_sockets_close_connection _ client)
  | _ => exact Or.inl (.of_eq rfl rfl rfl)

theorem act_own_fds (hact : before.act action = some after) (hother : action.on_own_fds = false) :
    after.own_fds = before.own_fds := by
  cases haction : action.by_selector with
  | false => exact (act_aside hact haction).own_fds
  | true =>
    cases action with
    | cleanup_action =>
      obtain ⟨_, rfl⟩ := only_if_eq_some.mp hact
      unfold State.cleanup_action
      split
      · rfl
      · rfl
    | accept fd =>
      obtain ⟨_, rfl⟩ := only_if_eq_some.mp hact
      unfold State.accept
      split
      · rfl
      · rfl
    | visit client result =>
      obtain ⟨_, rfl⟩ := only_if_eq_some.mp hact
      unfold State.visit
      split
      · rfl
      · rfl
    | drain =>
      obtain ⟨_, rfl⟩ := only_if_eq_some.mp hact
      unfold State.drain
      split
      · rfl
      · rfl
    | enqueue client next_client target =>
      obtain ⟨_, rfl⟩ := only_if_eq_some.mp hact
      cases target with
      | none => rfl
      | some id => rfl
    | init socket_fd trigger_read trigger_write failed => cases hother
    | cleanup_socket => cases hother
    | cleanup_com => cases hother
    | _ =>
      first
      | obtain ⟨_, rfl⟩ := only_if_eq_some.mp hact
        rfl
      | cases haction

/-- The other steps close no descriptors but those of clients. -/
theorem act_keeps_open (hact : before.act action = some after) (hother : action.on_own_fds = false) :
    KeepsOpen before.connector after.connector := by
  have hoperates := act_operates hact
  generalize after.connector = connector at hoperates ⊢
  cases hoperates with
  | opened => cases hother
  | socket_closed => cases hother
  | pipe_closed => cases hother
  | queued_closed => cases hother
  | accepted fd client accepted _ haccept =>
    intro own hown _
    rw [accept_open_fds haccept]
    split
    · exact List.mem_cons_of_mem _ hown
    · exact hown
  | visited client result _ => exact (affects_perform_io ..).keeps_open
  | pending_closed client _ =>
    have hclosed := affects_close_connection before.connector.action_remove_first.2 client
    exact hclosed.keeps_open
  | taken id => exact .of_eq (take_action_kept before.connector).1
  | dismissed id client => exact (affects_close_connection _ client).keeps_open
  | closed id client => exact (affects_close_connection _ client).keeps_open
  | _ => exact .of_eq rfl

/-- The step of a worker moves this worker only. It is not a step of a thread that has ended, and a
worker that processes a message goes on with the end of `process_client_message`. -/
theorem act_worker (hact : before.act action = some after) (hworker : action.worker = some id) :
    (∃ position, after.workers = Function.update before.workers id position) ∧ before.workers id ≠ .exited ∧
      ∀ client, before.workers id = .process client →
      ∃ success_flag, action = .worker_process id client success_flag := by
  cases action with
  | worker_lock other =>
    obtain rfl := Option.some.inj hworker
    obtain ⟨⟨hposition, _⟩, rfl⟩ := only_if_eq_some.mp hact
    exact ⟨⟨_, rfl⟩, by simp [hposition], by simp [hposition]⟩
  | worker_test other =>
    obtain rfl := Option.some.inj hworker
    obtain ⟨hposition, rfl⟩ := only_if_eq_some.mp hact
    refine ⟨?_, by simp [hposition], by simp [hposition]⟩
    unfold State.test_stop
    split
    · exact ⟨_, rfl⟩
    · exact ⟨_, rfl⟩
  | worker_take other =>
    obtain rfl := Option.some.inj hworker
    obtain ⟨hposition, rfl⟩ := only_if_eq_some.mp hact
    refine ⟨?_, by simp [hposition], by simp [hposition]⟩
    unfold State.take
    split
    · exact ⟨_, rfl⟩
    · exact ⟨_, rfl⟩
  | worker_process other client success_flag =>
    obtain rfl := Option.some.inj hworker
    obtain ⟨hposition, rfl⟩ := only_if_eq_some.mp hact
    refine ⟨?_, by simp [hposition], fun held hheld => ?_⟩
    · unfold State.process
      simp only
      split
      · exact ⟨_, rfl⟩
      · exact ⟨_, rfl⟩
    · rw [hposition] at hheld
      cases hheld
      exact ⟨success_flag, rfl⟩
  | worker_hand_back_lock other client =>
    obtain rfl := Option.some.inj hworker
    obtain ⟨⟨hposition, _⟩, rfl⟩ := only_if_eq_some.mp hact
    exact ⟨⟨_, rfl⟩, by simp [hposition], by simp [hposition]⟩
  | worker_hand_back other client =>
    obtain rfl := Option.some.inj hworker
    obtain ⟨⟨hposition, _⟩, rfl⟩ := only_if_eq_some.mp hact
    refine ⟨?_, by simp [hposition], by simp [hposition]⟩
    unfold State.hand_back State.wakeup_selector
    simp only
    split
    · exact ⟨_, rfl⟩
    · split
      · exact ⟨_, rfl⟩
      · exact ⟨_, rfl⟩
  | worker_close other client =>
    obtain rfl := Option.some.inj hworker
    obtain ⟨hposition, rfl⟩ := only_if_eq_some.mp hact
    exact ⟨⟨_, rfl⟩, by simp [hposition], by simp [hposition]⟩
  | worker_relock other =>
    obtain rfl := Option.some.inj hworker
    obtain ⟨⟨hposition, _⟩, rfl⟩ := only_if_eq_some.mp hact
    exact ⟨⟨_, rfl⟩, by simp [hposition], by simp [hposition]⟩
  | worker_wait other =>
    obtain rfl := Option.some.inj hworker
    obtain ⟨hposition | hposition, rfl⟩ := only_if_eq_some.mp hact
    · exact ⟨⟨_, rfl⟩, by simp [hposition], by simp [hposition]⟩
    · exact ⟨⟨_, rfl⟩, by simp [hposition], by simp [hposition]⟩
  | worker_wake other =>
    obtain rfl := Option.some.inj hworker
    obtain ⟨hposition, rfl⟩ := only_if_eq_some.mp hact
    exact ⟨⟨_, rfl⟩, by simp [hposition], by simp [hposition]⟩
  | _ => cases hworker

/-- A step that no worker takes leaves the workers alone, or wakes up workers that are asleep. -/
theorem act_workers (hact : before.act action = some after) (hother : action.worker = none) (id : WorkerId) :
    after.workers id = before.workers id ∨ before.workers id = .asleep := by
  cases action with
  | enqueue client next_client target =>
    obtain ⟨⟨_, hpossible⟩, rfl⟩ := only_if_eq_some.mp hact
    cases target with
    | none => exact Or.inl rfl
    | some woken =>
      by_cases hsame : id = woken
      · exact Or.inr (hsame ▸ hpossible)
      · exact Or.inl (Function.update_of_ne hsame _ _)
  | stop =>
    obtain ⟨_, rfl⟩ := only_if_eq_some.mp hact
    by_cases hasleep : before.workers id = .asleep
    · exact Or.inr hasleep
    · exact Or.inl (if_neg hasleep)
  | accept fd =>
    obtain ⟨_, rfl⟩ := only_if_eq_some.mp hact
    unfold State.accept
    split
    · exact Or.inl rfl
    · exact Or.inl rfl
  | drain =>
    obtain ⟨_, rfl⟩ := only_if_eq_some.mp hact
    unfold State.drain
    split
    · exact Or.inl rfl
    · exact Or.inl rfl
  | visit client result =>
    obtain ⟨_, rfl⟩ := only_if_eq_some.mp hact
    unfold State.visit
    simp only
    split
    · exact Or.inl rfl
    · exact Or.inl rfl
  | cleanup_action =>
    obtain ⟨_, rfl⟩ := only_if_eq_some.mp hact
    unfold State.cleanup_action
    split
    · exact Or.inl rfl
    · exact Or.inl rfl
  | cleanup_com =>
    obtain ⟨_, rfl⟩ := only_if_eq_some.mp hact
    unfold State.cleanup_com
    split
    · exact Or.inl rfl
    · exact Or.inl rfl
  | signal_write =>
    obtain ⟨_, rfl⟩ := only_if_eq_some.mp hact
    unfold State.ufh_signal_handler_write
    simp only
    split
    · exact Or.inl rfl
    · exact Or.inl rfl
  | worker_lock other => cases hother
  | worker_test other => cases hother
  | worker_take other => cases hother
  | worker_process other client success_flag => cases hother
  | worker_hand_back_lock other client => cases hother
  | worker_hand_back other client => cases hother
  | worker_close other client => cases hother
  | worker_relock other => cases hother
  | worker_wait other => cases hother
  | worker_wake other => cases hother
  | _ =>
    obtain ⟨_, rfl⟩ := only_if_eq_some.mp hact
    exact Or.inl rfl

end State

end ufh
