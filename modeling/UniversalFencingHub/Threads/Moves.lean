import UniversalFencingHub.Threads.Operations

namespace ufh

/-- Where a step takes the worker that takes it. -/
inductive WorkerPosition.Next (id : WorkerId) : WorkerPosition → Action → WorkerPosition → Prop where
  | locked : Next id .locking (.worker_lock id) .loop
  | stopped : Next id .loop (.worker_test id) .exited
  | not_stopped : Next id .loop (.worker_test id) .take
  | taken (client : ClientPtr) : Next id .take (.worker_take id) (.process client)
  | found_empty : Next id .take (.worker_take id) .returned
  | raised (client : ClientPtr) (success_flag : Bool) :
    Next id (.process client) (.worker_process id client success_flag) .raised
  | answered (client : ClientPtr) (success_flag : Bool) :
    Next id (.process client) (.worker_process id client success_flag) (.hand_back_lock client)
  | ended (client : ClientPtr) (success_flag : Bool) :
    Next id (.process client) (.worker_process id client success_flag) (.close client)
  | com_locked (client : ClientPtr) :
    Next id (.hand_back_lock client) (.worker_hand_back_lock id client) (.hand_back client)
  | handed_back (client : ClientPtr) : Next id (.hand_back client) (.worker_hand_back id client) .relock
  | closed (client : ClientPtr) : Next id (.close client) (.worker_close id client) .relock
  | relocked : Next id .relock (.worker_relock id) .take
  | waits : Next id .returned (.worker_wait id) .asleep
  | exits : Next id .returned (.worker_wait id) .exited
  | raised_waits : Next id .raised (.worker_wait id) .asleep
  | raised_exits : Next id .raised (.worker_wait id) .exited
  | woken : Next id .asleep (.worker_wake id) .locking

/-- The steps that come from outside: signals, wakeups without a cause, and results of
`select()` that report no descriptor. -/
def Action.outside : Action → Bool
  | .signal => true
  | .worker_wake _ => true
  | .select_interrupted => true
  | .select_failed => true
  | _ => false

/-- The steps that lock or unlock `com_queue_lock`. -/
def Action.on_com_lock : Action → Bool
  | .build_lock => true
  | .build => true
  | .accept_lock _ => true
  | .accept_add _ => true
  | .pass_lock => true
  | .pass_end => true
  | .cleanup_com_lock => true
  | .cleanup_com => true
  | .worker_hand_back_lock _ _ => true
  | .worker_hand_back _ _ => true
  | _ => false

/-- The steps that lock or unlock `action_queue_lock`. -/
def Action.on_action_lock : Action → Bool
  | .enqueue_lock _ _ => true
  | .enqueue _ _ _ => true
  | .cleanup_action_lock => true
  | .cleanup_action => true
  | .stop_lock => true
  | .stop => true
  | .worker_lock _ => true
  | .worker_test _ => true
  | .worker_take _ => true
  | .worker_relock _ => true
  | .worker_wait _ => true
  | _ => false

namespace State

variable {Buf : Type} [CharBuffer Buf] {before after : State Buf} {action : Action} {id : WorkerId}
  {client : ClientPtr}

/-- What a worker does in its step. -/
structure WorkerMoves (before after : State Buf) (action : Action) (id : WorkerId) : Prop where
  next : (before.workers id).Next id action (after.workers id)
  workers : after.workers = Function.update before.workers id (after.workers id)
  stop_workers : after.stop_workers = before.stop_workers
  handler : after.handler = before.handler
  terminated : after.terminated = before.terminated

omit [CharBuffer Buf] in
theorem WorkerMoves.of_update {position next : WorkerPosition} (hposition : before.workers id = position)
    (hnext : position.Next id action next) (hworkers : after.workers = Function.update before.workers id next)
    (hstop : after.stop_workers = before.stop_workers) (hhandler : after.handler = before.handler)
    (hterminated : after.terminated = before.terminated) : WorkerMoves before after action id := by
  have hmoved : after.workers id = next := by rw [hworkers, Function.update_self]
  exact ⟨by rwa [hposition, hmoved], by rw [hmoved]; exact hworkers, hstop, hhandler, hterminated⟩

omit [CharBuffer Buf] in
theorem worker_moves_take (state : State Buf) (hposition : state.workers id = .take) :
    WorkerMoves state (state.take id) (.worker_take id) id := by
  unfold State.take
  split
  · exact .of_update hposition (.taken _) rfl rfl rfl rfl
  · exact .of_update hposition .found_empty rfl rfl rfl rfl

theorem worker_moves_process (state : State Buf) (hposition : state.workers id = .process client)
    (success_flag : Bool) :
    WorkerMoves state (state.process id client success_flag) (.worker_process id client success_flag) id := by
  unfold State.process
  simp only
  split
  · exact .of_update hposition (.raised client success_flag) rfl rfl rfl rfl
  · split
    · exact .of_update hposition (.answered client success_flag) rfl rfl rfl rfl
    · exact .of_update hposition (.ended client success_flag) rfl rfl rfl rfl

theorem worker_moves_hand_back (state : State Buf) (hposition : state.workers id = .hand_back client) :
    WorkerMoves state (state.hand_back id client) (.worker_hand_back id client) id := by
  unfold State.hand_back
  simp only
  split
  · exact .of_update hposition (.handed_back client) rfl rfl rfl rfl
  · obtain ⟨pipe_bytes, hwakeup⟩ := wakeup_selector_eq
      { state.set_worker id .relock with connector := (state.set_worker id .relock).connector.com_add_last client }
    rw [hwakeup]
    exact .of_update hposition (.handed_back client) rfl rfl rfl rfl

omit [CharBuffer Buf] in
theorem worker_moves_wait (state : State Buf) (hposition : state.workers id = .returned ∨ state.workers id = .raised) :
    WorkerMoves state (state.wait_or_exit id) (.worker_wait id) id := by
  unfold wait_or_exit
  cases hposition with
  | inl hposition =>
    cases state.stop_workers with
    | false => exact .of_update hposition .waits rfl rfl rfl rfl
    | true => exact .of_update hposition .exits rfl rfl rfl rfl
  | inr hposition =>
    cases state.stop_workers with
    | false => exact .of_update hposition .raised_waits rfl rfl rfl rfl
    | true => exact .of_update hposition .raised_exits rfl rfl rfl rfl

/-- A step of a worker takes it to one of the next positions. -/
theorem act_worker_moves (hact : before.act action = some after) (hworker : action.worker = some id) :
    WorkerMoves before after action id := by
  cases action with
  | worker_lock other =>
    obtain rfl := Option.some.inj hworker
    obtain ⟨⟨hposition, _⟩, rfl⟩ := only_if_eq_some.mp hact
    exact .of_update hposition .locked rfl rfl rfl rfl
  | worker_test other =>
    obtain rfl := Option.some.inj hworker
    obtain ⟨hposition, rfl⟩ := only_if_eq_some.mp hact
    unfold State.test_stop
    split
    · exact .of_update hposition .stopped rfl rfl rfl rfl
    · exact .of_update hposition .not_stopped rfl rfl rfl rfl
  | worker_take other =>
    obtain rfl := Option.some.inj hworker
    obtain ⟨hposition, rfl⟩ := only_if_eq_some.mp hact
    exact worker_moves_take before hposition
  | worker_process other client success_flag =>
    obtain rfl := Option.some.inj hworker
    obtain ⟨hposition, rfl⟩ := only_if_eq_some.mp hact
    exact worker_moves_process before hposition success_flag
  | worker_hand_back_lock other client =>
    obtain rfl := Option.some.inj hworker
    obtain ⟨⟨hposition, _⟩, rfl⟩ := only_if_eq_some.mp hact
    exact .of_update hposition (.com_locked client) rfl rfl rfl rfl
  | worker_hand_back other client =>
    obtain rfl := Option.some.inj hworker
    obtain ⟨⟨hposition, _⟩, rfl⟩ := only_if_eq_some.mp hact
    exact worker_moves_hand_back before hposition
  | worker_close other client =>
    obtain rfl := Option.some.inj hworker
    obtain ⟨hposition, rfl⟩ := only_if_eq_some.mp hact
    exact .of_update hposition (.closed client) rfl rfl rfl rfl
  | worker_relock other =>
    obtain rfl := Option.some.inj hworker
    obtain ⟨⟨hposition, _⟩, rfl⟩ := only_if_eq_some.mp hact
    exact .of_update hposition .relocked rfl rfl rfl rfl
  | worker_wait other =>
    obtain rfl := Option.some.inj hworker
    obtain ⟨hposition, rfl⟩ := only_if_eq_some.mp hact
    exact worker_moves_wait before hposition
  | worker_wake other =>
    obtain rfl := Option.some.inj hworker
    obtain ⟨hposition, rfl⟩ := only_if_eq_some.mp hact
    exact .of_update hposition .woken rfl rfl rfl rfl
  | _ => cases hworker

/-- A step that no worker takes moves no worker but those that it wakes up. -/
theorem act_workers_woken (hact : before.act action = some after) (hother : action.worker = none) (id : WorkerId) :
    after.workers id = before.workers id ∨ before.workers id = .asleep ∧ after.workers id = .locking := by
  cases hpool : action.on_pool with
  | false => exact Or.inl (congrFun (act_off_pool hact hpool).1 id)
  | true =>
    cases action with
    | enqueue client next_client target =>
      obtain ⟨⟨_, hpossible⟩, rfl⟩ := only_if_eq_some.mp hact
      cases target with
      | none => exact Or.inl rfl
      | some woken =>
        by_cases hsame : id = woken
        · subst hsame
          exact Or.inr ⟨hpossible, Function.update_self ..⟩
        · exact Or.inl (Function.update_of_ne hsame _ _)
    | stop =>
      obtain ⟨_, rfl⟩ := only_if_eq_some.mp hact
      by_cases hasleep : before.workers id = .asleep
      · exact Or.inr ⟨hasleep, if_pos hasleep⟩
      · exact Or.inl (if_neg hasleep)
    | enqueue_lock client next_client =>
      obtain ⟨_, rfl⟩ := only_if_eq_some.mp hact
      exact Or.inl rfl
    | cleanup_action_lock =>
      obtain ⟨_, rfl⟩ := only_if_eq_some.mp hact
      exact Or.inl rfl
    | cleanup_action =>
      obtain ⟨_, rfl⟩ := only_if_eq_some.mp hact
      unfold State.cleanup_action
      split
      · exact Or.inl rfl
      · exact Or.inl rfl
    | stop_lock =>
      obtain ⟨_, rfl⟩ := only_if_eq_some.mp hact
      exact Or.inl rfl
    | worker_lock | worker_test | worker_take | worker_process | worker_hand_back_lock | worker_hand_back
    | worker_close | worker_relock | worker_wait | worker_wake => cases hother
    | _ => cases hpool

/-- A step of the selector leaves the signal handler alone. It takes bytes from the trigger pipe only
where it drains the pipe, and only `SIGPIPE` ends the process. -/
theorem act_selector_kept (hact : before.act action = some after) (haction : action.by_selector = true) :
    after.handler = before.handler ∧ (action ≠ .drain → after.pipe_bytes = before.pipe_bytes) ∧
      (after.terminated = before.terminated ∨ ∃ client, action = .visit client .broken_pipe) := by
  cases action with
  | accept fd =>
    obtain ⟨_, rfl⟩ := only_if_eq_some.mp hact
    unfold State.accept
    split
    · exact ⟨rfl, fun _ => rfl, Or.inl rfl⟩
    · exact ⟨rfl, fun _ => rfl, Or.inl rfl⟩
  | drain =>
    obtain ⟨_, rfl⟩ := only_if_eq_some.mp hact
    unfold State.drain
    split
    · exact ⟨rfl, fun hdrain => absurd rfl hdrain, Or.inl rfl⟩
    · exact ⟨rfl, fun hdrain => absurd rfl hdrain, Or.inl rfl⟩
  | visit client result =>
    obtain ⟨_, rfl⟩ := only_if_eq_some.mp hact
    by_cases hpipe : result = .broken_pipe
    · rw [State.visit, if_pos hpipe, hpipe]
      exact ⟨rfl, fun _ => rfl, Or.inr ⟨client, rfl⟩⟩
    · rw [visit_eq hpipe]
      exact ⟨rfl, fun _ => rfl, Or.inl rfl⟩
  | enqueue client next_client target =>
    obtain ⟨_, rfl⟩ := only_if_eq_some.mp hact
    cases target with
    | none => exact ⟨rfl, fun _ => rfl, Or.inl rfl⟩
    | some id => exact ⟨rfl, fun _ => rfl, Or.inl rfl⟩
  | cleanup_action =>
    obtain ⟨_, rfl⟩ := only_if_eq_some.mp hact
    unfold State.cleanup_action
    split
    · exact ⟨rfl, fun _ => rfl, Or.inl rfl⟩
    · exact ⟨rfl, fun _ => rfl, Or.inl rfl⟩
  | cleanup_com =>
    obtain ⟨_, rfl⟩ := only_if_eq_some.mp hact
    unfold State.cleanup_com
    split
    · exact ⟨rfl, fun _ => rfl, Or.inl rfl⟩
    · exact ⟨rfl, fun _ => rfl, Or.inl rfl⟩
  | worker_lock | worker_test | worker_take | worker_process | worker_hand_back_lock | worker_hand_back | worker_close
  | worker_relock | worker_wait | worker_wake | signal | signal_flag | signal_write => cases haction
  | _ =>
    obtain ⟨_, rfl⟩ := only_if_eq_some.mp hact
    exact ⟨rfl, fun _ => rfl, Or.inl rfl⟩

end State

end ufh
