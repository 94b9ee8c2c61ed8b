import UniversalFencingHub.Threads.Wakeup

open transition

namespace ufh

namespace State

variable {Buf : Type} {before after state : State Buf} {action : Action}

/-- The descriptor to which a step writes a trigger byte. -/
def written (state : State Buf) : Action → Option Int
  | .worker_hand_back _ _ =>
    if state.signal_flag = false ∧ state.trigger_write ≠ sys.FD_NONE then some state.trigger_write else none
  | .signal_write => if state.wakeup_fd ≠ sys.FD_NONE then some state.wakeup_fd else none
  | _ => none

/-- The write end of the trigger pipe, between the `pipe()` that created it and the
`close()` of `cleanup()`. -/
structure OpenPipe (state : State Buf) (fd : Int) : Prop where
  trigger : fd = state.trigger_write
  valid : 0 ≤ fd
  opened : fd ∈ state.connector.open_fds
  has_pipe : state.selector.has_pipe = true
  not_socket : state.socket_fd ≠ fd
  not_client : ∀ client, (state.connector.clients client).socket_fd ≠ fd

theorem Trigger.open_pipe (h : state.Trigger) (hown : state.OwnDescriptors)
    (hvalid : state.trigger_write ≠ sys.FD_NONE) : state.OpenPipe state.trigger_write := by
  obtain ⟨hpositive, hopen, hposition⟩ := h.opened hvalid
  exact ⟨rfl, hpositive, hopen, hposition, h.apart hvalid, hown.apart _ (by simp [own_fds]) hpositive⟩

variable [CharBuffer Buf]

theorem hand_back_bytes (state : State Buf) (id : WorkerId) (client : ClientPtr)
    (hnone : state.written (.worker_hand_back id client) = none) :
    (state.hand_back id client).pipe_bytes ≤ state.pipe_bytes := by
  unfold State.hand_back
  simp only
  split
  · exact le_rfl
  · next hflag =>
    have hdisabled : ¬ state.trigger_write ≠ sys.FD_NONE := by
      intro hvalid
      have hclear : state.signal_flag = false := eq_false_of_ne_true hflag
      simp [written, hclear, hvalid] at hnone
    unfold wakeup_selector
    split
    · next hvalid => exact absurd hvalid hdisabled
    · exact le_rfl

/-- No other step puts a byte into the trigger pipe. -/
theorem pipe_bytes_of_not_written (hact : before.act action = some after) (hnone : before.written action = none) :
    after.pipe_bytes ≤ before.pipe_bytes := by
  cases action with
  | worker_hand_back id client =>
    obtain ⟨_, rfl⟩ := only_if_eq_some.mp hact
    exact hand_back_bytes before id client hnone
  | signal_write =>
    obtain ⟨_, rfl⟩ := only_if_eq_some.mp hact
    unfold ufh_signal_handler_write
    split
    · next hvalid => simp [written, hvalid] at hnone
    · exact le_rfl
  | accept fd =>
    obtain ⟨_, rfl⟩ := only_if_eq_some.mp hact
    unfold State.accept
    split
    · exact le_rfl
    · exact le_rfl
  | drain =>
    obtain ⟨_, rfl⟩ := only_if_eq_some.mp hact
    unfold State.drain
    split
    · exact Nat.sub_le _ _
    · exact le_rfl
  | visit client result =>
    obtain ⟨_, rfl⟩ := only_if_eq_some.mp hact
    unfold State.visit
    simp only
    split
    · exact le_rfl
    · exact le_rfl
  | enqueue client next_client target =>
    obtain ⟨_, rfl⟩ := only_if_eq_some.mp hact
    cases target with
    | none => exact le_rfl
    | some id => exact le_rfl
  | cleanup_action =>
    obtain ⟨_, rfl⟩ := only_if_eq_some.mp hact
    unfold State.cleanup_action
    split
    · exact le_rfl
    · exact le_rfl
  | cleanup_com =>
    obtain ⟨_, rfl⟩ := only_if_eq_some.mp hact
    unfold State.cleanup_com
    split
    · exact le_rfl
    · exact le_rfl
  | worker_test id =>
    obtain ⟨_, rfl⟩ := only_if_eq_some.mp hact
    unfold test_stop
    split
    · exact le_rfl
    · exact le_rfl
  | worker_take id =>
    obtain ⟨_, rfl⟩ := only_if_eq_some.mp hact
    unfold State.take
    split
    · exact le_rfl
    · exact le_rfl
  | worker_process id client success_flag =>
    obtain ⟨_, rfl⟩ := only_if_eq_some.mp hact
    unfold State.process
    simp only
    split
    · exact le_rfl
    · exact le_rfl
  | _ =>
    obtain ⟨_, rfl⟩ := only_if_eq_some.mp hact
    exact le_rfl

omit [CharBuffer Buf] in
theorem written_open_pipe (hown : state.OwnDescriptors) (htrigger : state.Trigger) {fd : Int}
    (hwritten : state.written action = some fd) : state.OpenPipe fd := by
  cases action with
  | worker_hand_back id client =>
    simp only [written, Option.ite_none_right_eq_some, Option.some.injEq] at hwritten
    obtain ⟨⟨_, hvalid⟩, rfl⟩ := hwritten
    exact htrigger.open_pipe hown hvalid
  | signal_write =>
    simp only [written, Option.ite_none_right_eq_some, Option.some.injEq] at hwritten
    obtain ⟨hvalid, rfl⟩ := hwritten
    obtain ⟨hsame, _⟩ := htrigger.wakeup hvalid
    rw [hsame] at hvalid ⊢
    exact htrigger.open_pipe hown hvalid
  | _ => cases hwritten

/-- Every trigger byte is written to a descriptor, which is the write end of the
trigger pipe while the pipe is open. -/
theorem trigger_bytes_to_open_pipe [LawfulCharBuffer Buf] (h : state.Reachable)
    (hstep : state.step action = some after) :
    (state.pipe_bytes < after.pipe_bytes → ∃ fd, state.written action = some fd) ∧
      ∀ fd, state.written action = some fd → state.OpenPipe fd := by
  constructor
  · intro hmore
    cases hwritten : state.written action with
    | some fd => exact ⟨fd, rfl⟩
    | none =>
      have hbytes := pipe_bytes_of_not_written (step_eq_some.mp hstep).2 hwritten
      omega
  · intro fd hwritten
    exact written_open_pipe (Reachable.own h) (Reachable.trigger h) hwritten

/-- The stop signal is delivered while the connector is cleaning up. -/
def late_signal_run : List Action :=
  Action.startup ++ [.test_signal, .build_lock, .build, .select_failed, .cleanup_socket, .cleanup_action_lock,
    .cleanup_action, .cleanup_com_lock, .signal, .signal_flag]

theorem trigger_bytes_to_open_pipe_late_signal : ∃ state : State BoundedBuffer,
    state.selector = .cleanup_disable ∧ state.OpenPipe 5 := by
  obtain ⟨state, hreachable, hlate⟩ := exists_reachesFrom_of_run
    (by decide +kernel : ((run State.step (State.initial BoundedBuffer (.filled 0xA5)) late_signal_run).any fun state =>
      state.selector = .cleanup_disable ∧ state.written .signal_write = some 5 ∧
        (state.step .signal_write).isSome = true) = true)
  simp only [Bool.decide_and, Bool.and_eq_true, decide_eq_true_eq] at hlate
  obtain ⟨hposition, hwritten, henabled⟩ := hlate
  obtain ⟨after, hstep⟩ := Option.isSome_iff_exists.mp henabled
  exact ⟨state, hposition, (trigger_bytes_to_open_pipe hreachable hstep).2 5 hwritten⟩

end State

end ufh
