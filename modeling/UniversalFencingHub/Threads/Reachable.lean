import UniversalFencingHub.Threads.Cleanup

open transition

namespace ufh

namespace State

variable {Buf : Type} [CharBuffer Buf] {before after state : State Buf} {place : ClientPtr → Place}
  {stamp : ClientPtr → Nat} {strict : Prop}

theorem step_eq_some {action : Action} :
    before.step action = some after ↔ before.terminated = false ∧ before.act action = some after := by
  unfold State.step
  cases before.terminated with
  | true => simp
  | false => simp

omit [CharBuffer Buf] in
/-- The second half of the signal handler may write to the trigger pipe and does
nothing else. -/
theorem ufh_signal_handler_write_eq (state : State Buf) :
    ∃ pipe_bytes, state.ufh_signal_handler_write = { state with handler := .idle, pipe_bytes } := by
  unfold ufh_signal_handler_write write_pipe
  by_cases hwakeup : state.wakeup_fd ≠ sys.FD_NONE
  · rw [if_pos hwakeup]
    exact ⟨_, rfl⟩
  · rw [if_neg hwakeup]
    exact ⟨state.pipe_bytes, rfl⟩

/-- Every step preserves the invariant. -/
theorem Invariant.act [LawfulCharBuffer Buf] (h : Invariant strict before place stamp) {action : Action}
    (hstrict : strict → before.Orderly action) (hact : before.act action = some after) : after.Sound strict := by
  cases action with
  | init socket_fd trigger_read trigger_write failed =>
    obtain ⟨⟨hposition, hpossible⟩, rfl⟩ := only_if_eq_some.mp hact
    exact h.init hposition hpossible
  | enable_wakeup =>
    obtain ⟨⟨hposition, _⟩, rfl⟩ := only_if_eq_some.mp hact
    exact h.selector_silent ⟨rfl, rfl, rfl, rfl, nofun, nofun, fun _ => by rw [hposition]; rfl⟩ rfl
      (by rw [hposition]; rfl) (h.selector_outside rfl rfl rfl)
  | test_signal =>
    obtain ⟨⟨hposition, _⟩, rfl⟩ := only_if_eq_some.mp hact
    cases before.signal_flag with
    | true =>
      exact h.selector_silent ⟨rfl, rfl, rfl, rfl, nofun, nofun, nofun⟩ rfl (by rw [hposition]; rfl)
        (h.selector_outside rfl rfl rfl)
    | false =>
      exact h.selector_silent ⟨rfl, rfl, rfl, rfl, nofun, nofun, fun _ => by rw [hposition]; rfl⟩ rfl
        (by rw [hposition]; rfl) (h.selector_outside rfl rfl rfl)
  | build_lock =>
    obtain ⟨⟨hposition, hfree⟩, rfl⟩ := only_if_eq_some.mp hact
    exact h.selector_silent ⟨rfl, rfl, rfl, rfl, nofun, nofun, fun _ => by rw [hposition]; rfl⟩ rfl
      (by rw [hposition]; rfl) (h.selector_acquires rfl hfree)
  | build =>
    obtain ⟨hposition, rfl⟩ := only_if_eq_some.mp hact
    exact h.build hposition
  | select ready_read ready_write =>
    obtain ⟨⟨hposition, hpossible⟩, rfl⟩ := only_if_eq_some.mp hact
    exact h.select hposition hpossible
  | select_interrupted =>
    obtain ⟨hposition, rfl⟩ := only_if_eq_some.mp hact
    exact h.selector_silent ⟨rfl, rfl, rfl, rfl, nofun, nofun, fun _ => by rw [hposition]; rfl⟩ rfl
      (by rw [hposition]; rfl) (h.selector_outside rfl rfl rfl)
  | select_failed =>
    obtain ⟨hposition, rfl⟩ := only_if_eq_some.mp hact
    exact h.selector_silent ⟨rfl, rfl, rfl, rfl, nofun, nofun, nofun⟩ rfl (by rw [hposition]; rfl)
      (h.selector_outside rfl rfl rfl)
  | accept fd =>
    obtain ⟨⟨hposition, hpossible⟩, rfl⟩ := only_if_eq_some.mp hact
    exact h.accept hposition hpossible
  | accept_lock client =>
    obtain ⟨⟨hposition, hfree⟩, rfl⟩ := only_if_eq_some.mp hact
    exact h.selector_silent
      ⟨rfl, rfl, rfl, rfl, fun _ => by rw [hposition]; rfl, nofun, fun _ => by rw [hposition]; rfl⟩
      rfl (by rw [hposition]; rfl) (h.selector_acquires rfl hfree)
  | accept_add client =>
    obtain ⟨hposition, rfl⟩ := only_if_eq_some.mp hact
    exact h.accept_add hposition
  | drain =>
    obtain ⟨hposition, rfl⟩ := only_if_eq_some.mp hact
    unfold State.drain
    split
    · exact h.selector_silent (SameView.silent ⟨rfl, rfl, rfl, rfl⟩ rfl) rfl rfl
        (h.selector_outside rfl rfl (by rw [hposition]; rfl))
    · exact h.selector_silent
        ⟨rfl, rfl, rfl, rfl, fun _ => by rw [hposition]; rfl, nofun, fun _ => by rw [hposition]; rfl⟩
        rfl (by rw [hposition]; rfl) (h.selector_outside rfl rfl rfl)
  | pass_lock =>
    obtain ⟨⟨hposition, hfree⟩, rfl⟩ := only_if_eq_some.mp hact
    exact h.selector_silent
      ⟨rfl, rfl, rfl, rfl, fun _ => by rw [hposition]; rfl, nofun, fun _ => by rw [hposition]; rfl⟩
      rfl (by rw [hposition]; rfl) (h.selector_acquires rfl hfree)
  | pass_first =>
    obtain ⟨hposition, rfl⟩ := only_if_eq_some.mp hact
    exact h.pass_first hposition
  | visit client result =>
    obtain ⟨⟨hposition, hpossible⟩, rfl⟩ := only_if_eq_some.mp hact
    exact h.visit hposition hpossible
  | pass_end =>
    obtain ⟨hposition, rfl⟩ := only_if_eq_some.mp hact
    exact h.selector_silent ⟨rfl, rfl, rfl, rfl, nofun, nofun, fun _ => by rw [hposition]; rfl⟩ rfl
      (by rw [hposition]; rfl) (h.selector_releases rfl (by rw [hposition]; rfl) rfl)
  | enqueue_lock client next_client =>
    obtain ⟨⟨hposition, _⟩, rfl⟩ := only_if_eq_some.mp hact
    exact h.selector_silent
      ⟨rfl, rfl, rfl, rfl, nofun, fun _ hcursor => by rw [hposition]; exact hcursor, fun _ => by rw [hposition]; rfl⟩
      rfl (by rw [hposition]; rfl) (h.selector_inside rfl rfl (by rw [hposition]; rfl))
  | enqueue client next_client target =>
    obtain ⟨⟨hposition, hpossible⟩, rfl⟩ := only_if_eq_some.mp hact
    exact h.enqueue hposition hpossible
  | cleanup_socket =>
    obtain ⟨hposition, rfl⟩ := only_if_eq_some.mp hact
    exact h.cleanup_socket hposition
  | cleanup_action_lock =>
    obtain ⟨⟨hposition, _⟩, rfl⟩ := only_if_eq_some.mp hact
    exact h.selector_silent ⟨rfl, rfl, rfl, rfl, nofun, nofun, nofun⟩ rfl (by rw [hposition]; rfl)
      (h.selector_outside rfl rfl rfl)
  | cleanup_action =>
    obtain ⟨hposition, rfl⟩ := only_if_eq_some.mp hact
    exact h.cleanup_action hposition hstrict
  | cleanup_com_lock =>
    obtain ⟨⟨hposition, hfree⟩, rfl⟩ := only_if_eq_some.mp hact
    exact h.selector_silent ⟨rfl, rfl, rfl, rfl, nofun, nofun, nofun⟩ rfl (by rw [hposition]; rfl)
      (h.selector_acquires rfl hfree)
  | cleanup_disable =>
    obtain ⟨⟨hposition, _⟩, rfl⟩ := only_if_eq_some.mp hact
    exact h.selector_silent ⟨rfl, rfl, rfl, rfl, nofun, nofun, nofun⟩ rfl (by rw [hposition]; rfl)
      (h.selector_inside rfl rfl (by rw [hposition]; rfl))
  | cleanup_signal =>
    obtain ⟨⟨hposition, _⟩, rfl⟩ := only_if_eq_some.mp hact
    exact h.selector_silent ⟨rfl, rfl, rfl, rfl, nofun, nofun, nofun⟩ rfl (by rw [hposition]; rfl)
      (h.selector_inside rfl rfl (by rw [hposition]; rfl))
  | cleanup_com =>
    obtain ⟨hposition, rfl⟩ := only_if_eq_some.mp hact
    exact h.cleanup_com hposition hstrict
  | stop_lock =>
    obtain ⟨⟨hposition, _⟩, rfl⟩ := only_if_eq_some.mp hact
    exact h.selector_silent ⟨rfl, rfl, rfl, rfl, nofun, nofun, nofun⟩ rfl (by rw [hposition]; rfl)
      (h.selector_outside rfl rfl rfl)
  | stop =>
    obtain ⟨hposition, rfl⟩ := only_if_eq_some.mp hact
    exact h.stop_threads hposition
  | join =>
    obtain ⟨⟨hposition, _⟩, rfl⟩ := only_if_eq_some.mp hact
    exact h.selector_silent ⟨rfl, rfl, rfl, rfl, nofun, nofun, nofun⟩ rfl (by rw [hposition]; rfl)
      (h.selector_outside rfl rfl rfl)
  | signal =>
    obtain ⟨_, rfl⟩ := only_if_eq_some.mp hact
    exact h.selector_silent (SameView.silent ⟨rfl, rfl, rfl, rfl⟩ rfl) rfl rfl h.com_lock
  | signal_flag =>
    obtain ⟨_, rfl⟩ := only_if_eq_some.mp hact
    exact h.selector_silent (SameView.silent ⟨rfl, rfl, rfl, rfl⟩ rfl) rfl rfl h.com_lock
  | signal_write =>
    obtain ⟨_, rfl⟩ := only_if_eq_some.mp hact
    obtain ⟨pipe_bytes, hwrite⟩ := ufh_signal_handler_write_eq before
    rw [hwrite]
    exact h.selector_silent (SameView.silent ⟨rfl, rfl, rfl, rfl⟩ rfl) rfl rfl h.com_lock
  | worker_lock id =>
    obtain ⟨⟨hposition, _⟩, rfl⟩ := only_if_eq_some.mp hact
    exact ⟨place, stamp, h.worker_silent rfl ⟨rfl, rfl, rfl, rfl⟩ rfl (by rw [hposition]; rfl)
        (h.outside rfl rfl rfl rfl)⟩
  | worker_test id =>
    obtain ⟨hposition, rfl⟩ := only_if_eq_some.mp hact
    unfold State.test_stop
    split
    · exact ⟨place, stamp, h.worker_silent rfl ⟨rfl, rfl, rfl, rfl⟩ rfl (by rw [hposition]; rfl)
        (h.outside rfl rfl rfl rfl)⟩
    · exact ⟨place, stamp, h.worker_silent rfl ⟨rfl, rfl, rfl, rfl⟩ rfl (by rw [hposition]; rfl)
        (h.outside rfl rfl rfl rfl)⟩
  | worker_take id =>
    obtain ⟨hposition, rfl⟩ := only_if_eq_some.mp hact
    exact h.take hposition
  | worker_process id client success_flag =>
    obtain ⟨hposition, rfl⟩ := only_if_eq_some.mp hact
    exact h.process hposition success_flag hstrict
  | worker_hand_back_lock id client =>
    obtain ⟨⟨hposition, hfree⟩, rfl⟩ := only_if_eq_some.mp hact
    exact ⟨place, stamp, h.worker_silent rfl ⟨rfl, rfl, rfl, rfl⟩ rfl (by rw [hposition]; rfl)
      (h.worker_acquires rfl rfl hfree)⟩
  | worker_hand_back id client =>
    obtain ⟨⟨hposition, _⟩, rfl⟩ := only_if_eq_some.mp hact
    exact h.hand_back hposition hstrict
  | worker_close id client =>
    obtain ⟨hposition, rfl⟩ := only_if_eq_some.mp hact
    exact h.close hposition hstrict
  | worker_relock id =>
    obtain ⟨⟨hposition, _⟩, rfl⟩ := only_if_eq_some.mp hact
    exact ⟨place, stamp, h.worker_silent rfl ⟨rfl, rfl, rfl, rfl⟩ rfl (by rw [hposition]; rfl)
        (h.outside rfl rfl rfl rfl)⟩
  | worker_wait id =>
    obtain ⟨hposition, rfl⟩ := only_if_eq_some.mp hact
    have hnothing : (before.workers id).holding = none := by
      cases hposition with
      | inl hreturned => rw [hreturned]; rfl
      | inr hraised => rw [hraised]; rfl
    have hleft : ∀ stop : Bool, (if stop then WorkerPosition.exited else .asleep).holding = none ∧
        (if stop then WorkerPosition.exited else .asleep).in_com_section = false := by
      intro stop
      cases stop <;> exact ⟨rfl, rfl⟩
    obtain ⟨hholding, hsection⟩ := hleft before.stop_workers
    exact ⟨place, stamp, h.worker_silent rfl ⟨rfl, rfl, rfl, rfl⟩ rfl (hholding.trans hnothing.symm)
      (h.outside rfl rfl rfl hsection)⟩
  | worker_wake id =>
    obtain ⟨hposition, rfl⟩ := only_if_eq_some.mp hact
    exact ⟨place, stamp, h.worker_silent rfl ⟨rfl, rfl, rfl, rfl⟩ rfl (by rw [hposition]; rfl)
        (h.outside rfl rfl rfl rfl)⟩

theorem Sound.step [LawfulCharBuffer Buf] (h : before.Sound strict) {action : Action}
    (hstrict : strict → before.Orderly action) (hstep : before.step action = some after) : after.Sound strict := by
  obtain ⟨place, stamp, h⟩ := h
  obtain ⟨_, hact⟩ := step_eq_some.mp hstep
  exact h.act hstrict hact

/-- The invariant holds in every state of the server. -/
theorem Reachable.sound [LawfulCharBuffer Buf] (h : state.Reachable) : state.Sound False := by
  apply ReachesFrom.invariant h
  · exact fun memory => ⟨_, _, initial_invariant False memory⟩
  · intro before action after hbefore hstep
    exact hbefore.step False.elim hstep

/-- In a run without any of the errors, no client is lost. -/
theorem ReachableWhere.sound [LawfulCharBuffer Buf] {condition : State Buf → Action → Prop}
    (hcondition : ∀ state action, condition state action → state.Orderly action) (h : state.ReachableWhere condition) :
    state.Sound True := by
  apply ReachesFromWhere.invariant h
  · exact fun memory => ⟨_, _, initial_invariant True memory⟩
  · intro before action after hbefore hguard hstep
    exact hbefore.step (fun _ => hcondition before action hguard) hstep

end State

end ufh
