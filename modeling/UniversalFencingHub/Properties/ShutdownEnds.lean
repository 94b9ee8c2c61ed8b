import UniversalFencingHub.Properties.Progress
import UniversalFencingHub.Threads.Rank

open transition

namespace ufh

namespace State

variable {Buf : Type} {before after state last : State Buf} {action : Action} {actions : List Action}

/-- The number of steps in which the server ends, once the stop signal has been sent. -/
def SHUTDOWN_STEPS : Nat := PIPE_CAPACITY + 724

variable [CharBuffer Buf]

theorem act_pipe_bounded (h : before.pipe_bytes ≤ PIPE_CAPACITY) (hact : before.act action = some after) :
    after.pipe_bytes ≤ PIPE_CAPACITY := by
  cases haction : action.by_selector with
  | true =>
    by_cases hdrain : action = .drain
    · subst hdrain
      obtain ⟨_, rfl⟩ := only_if_eq_some.mp hact
      unfold State.drain
      split
      · exact le_trans (Nat.sub_le _ _) h
      · exact h
    · rw [(act_selector_kept hact haction).2.1 hdrain]
      exact h
  | false =>
    cases hworker : action.worker with
    | some id =>
      obtain hsame | ⟨_, hwritten⟩ := act_worker_bytes hact hworker
      · exact hsame ▸ h
      · exact hwritten ▸ (write_pipe_le before).2 h
    | none =>
      cases action with
      | signal =>
        obtain ⟨_, rfl⟩ := only_if_eq_some.mp hact
        exact h
      | signal_flag =>
        obtain ⟨_, rfl⟩ := only_if_eq_some.mp hact
        exact h
      | signal_write =>
        obtain ⟨_, rfl⟩ := only_if_eq_some.mp hact
        obtain hsame | hwritten := handler_write_bytes before
        · exact hsame ▸ h
        · exact hwritten ▸ (write_pipe_le before).2 h
      | worker_lock | worker_test | worker_take | worker_process | worker_hand_back_lock | worker_hand_back
      | worker_close | worker_relock | worker_wait | worker_wake => cases hworker
      | _ => cases haction

theorem Reachable.pipe_bounded (h : state.Reachable) : state.pipe_bytes ≤ PIPE_CAPACITY := by
  apply ReachesFrom.invariant h
  · exact fun memory => Nat.zero_le _
  · intro before action after hbefore hstep
    exact act_pipe_bounded hbefore (step_eq_some.mp hstep).2

/-- The stop signal is never taken back. -/
theorem act_stays_signaled (h : before.signal_flag = true) (hact : before.act action = some after) :
    after.signal_flag = true := by
  cases haction : action.by_selector with
  | false => exact (act_aside hact haction).signal_flag h
  | true =>
    cases action with
    | accept fd =>
      obtain ⟨_, rfl⟩ := only_if_eq_some.mp hact
      unfold State.accept
      split
      · exact h
      · exact h
    | drain =>
      obtain ⟨_, rfl⟩ := only_if_eq_some.mp hact
      unfold State.drain
      split
      · exact h
      · exact h
    | visit client result =>
      obtain ⟨_, rfl⟩ := only_if_eq_some.mp hact
      unfold State.visit
      split
      · exact h
      · exact h
    | enqueue client next_client target =>
      obtain ⟨_, rfl⟩ := only_if_eq_some.mp hact
      cases target with
      | none => exact h
      | some id => exact h
    | cleanup_action =>
      obtain ⟨_, rfl⟩ := only_if_eq_some.mp hact
      unfold State.cleanup_action
      split
      · exact h
      · exact h
    | cleanup_com =>
      obtain ⟨_, rfl⟩ := only_if_eq_some.mp hact
      unfold State.cleanup_com
      split
      · exact h
      · exact h
    | cleanup_signal =>
      obtain ⟨_, rfl⟩ := only_if_eq_some.mp hact
      rfl
    | worker_lock | worker_test | worker_take | worker_process | worker_hand_back_lock | worker_hand_back | worker_close
    | worker_relock | worker_wait | worker_wake | signal | signal_flag | signal_write => cases haction
    | _ =>
      obtain ⟨_, rfl⟩ := only_if_eq_some.mp hact
      exact h

/-- The server in a state after the stop signal. -/
def Stopping (state : State Buf) : Prop := state.Reachable ∧ state.signal_flag = true

variable [LawfulCharBuffer Buf]

/-- The rank of the shutdown. A signal or a wakeup without a cause costs no more than four steps. -/
theorem shutdown_ranked : Ranked State.step Action.outside (fun state : State Buf => state.Stopping) rank 4 where
  known before action after hbefore hstep :=
    ⟨hbefore.1.tail trivial hstep, act_stays_signaled hbefore.2 (step_eq_some.mp hstep).2⟩
  inside before action after hbefore houtside hstep := by
    obtain ⟨hrunning, hact⟩ := step_eq_some.mp hstep
    obtain ⟨_, _, hinvariant⟩ := Reachable.sound hbefore.1
    exact (hinvariant.rank_act hrunning hbefore.2 hact).1 houtside
  outside before action after hbefore _ hstep := by
    obtain ⟨hrunning, hact⟩ := step_eq_some.mp hstep
    obtain ⟨_, _, hinvariant⟩ := Reachable.sound hbefore.1
    exact (hinvariant.rank_act hrunning hbefore.2 hact).2

/-- After the stop signal the server is never idle. -/
theorem Stopping.proceeds (h : state.Stopping) (hrunning : state.terminated = false) (hend : ¬ state.Ended) :
    state.CanProceed := by
  by_contra hstuck
  obtain hidle | hended := idle_or_ended hrunning (Reachable.locks_owned h.1) (Reachable.standing h.1) hstuck
  · have halert := Reachable.alert h.1 h.2 (by simp [hidle.handler]) (by rw [hidle.selector]; rfl)
    have hempty := hidle.pipe_bytes
    omega
  · exact hend hended

/-- Once the stop signal has been sent, every run of the server is finite: its own steps are bounded, apart
from four for each signal and each wakeup without a cause, it gets stuck nowhere before its end, and it can
always be continued to its end. -/
theorem shutdown_ends (h : state.Reachable) (hflag : state.signal_flag = true) :
    (∀ actions last, run State.step state actions = some last →
      actions.length ≤ SHUTDOWN_STEPS + 5 * actions.countP Action.outside ∧
        (last.terminated = false → ¬ last.CanProceed → last.Ended)) ∧
      (state.terminated = false → ∃ actions last, (∀ action ∈ actions, action.outside = false) ∧
        run State.step state actions = some last ∧ last.Ended) := by
  have hstopping : state.Stopping := ⟨h, hflag⟩
  refine ⟨fun actions last hrun => ⟨?_, fun hrunning hstuck => ?_⟩, fun hrunning => ?_⟩
  · have hlength := shutdown_ranked.length_le hstopping hrun
    have hrank := rank_le (Reachable.pipe_bounded h)
    unfold SHUTDOWN_STEPS
    omega
  · by_contra hend
    exact hstuck ((shutdown_ranked.known_run hstopping hrun).proceeds hrunning hend)
  · have hproceeds : ∀ state : State Buf, state.Stopping → state.terminated = false → ¬ state.Ended →
        ∃ action after, action.outside = false ∧ state.step action = some after ∧ after.terminated = false := by
      intro state hstate halive hend
      obtain ⟨action, houtside, _, after, hstep, hafter⟩ := hstate.proceeds halive hend
      exact ⟨action, after, houtside, hstep, hafter⟩
    exact shutdown_ranked.exists_run hproceeds hstopping hrunning

/-- A stop signal while a worker processes a message and another connection is open. -/
def signal_while_busy : List Action :=
  Action.startup ++ Action.accept_round 6 23 [] ++ Action.accept_round 7 22 [23] ++
    Action.round [6] [] [] (Action.complete 23 (some 22) [0, 0, 0, 4] ++ Action.skip [22]) ++ Action.work 0 23 false ++
    [.test_signal, .build_lock, .build, .signal, .signal_flag]

theorem shutdown_ends_busy : ∃ state : State BoundedBuffer, state.workers 0 = .hand_back_lock 23 ∧
    state.selector = .select ∧ ∃ actions last, run State.step state actions = some last ∧ last.Ended := by
  obtain ⟨state, hreached, hfound⟩ := exists_reachesFrom_of_run
    (by decide +kernel : ((run State.step (State.initial BoundedBuffer (.filled 0xA5)) signal_while_busy).any
      fun state => (state.workers 0 = .hand_back_lock 23 ∧ state.selector = .select) ∧ state.signal_flag = true ∧
        state.terminated = false) = true)
  obtain ⟨⟨hworker, hposition⟩, hflag, hrunning⟩ := of_decide_eq_true hfound
  obtain ⟨actions, last, _, hrun, hended⟩ := (shutdown_ends hreached hflag).2 hrunning
  exact ⟨state, hworker, hposition, actions, last, hrun, hended⟩

end State

end ufh
