import UniversalFencingHub.Properties.Shutdown
import UniversalFencingHub.Properties.Wakeup
import UniversalFencingHub.Threads.Ownership

open transition

namespace ufh

theorem SelectorPosition.Next.select {position : SelectorPosition} {action : Action}
    (h : position.Next action .select) : action = .build := by
  cases h
  rfl

theorem SelectorPosition.Next.finished {position : SelectorPosition} {action : Action}
    (h : position.Next action .finished) : action = .join := by
  cases h
  rfl

theorem SelectorPosition.Next.stopped_workers {position next : SelectorPosition} {action : Action}
    (h : position.Next action next) (haction : action ≠ .stop) :
    next.stopped_workers = position.stopped_workers := by
  cases h with
  | stopped => exact absurd rfl haction
  | _ => rfl

/-- The positions at which a thread waits for nothing. -/
def SelectorPosition.ready : SelectorPosition → Bool
  | .build_lock => false
  | .select => false
  | .accept_lock _ => false
  | .pass_lock => false
  | .enqueue_lock _ _ => false
  | .cleanup_action_lock => false
  | .cleanup_com_lock => false
  | .stop_lock => false
  | .join => false
  | .finished => false
  | _ => true

def WorkerPosition.ready : WorkerPosition → Bool
  | .locking => false
  | .hand_back_lock _ => false
  | .relock => false
  | .asleep => false
  | .exited => false
  | _ => true

theorem SelectorPosition.ready_of_action_section {position : SelectorPosition}
    (h : position.in_action_section = true) : position.ready = true := by
  cases position with
  | enqueue client next_client => rfl
  | cleanup_action => rfl
  | stop => rfl
  | _ => cases h

theorem WorkerPosition.ready_of_section {position : WorkerPosition}
    (h : position.in_action_section = true ∨ position.in_com_section = true) : position.ready = true := by
  cases position with
  | loop => rfl
  | take => rfl
  | hand_back client => rfl
  | returned => rfl
  | _ => cases h with
    | inl h => cases h
    | inr h => cases h

theorem SelectorPosition.ready_of_com_section {position : SelectorPosition} (h : position.in_com_section = true) :
    position.ready = true ∨ ∃ client next_client, position = .enqueue_lock client next_client := by
  cases position with
  | enqueue_lock client next_client => exact Or.inr ⟨client, next_client, rfl⟩
  | build => exact Or.inl rfl
  | accept_add client => exact Or.inl rfl
  | pass_first => exact Or.inl rfl
  | pass client => exact Or.inl rfl
  | enqueue client next_client => exact Or.inl rfl
  | cleanup_disable => exact Or.inl rfl
  | cleanup_signal => exact Or.inl rfl
  | cleanup_com => exact Or.inl rfl
  | _ => cases h

namespace State

variable {Buf : Type} {before after state : State Buf} {place : ClientPtr → Place} {stamp : ClientPtr → Nat}
  {client : ClientPtr} {id : WorkerId} {action : Action}

/-- What a position of the selector says about the workers and about the descriptor sets. -/
structure Standing (state : State Buf) : Prop where
  stopping : state.stop_workers = state.selector.stopped_workers
  awake : state.stop_workers = true → ∀ id, state.workers id ≠ .asleep
  running : state.stop_workers = false → ∀ id, state.workers id ≠ .exited
  finished : state.selector = .finished → ∀ id, state.workers id = .exited
  trigger : state.selector = .select → state.trigger_read ∈ state.read_fd_set

/-- A step of the server itself is possible. A return of `select()` counts as one only where the trigger
pipe holds a byte. -/
def CanProceed [CharBuffer Buf] (state : State Buf) : Prop :=
  ∃ action, action.outside = false ∧
    (∀ ready_read ready_write, action = .select ready_read ready_write → 0 < state.pipe_bytes) ∧
    ∃ after, state.step action = some after ∧ after.terminated = false

/-- The selector waits for its peers and all workers wait for the selector. -/
structure Idle (state : State Buf) : Prop where
  selector : state.selector = .select
  pipe_bytes : state.pipe_bytes = 0
  handler : state.handler = .idle
  workers : ∀ id, state.workers id = .asleep

/-- All threads have ended. -/
structure Ended (state : State Buf) : Prop where
  selector : state.selector = .finished
  handler : state.handler = .idle
  workers : ∀ id, state.workers id = .exited

variable [CharBuffer Buf]

/-- A worker exits only after it has been told to, and goes to sleep only as long as it has not. -/
theorem act_worker_ends (hact : before.act action = some after) (hworker : action.worker = some id) :
    (after.workers id = .exited → before.stop_workers = true) ∧
      (after.workers id = .asleep → before.stop_workers = false) := by
  have hnext := (act_worker_moves hact hworker).next
  generalize hposition : before.workers id = position at hnext
  generalize hmoved : after.workers id = moved at hnext ⊢
  have hends : ∀ {after : State Buf}, before.wait_or_exit id = after → after.workers id = moved →
      (moved = .exited → before.stop_workers = true) ∧ (moved = .asleep → before.stop_workers = false) := by
    rintro after rfl hmoved
    change Function.update before.workers id _ id = moved at hmoved
    rw [Function.update_self] at hmoved
    cases hstop : before.stop_workers with
    | true => simp [hstop, ← hmoved]
    | false => simp [hstop, ← hmoved]
  cases hnext with
  | stopped =>
    refine ⟨fun _ => ?_, nofun⟩
    by_contra hstop
    obtain ⟨_, rfl⟩ := only_if_eq_some.mp hact
    rw [State.test_stop, if_neg hstop, set_worker_self] at hmoved
    cases hmoved
  | waits => exact hends (only_if_eq_some.mp hact).2 hmoved
  | exits => exact hends (only_if_eq_some.mp hact).2 hmoved
  | raised_waits => exact hends (only_if_eq_some.mp hact).2 hmoved
  | raised_exits => exact hends (only_if_eq_some.mp hact).2 hmoved
  | _ => exact ⟨nofun, nofun⟩

theorem Standing.worker (h : before.Standing) (hact : before.act action = some after)
    (hworker : action.worker = some id) (haction : action.by_selector = false) : after.Standing := by
  have hmoves := act_worker_moves hact hworker
  have haside := act_aside hact haction
  obtain ⟨hexited, hasleep⟩ := act_worker_ends hact hworker
  have hothers : ∀ other, other ≠ id → after.workers other = before.workers other := by
    intro other hne
    rw [hmoves.workers, Function.update_of_ne hne]
  refine ⟨?_, ?_, ?_, ?_, ?_⟩
  · rw [hmoves.stop_workers, haside.selector]
    exact h.stopping
  · rw [hmoves.stop_workers]
    intro hstop other hsleeps
    by_cases hsame : other = id
    · rw [hsame] at hsleeps
      rw [hasleep hsleeps] at hstop
      cases hstop
    · rw [hothers other hsame] at hsleeps
      exact h.awake hstop other hsleeps
  · rw [hmoves.stop_workers]
    intro hrunning other hends
    by_cases hsame : other = id
    · rw [hsame] at hends
      rw [hexited hends] at hrunning
      cases hrunning
    · rw [hothers other hsame] at hends
      exact h.running hrunning other hends
  · rw [haside.selector]
    intro hposition
    exact absurd (h.finished hposition id) (act_worker hact hworker).2.1
  · have htrigger : after.trigger_read = before.trigger_read := by
      have hown := haside.own_fds
      simp only [own_fds, List.cons.injEq] at hown
      exact hown.2.1
    rw [haside.selector, haside.read_fd_set, htrigger]
    exact h.trigger

theorem act_stop_workers_kept (hact : before.act action = some after) (haction : action ≠ .stop) :
    after.stop_workers = before.stop_workers := by
  cases hpool : action.on_pool with
  | false => exact (act_off_pool hact hpool).2.1
  | true =>
    cases hworker : action.worker with
    | some id => exact (act_worker_moves hact hworker).stop_workers
    | none =>
      cases action with
      | enqueue_lock client next_client =>
        obtain ⟨_, rfl⟩ := only_if_eq_some.mp hact
        rfl
      | enqueue client next_client target =>
        obtain ⟨_, rfl⟩ := only_if_eq_some.mp hact
        cases target with
        | none => rfl
        | some id => rfl
      | cleanup_action_lock =>
        obtain ⟨_, rfl⟩ := only_if_eq_some.mp hact
        rfl
      | cleanup_action =>
        obtain ⟨_, rfl⟩ := only_if_eq_some.mp hact
        unfold State.cleanup_action
        split
        · rfl
        · rfl
      | stop_lock =>
        obtain ⟨_, rfl⟩ := only_if_eq_some.mp hact
        rfl
      | stop => exact absurd rfl haction
      | worker_lock | worker_test | worker_take | worker_process | worker_hand_back_lock | worker_hand_back
      | worker_close | worker_relock | worker_wait | worker_wake => cases hworker
      | _ => cases hpool

/-- A step of the selector that tells no worker to stop. -/
theorem Standing.selector (h : before.Standing) (hact : before.act action = some after)
    (haction : action.by_selector = true) (hworker : action.worker = none) (hnostop : action ≠ .stop) :
    after.Standing := by
  have hnext := act_next hact haction
  have hstop := act_stop_workers_kept hact hnostop
  refine ⟨?_, ?_, ?_, ?_, ?_⟩
  · rw [hstop, hnext.stopped_workers hnostop]
    exact h.stopping
  · rw [hstop]
    intro hstopping id hsleeps
    cases act_workers_woken hact hworker id with
    | inl hsame => exact h.awake hstopping id (hsame ▸ hsleeps)
    | inr hslept => exact h.awake hstopping id hslept.1
  · rw [hstop]
    intro hrunning id hends
    cases act_workers_woken hact hworker id with
    | inl hsame => exact h.running hrunning id (hsame ▸ hends)
    | inr hslept =>
      rw [hslept.2] at hends
      cases hends
  · intro hposition id
    rw [hposition] at hnext
    obtain rfl := hnext.finished
    obtain ⟨⟨_, hall⟩, rfl⟩ := only_if_eq_some.mp hact
    exact hall id
  · intro hposition
    rw [hposition] at hnext
    obtain rfl := hnext.select
    obtain ⟨_, rfl⟩ := only_if_eq_some.mp hact
    exact List.mem_cons_self ..

omit [CharBuffer Buf] in
theorem standing_stop_threads (state : State Buf) : state.stop_threads.Standing := by
  refine ⟨rfl, fun _ id hsleeps => ?_, nofun, nofun, nofun⟩
  have hposition : (if state.workers id = .asleep then WorkerPosition.locking else state.workers id) = .asleep :=
    hsleeps
  split at hposition
  · cases hposition
  · next hawake => exact hawake hposition

/-- A step of the signal handler. -/
theorem Standing.handler (h : before.Standing) (hact : before.act action = some after)
    (haction : action.by_selector = false) (hpool : action.on_pool = false) : after.Standing := by
  obtain ⟨hworkers, hstop, _⟩ := act_off_pool hact hpool
  have haside := act_aside hact haction
  have htrigger : after.trigger_read = before.trigger_read := by
    have hown := haside.own_fds
    simp only [own_fds, List.cons.injEq] at hown
    exact hown.2.1
  refine ⟨?_, ?_, ?_, ?_, ?_⟩
  · rw [hstop, haside.selector]
    exact h.stopping
  · rw [hstop, hworkers]
    exact h.awake
  · rw [hstop, hworkers]
    exact h.running
  · rw [haside.selector, hworkers]
    exact h.finished
  · rw [haside.selector, haside.read_fd_set, htrigger]
    exact h.trigger

theorem Standing.act (h : before.Standing) (hact : before.act action = some after) : after.Standing := by
  cases action with
  | worker_lock id => exact h.worker hact rfl rfl
  | worker_test id => exact h.worker hact rfl rfl
  | worker_take id => exact h.worker hact rfl rfl
  | worker_process id client success_flag => exact h.worker hact rfl rfl
  | worker_hand_back_lock id client => exact h.worker hact rfl rfl
  | worker_hand_back id client => exact h.worker hact rfl rfl
  | worker_close id client => exact h.worker hact rfl rfl
  | worker_relock id => exact h.worker hact rfl rfl
  | worker_wait id => exact h.worker hact rfl rfl
  | worker_wake id => exact h.worker hact rfl rfl
  | signal => exact h.handler hact rfl rfl
  | signal_flag => exact h.handler hact rfl rfl
  | signal_write => exact h.handler hact rfl rfl
  | stop =>
    obtain ⟨_, rfl⟩ := only_if_eq_some.mp hact
    exact standing_stop_threads before
  | _ => exact h.selector hact rfl rfl (by simp)

theorem Reachable.standing (h : state.Reachable) : state.Standing := by
  apply ReachesFrom.invariant h
  · exact fun memory => ⟨rfl, nofun, fun _ _ => nofun, nofun, nofun⟩
  · intro before action after hbefore hstep
    exact hbefore.act (step_eq_some.mp hstep).2

theorem act_running (hact : before.act action = some after) (hrunning : before.terminated = false)
    (hpipe : ∀ client, action ≠ .visit client .broken_pipe) : after.terminated = false := by
  cases haction : action.by_selector with
  | true =>
    cases (act_selector_kept hact haction).2.2 with
    | inl hsame => rw [hsame, hrunning]
    | inr hkilled =>
      obtain ⟨client, hvisit⟩ := hkilled
      exact absurd hvisit (hpipe client)
  | false =>
    cases hworker : action.worker with
    | some id => rw [(act_worker_moves hact hworker).terminated, hrunning]
    | none =>
      cases action with
      | signal =>
        obtain ⟨_, rfl⟩ := only_if_eq_some.mp hact
        exact hrunning
      | signal_flag =>
        obtain ⟨_, rfl⟩ := only_if_eq_some.mp hact
        exact hrunning
      | signal_write =>
        obtain ⟨_, rfl⟩ := only_if_eq_some.mp hact
        obtain ⟨pipe_bytes, hwrite⟩ := ufh_signal_handler_write_eq before
        rw [hwrite]
        exact hrunning
      | worker_lock | worker_test | worker_take | worker_process | worker_hand_back_lock | worker_hand_back
      | worker_close | worker_relock | worker_wait | worker_wake => cases hworker
      | _ => cases haction

theorem CanProceed.of_act (hrunning : state.terminated = false) (action : Action) (hact : state.act action = some after)
    (houtside : action.outside = false)
    (hselect : ∀ ready_read ready_write, action = .select ready_read ready_write → 0 < state.pipe_bytes)
    (hpipe : ∀ client, action ≠ .visit client .broken_pipe) : state.CanProceed :=
  ⟨action, houtside, hselect, after, step_eq_some.mpr ⟨hrunning, hact⟩, act_running hact hrunning hpipe⟩

theorem can_proceed_handler (hrunning : state.terminated = false) (hhandler : state.handler ≠ .idle) :
    state.CanProceed := by
  cases hposition : state.handler with
  | idle => exact absurd hposition hhandler
  | locked => exact .of_act hrunning .signal_flag (only_if_eq_some.mpr ⟨hposition, rfl⟩) rfl nofun nofun
  | flagged => exact .of_act hrunning .signal_write (only_if_eq_some.mpr ⟨hposition, rfl⟩) rfl nofun nofun

theorem can_proceed_worker (hrunning : state.terminated = false) (hhandler : state.handler = .idle)
    (hready : (state.workers id).ready = true) : state.CanProceed := by
  cases hposition : state.workers id with
  | loop =>
    exact .of_act hrunning (.worker_test id) (only_if_eq_some.mpr ⟨hposition, rfl⟩) rfl nofun nofun
  | take =>
    exact .of_act hrunning (.worker_take id) (only_if_eq_some.mpr ⟨hposition, rfl⟩) rfl nofun nofun
  | process client =>
    exact .of_act hrunning (.worker_process id client false) (only_if_eq_some.mpr ⟨hposition, rfl⟩) rfl nofun
      nofun
  | hand_back client =>
    exact .of_act hrunning (.worker_hand_back id client)
      (only_if_eq_some.mpr ⟨⟨hposition, hhandler⟩, rfl⟩) rfl nofun nofun
  | close client =>
    exact .of_act hrunning (.worker_close id client) (only_if_eq_some.mpr ⟨hposition, rfl⟩) rfl nofun nofun
  | returned =>
    exact .of_act hrunning (.worker_wait id) (only_if_eq_some.mpr ⟨Or.inl hposition, rfl⟩) rfl nofun nofun
  | raised =>
    exact .of_act hrunning (.worker_wait id) (only_if_eq_some.mpr ⟨Or.inr hposition, rfl⟩) rfl nofun nofun
  | _ =>
    rw [hposition] at hready
    cases hready

omit [CharBuffer Buf] in
/-- A call for a client that is ready can fail without ending the process. -/
theorem exists_io_failed (object : NetClient Buf) (read_fd_set write_fd_set : List Int) :
    ∃ result, object.io_possible read_fd_set write_fd_set result ∧ result ≠ .broken_pipe := by
  unfold NetClient.io_possible
  split
  · exact ⟨.no_call, rfl, nofun⟩
  · split
    · exact ⟨.receive_failed, trivial, nofun⟩
    · split
      · exact ⟨.send_failed, trivial, nofun⟩
      · exact ⟨.no_call, rfl, nofun⟩

omit [CharBuffer Buf] in
theorem init_failed_possible (state : State Buf) : state.init_possible sys.FD_NONE sys.FD_NONE sys.FD_NONE true := by
  refine ⟨?_, ?_, nofun⟩
  · intro fd hfd
    simp only [List.mem_cons, List.not_mem_nil, or_false, or_self] at hfd
    exact Or.inl hfd
  · simp

theorem can_proceed_selector (hrunning : state.terminated = false) (hhandler : state.handler = .idle)
    (hready : state.selector.ready = true) : state.CanProceed := by
  cases hposition : state.selector with
  | init =>
    exact .of_act hrunning (.init sys.FD_NONE sys.FD_NONE sys.FD_NONE true)
      (only_if_eq_some.mpr ⟨⟨hposition, init_failed_possible state⟩, rfl⟩) rfl nofun nofun
  | enable_wakeup =>
    exact .of_act hrunning .enable_wakeup (only_if_eq_some.mpr ⟨⟨hposition, hhandler⟩, rfl⟩) rfl nofun nofun
  | test_signal =>
    exact .of_act hrunning .test_signal (only_if_eq_some.mpr ⟨⟨hposition, hhandler⟩, rfl⟩) rfl nofun nofun
  | build => exact .of_act hrunning .build (only_if_eq_some.mpr ⟨hposition, rfl⟩) rfl nofun nofun
  | accept =>
    exact .of_act hrunning (.accept sys.FD_NONE) (only_if_eq_some.mpr ⟨⟨hposition, Or.inl rfl⟩, rfl⟩) rfl
      nofun nofun
  | accept_add client =>
    exact .of_act hrunning (.accept_add client) (only_if_eq_some.mpr ⟨hposition, rfl⟩) rfl nofun nofun
  | drain => exact .of_act hrunning .drain (only_if_eq_some.mpr ⟨hposition, rfl⟩) rfl nofun nofun
  | pass_first =>
    exact .of_act hrunning .pass_first (only_if_eq_some.mpr ⟨hposition, rfl⟩) rfl nofun nofun
  | pass cursor =>
    cases cursor with
    | none => exact .of_act hrunning .pass_end (only_if_eq_some.mpr ⟨hposition, rfl⟩) rfl nofun nofun
    | some client =>
      obtain ⟨result, hpossible, hpipe⟩ := exists_io_failed (state.connector.clients client) state.read_fd_set
        state.write_fd_set
      refine .of_act hrunning (.visit client result) (only_if_eq_some.mpr ⟨⟨hposition, hpossible⟩, rfl⟩) rfl
        nofun ?_
      intro other hvisit
      cases hvisit
      exact hpipe rfl
  | enqueue client next_client =>
    obtain ⟨target, hpossible⟩ : ∃ target, state.notify_possible target := by
      by_cases hasleep : ∃ id, state.workers id = .asleep
      · obtain ⟨id, hasleep⟩ := hasleep
        exact ⟨some id, hasleep⟩
      · exact ⟨none, fun id hid => hasleep ⟨id, hid⟩⟩
    exact .of_act hrunning (.enqueue client next_client target)
      (only_if_eq_some.mpr ⟨⟨hposition, hpossible⟩, rfl⟩) rfl nofun nofun
  | cleanup_socket =>
    exact .of_act hrunning .cleanup_socket (only_if_eq_some.mpr ⟨hposition, rfl⟩) rfl nofun nofun
  | cleanup_action =>
    exact .of_act hrunning .cleanup_action (only_if_eq_some.mpr ⟨hposition, rfl⟩) rfl nofun nofun
  | cleanup_disable =>
    exact .of_act hrunning .cleanup_disable (only_if_eq_some.mpr ⟨⟨hposition, hhandler⟩, rfl⟩) rfl nofun
      nofun
  | cleanup_signal =>
    exact .of_act hrunning .cleanup_signal (only_if_eq_some.mpr ⟨⟨hposition, hhandler⟩, rfl⟩) rfl nofun
      nofun
  | cleanup_com =>
    exact .of_act hrunning .cleanup_com (only_if_eq_some.mpr ⟨hposition, rfl⟩) rfl nofun nofun
  | stop => exact .of_act hrunning .stop (only_if_eq_some.mpr ⟨hposition, rfl⟩) rfl nofun nofun
  | _ =>
    rw [hposition] at hready
    cases hready

/-- Whoever owns `action_queue_lock` goes on and unlocks it. -/
theorem can_proceed_action_lock (hrunning : state.terminated = false) (hhandler : state.handler = .idle)
    (howned : state.LocksOwned) (hlocked : state.action_queue_lock ≠ none) : state.CanProceed := by
  obtain ⟨thread, howner⟩ := Option.ne_none_iff_exists'.mp hlocked
  have hinside := howned.action thread howner
  cases thread with
  | selector => exact can_proceed_selector hrunning hhandler (SelectorPosition.ready_of_action_section hinside)
  | worker id => exact can_proceed_worker hrunning hhandler (WorkerPosition.ready_of_section (Or.inl hinside))

/-- Whoever owns `com_queue_lock` goes on, or waits for the owner of `action_queue_lock`. -/
theorem can_proceed_com_lock (hrunning : state.terminated = false) (hhandler : state.handler = .idle)
    (howned : state.LocksOwned) (hlocked : state.com_queue_lock ≠ none) : state.CanProceed := by
  obtain ⟨thread, howner⟩ := Option.ne_none_iff_exists'.mp hlocked
  have hinside := howned.com thread howner
  cases thread with
  | worker id => exact can_proceed_worker hrunning hhandler (WorkerPosition.ready_of_section (Or.inr hinside))
  | selector =>
    obtain hready | ⟨client, next_client, hposition⟩ := SelectorPosition.ready_of_com_section hinside
    · exact can_proceed_selector hrunning hhandler hready
    · by_cases hfree : state.action_queue_lock = none
      · exact .of_act hrunning (.enqueue_lock client next_client)
          (only_if_eq_some.mpr ⟨⟨hposition, hfree⟩, rfl⟩) rfl nofun nofun
      · exact can_proceed_action_lock hrunning hhandler howned hfree

/-- With both locks free, a worker that cannot go on is asleep or has ended. -/
theorem waiting_worker (hrunning : state.terminated = false) (hhandler : state.handler = .idle)
    (hcom : state.com_queue_lock = none) (haction : state.action_queue_lock = none) (hstuck : ¬ state.CanProceed)
    (id : WorkerId) : state.workers id = .asleep ∨ state.workers id = .exited := by
  have hready : ¬ (state.workers id).ready = true := fun h => hstuck (can_proceed_worker hrunning hhandler h)
  cases hposition : state.workers id with
  | asleep => exact Or.inl rfl
  | exited => exact Or.inr rfl
  | locking =>
    exact absurd (.of_act hrunning (.worker_lock id) (only_if_eq_some.mpr ⟨⟨hposition, haction⟩, rfl⟩) rfl nofun
      nofun) hstuck
  | relock =>
    exact absurd (.of_act hrunning (.worker_relock id) (only_if_eq_some.mpr ⟨⟨hposition, haction⟩, rfl⟩) rfl
      nofun nofun) hstuck
  | hand_back_lock client =>
    exact absurd (.of_act hrunning (.worker_hand_back_lock id client)
      (only_if_eq_some.mpr ⟨⟨hposition, hcom⟩, rfl⟩) rfl nofun nofun) hstuck
  | _ =>
    rw [hposition] at hready
    exact absurd rfl hready

/-- With both locks free, a selector that cannot go on is in `select()`, waits for the workers, or has ended. -/
theorem waiting_selector (hrunning : state.terminated = false) (hhandler : state.handler = .idle)
    (hcom : state.com_queue_lock = none) (haction : state.action_queue_lock = none) (hstuck : ¬ state.CanProceed) :
    state.selector = .select ∨ state.selector = .join ∨ state.selector = .finished := by
  have hready : ¬ state.selector.ready = true := fun h => hstuck (can_proceed_selector hrunning hhandler h)
  cases hposition : state.selector with
  | select => exact Or.inl rfl
  | join => exact Or.inr (Or.inl rfl)
  | finished => exact Or.inr (Or.inr rfl)
  | build_lock =>
    exact absurd (.of_act hrunning .build_lock (only_if_eq_some.mpr ⟨⟨hposition, hcom⟩, rfl⟩) rfl nofun
      nofun) hstuck
  | accept_lock client =>
    exact absurd (.of_act hrunning (.accept_lock client) (only_if_eq_some.mpr ⟨⟨hposition, hcom⟩, rfl⟩) rfl
      nofun nofun) hstuck
  | pass_lock =>
    exact absurd (.of_act hrunning .pass_lock (only_if_eq_some.mpr ⟨⟨hposition, hcom⟩, rfl⟩) rfl nofun
      nofun) hstuck
  | enqueue_lock client next_client =>
    exact absurd (.of_act hrunning (.enqueue_lock client next_client)
      (only_if_eq_some.mpr ⟨⟨hposition, haction⟩, rfl⟩) rfl nofun nofun) hstuck
  | cleanup_action_lock =>
    exact absurd (.of_act hrunning .cleanup_action_lock
      (only_if_eq_some.mpr ⟨⟨hposition, haction⟩, rfl⟩) rfl nofun nofun) hstuck
  | cleanup_com_lock =>
    exact absurd (.of_act hrunning .cleanup_com_lock (only_if_eq_some.mpr ⟨⟨hposition, hcom⟩, rfl⟩) rfl nofun
      nofun) hstuck
  | stop_lock =>
    exact absurd (.of_act hrunning .stop_lock (only_if_eq_some.mpr ⟨⟨hposition, haction⟩, rfl⟩) rfl nofun
      nofun) hstuck
  | _ =>
    rw [hposition] at hready
    exact absurd rfl hready

theorem can_proceed_select (hrunning : state.terminated = false) (hposition : state.selector = .select)
    (htrigger : state.trigger_read ∈ state.read_fd_set) (hbytes : 0 < state.pipe_bytes) : state.CanProceed := by
  have hpossible : state.select_possible [state.trigger_read] [] := by
    refine ⟨?_, nofun, Or.inl nofun, ?_⟩
    · simpa using htrigger
    · simp [hbytes]
  exact .of_act hrunning (.select [state.trigger_read] [])
    (only_if_eq_some.mpr ⟨⟨hposition, hpossible⟩, rfl⟩) rfl (fun _ _ _ => hbytes) nofun

theorem idle_or_ended (hrunning : state.terminated = false) (howned : state.LocksOwned) (hstanding : state.Standing)
    (hstuck : ¬ state.CanProceed) : state.Idle ∨ state.Ended := by
  have hhandler : state.handler = .idle := by
    by_contra hbusy
    exact hstuck (can_proceed_handler hrunning hbusy)
  have haction : state.action_queue_lock = none := by
    by_contra hlocked
    exact hstuck (can_proceed_action_lock hrunning hhandler howned hlocked)
  have hcom : state.com_queue_lock = none := by
    by_contra hlocked
    exact hstuck (can_proceed_com_lock hrunning hhandler howned hlocked)
  have hworkers := waiting_worker hrunning hhandler hcom haction hstuck
  obtain hposition | hposition | hposition := waiting_selector hrunning hhandler hcom haction hstuck
  · left
    refine ⟨hposition, ?_, hhandler, fun id => (hworkers id).resolve_right ?_⟩
    · by_contra hbytes
      exact hstuck (can_proceed_select hrunning hposition (hstanding.trigger hposition) (by omega))
    · exact hstanding.running (by rw [hstanding.stopping, hposition]; rfl) id
  · have hall : ∀ id, state.workers id = .exited := fun id =>
      (hworkers id).resolve_left (hstanding.awake (by rw [hstanding.stopping, hposition]; rfl) id)
    exact absurd (.of_act hrunning .join (only_if_eq_some.mpr ⟨⟨hposition, hall⟩, rfl⟩) rfl nofun nofun)
      hstuck
  · exact Or.inr ⟨hposition, hhandler, hstanding.finished hposition⟩

/-- Where the selector and the workers only take steps that come from outside, and the signal handler does
not run, the server cannot proceed. -/
theorem stuck_of_positions (hhandler : state.handler = .idle)
    (hselector : ∀ action next, state.selector.Next action next → action.outside = false →
      ∃ ready_read ready_write, action = .select ready_read ready_write ∧ state.pipe_bytes = 0)
    (hworkers : ∀ id action next, (state.workers id).Next id action next → action.outside = true) :
    ¬ state.CanProceed := by
  rintro ⟨action, houtside, hselect, after, hstep, _⟩
  have hact := (step_eq_some.mp hstep).2
  cases hworker : action.worker with
  | some id =>
    rw [hworkers id action _ (act_worker_moves hact hworker).next] at houtside
    cases houtside
  | none =>
    cases haction : action.by_selector with
    | true =>
      obtain ⟨ready_read, ready_write, hreturned, hempty⟩ := hselector action _ (act_next hact haction) houtside
      have hbytes := hselect ready_read ready_write hreturned
      omega
    | false =>
      cases action with
      | signal => cases houtside
      | signal_flag =>
        obtain ⟨hlocked, _⟩ := only_if_eq_some.mp hact
        rw [hhandler] at hlocked
        cases hlocked
      | signal_write =>
        obtain ⟨hflagged, _⟩ := only_if_eq_some.mp hact
        rw [hhandler] at hflagged
        cases hflagged
      | worker_lock | worker_test | worker_take | worker_process | worker_hand_back_lock | worker_hand_back
      | worker_close | worker_relock | worker_wait | worker_wake => cases hworker
      | _ => cases haction

theorem Idle.stuck (h : state.Idle) : ¬ state.CanProceed := by
  apply stuck_of_positions h.handler
  · intro action next hnext houtside
    rw [h.selector] at hnext
    cases hnext with
    | interrupted => cases houtside
    | failed => cases houtside
    | connection_ready ready_read ready_write => exact ⟨ready_read, ready_write, rfl, h.pipe_bytes⟩
    | trigger_ready ready_read ready_write => exact ⟨ready_read, ready_write, rfl, h.pipe_bytes⟩
    | clients_ready ready_read ready_write => exact ⟨ready_read, ready_write, rfl, h.pipe_bytes⟩
  · intro id action next hnext
    rw [h.workers id] at hnext
    cases hnext
    rfl

theorem Ended.stuck (h : state.Ended) : ¬ state.CanProceed := by
  apply stuck_of_positions h.handler
  · intro action next hnext _
    rw [h.selector] at hnext
    cases hnext
  · intro id action next hnext
    rw [h.workers id] at hnext
    cases hnext

/-- The server never gets stuck: it stops only where it waits for its peers with all workers asleep, or
after the end of all threads. -/
theorem stuck_iff_idle_or_ended (h : state.Reachable) (hrunning : state.terminated = false) :
    ¬ state.CanProceed ↔ state.Idle ∨ state.Ended := by
  constructor
  · exact idle_or_ended hrunning (Reachable.locks_owned h) (Reachable.standing h)
  · rintro (hidle | hended)
    · exact hidle.stuck
    · exact hended.stuck

/-- Everything that a connection has asked for has been answered, or its peer does not take the rest of the
answer. -/
def Answered (state : State Buf) (client : ClientPtr) : Prop :=
  (state.connector.clients client).io_state = .READ ∧
      (state.connector.clients client).socket_fd ∈ state.read_fd_set ∧
      (∀ success_flag, (state.connector.record client).dialogue =
        dialogue success_flag (framing.messages next_message (state.connector.record client).received)) ∨
    (state.connector.clients client).io_state = .WRITE ∧
      (state.connector.clients client).socket_fd ∈ state.write_fd_set ∧
      ∃ success_flag owed, owed ≠ [] ∧ (state.connector.record client).dialogue ++ owed =
        dialogue success_flag (framing.messages next_message (state.connector.record client).received)

theorem reply_owed (reply : protocol.MsgType) {count : Nat} (hcount : count < MsgHeader.HEADER_SIZE) :
    (reply_events reply).drop count ≠ [] := by
  intro hnone
  rw [List.drop_eq_nil_iff] at hnone
  have hlength : (reply_events reply).length = MsgHeader.HEADER_SIZE := by
    cases reply with
    | _ => rfl
  omega

theorem Invariant.answered {strict : Prop} (h : Invariant strict state place stamp) (hqueued : place client = .queued)
    (hwatches : state.Watches client) : state.Answered client := by
  have hrecorded := (h.consistent.sessions.recorded (state.connector.connection client)).messages
  have hsession := h.consistent.sessions.session client
  rw [hqueued] at hsession
  obtain ⟨begun, hawaits⟩ | ⟨reply, count, success_flag, howes⟩ := hsession
  · left
    have hread := hawaits.receiving.io_state
    refine ⟨hread, hwatches.1 hread, fun success_flag => ?_⟩
    rw [← hawaits.recorded.messages]
    exact hawaits.dialogue success_flag
  · right
    have hwrite := howes.replying.io_state
    refine ⟨hwrite, hwatches.2 hwrite, success_flag, (reply_events reply).drop count,
      reply_owed reply howes.replying.unsent, ?_⟩
    rw [← howes.recorded.messages]
    exact howes.dialogue

/-- The server is idle only after it has done all that it was asked for: no stop signal waits, no client is
left on `action_queue` or in the hands of a thread, and every connection is answered and watched. -/
theorem idle_answers_all [LawfulCharBuffer Buf] (h : state.ReachableWhere State.Orderly) (hidle : state.Idle) :
    state.signal_flag = false ∧ state.com_queue_lock = none ∧ state.action_queue_lock = none ∧
      state.connector.action_clients = [] ∧
      ∀ client, client ∉ state.connector.client_pool.free_objects →
        client ∈ state.com_clients ∧ state.Answered client := by
  obtain ⟨place, stamp, hinvariant⟩ := ReachableWhere.sound (fun _ _ hcondition => hcondition) h
  have hservice := ReachableWhere.service (h.weaken fun _ _ horderly => horderly.unraised)
  have howned := Reachable.locks_owned h.reaches
  have hsection : ∀ thread, state.in_com_section thread = false ∧ state.in_action_section thread = false := by
    intro thread
    cases thread with
    | selector => simp only [in_com_section, in_action_section, hidle.selector]; exact ⟨rfl, rfl⟩
    | worker id => simp only [in_com_section, in_action_section, hidle.workers id]; exact ⟨rfl, rfl⟩
  have hpending : state.connector.action_clients = [] := by
    have hserved := hservice.served
    by_contra hsome
    have hpositive := List.length_pos_of_ne_nil hsome
    obtain ⟨id, havailable⟩ := counting.exists_of_count_pos (lt_of_lt_of_le hpositive hserved)
    rw [hidle.workers id] at havailable
    cases havailable
  have hheld : ∀ thread, state.holding thread = none := by
    intro thread
    cases thread with
    | selector => exact congrArg SelectorPosition.holding hidle.selector
    | worker id => exact congrArg WorkerPosition.holding (hidle.workers id)
  refine ⟨?_, ?_, ?_, hpending, fun client hused => ?_⟩
  · by_contra hflag
    have halert := Reachable.alert h.reaches (by simpa using hflag) (by simp [hidle.handler])
      (by rw [hidle.selector]; rfl)
    have hempty := hidle.pipe_bytes
    omega
  · by_contra hlocked
    obtain ⟨thread, howner⟩ := Option.ne_none_iff_exists'.mp hlocked
    have hinside := howned.com thread howner
    rw [(hsection thread).1] at hinside
    cases hinside
  · by_contra hlocked
    obtain ⟨thread, howner⟩ := Option.ne_none_iff_exists'.mp hlocked
    have hinside := howned.action thread howner
    rw [(hsection thread).2] at hinside
    cases hinside
  · have hqueued : place client = .queued := by
      cases hplace : place client with
      | queued => rfl
      | free => exact absurd ((hinvariant.consistent.pooled.free_iff client).mpr hplace) hused
      | pending =>
        have hmem := (hinvariant.consistent.linked.represents_actions.2 client).mpr hplace
        rw [hpending] at hmem
        cases hmem
      | held thread role =>
        have hholds := (hinvariant.holding thread client role).mpr hplace
        rw [hheld thread] at hholds
        cases hholds
      | lost => exact absurd hplace ((hinvariant.complete trivial).not_lost client)
    have hmem := (hinvariant.represents_com.2 client).mpr hqueued
    have hempty := hidle.pipe_bytes
    have hwatched := (Reachable.watched h.reaches hidle.selector).resolve_left (by omega)
    exact ⟨hmem, hinvariant.answered hqueued (hwatched client hmem)⟩

/-- All workers find `action_queue` empty and go to sleep. -/
def sleep (id : WorkerId) : List Action := [.worker_lock id, .worker_test id, .worker_take id, .worker_wait id]

/-- The server waits for the rest of a message, and for a peer that does not take its reply. -/
def idle_run : List Action :=
  Action.startup ++ Action.accept_round 6 23 [] ++ Action.accept_round 7 22 [23] ++
    Action.round [6, 7] [] [] ([.visit 23 (.received [0, 0, 0])] ++ Action.complete 22 none [0, 0, 0, 4]) ++
    Action.work 0 22 false ++ [.worker_hand_back_lock 0 22, .worker_hand_back 0 22, .worker_relock 0, .worker_take 0,
      .worker_wait 0] ++
    (List.finRange MAX_CONNECTIONS).tail.flatMap sleep ++
    Action.round [4] [] [.drain, .drain] (Action.skip [23, 22]) ++ [.test_signal, .build_lock, .build]

theorem idle_answers_all_waiting : ∃ state : State BoundedBuffer, state.com_clients = [23, 22] ∧
    (state.connector.clients 23).io_state = .READ ∧ (state.connector.clients 22).io_state = .WRITE ∧
    ∀ client ∈ [23, 22], state.Answered client := by
  obtain ⟨state, hreached, hfound⟩ := exists_reachesFromWhere_of_runWhere
    (by decide +kernel : ((runWhere State.step (fun state action => state.Orderly action)
      (State.initial BoundedBuffer (.filled 0xA5)) idle_run).any fun state =>
        (state.com_clients = [23, 22] ∧ (state.connector.clients 23).io_state = .READ ∧
          (state.connector.clients 22).io_state = .WRITE ∧
          ∀ client ∈ [23, 22], client ∉ state.connector.client_pool.free_objects) ∧
        state.selector = .select ∧ state.pipe_bytes = 0 ∧ state.handler = .idle ∧
          ∀ id, state.workers id = .asleep) = true)
  obtain ⟨⟨hqueued, hread, hwrite, hused⟩, hposition, hempty, hhandler, hasleep⟩ := of_decide_eq_true hfound
  have horderly : state.ReachableWhere State.Orderly := hreached.weaken (fun _ _ hguard => of_decide_eq_true hguard)
  obtain ⟨_, _, _, _, hall⟩ := idle_answers_all horderly ⟨hposition, hempty, hhandler, hasleep⟩
  exact ⟨state, hqueued, hread, hwrite, fun client hclient => (hall client (hused client hclient)).2⟩

theorem stuck_while_idle : ∃ state : State BoundedBuffer, state.com_clients = [23, 22] ∧ ¬ state.CanProceed := by
  obtain ⟨state, hreached, hfound⟩ := exists_reachesFrom_of_run
    (by decide +kernel : ((run State.step (State.initial BoundedBuffer (.filled 0xA5)) idle_run).any fun state =>
      (state.com_clients = [23, 22] ∧ state.terminated = false) ∧
        state.selector = .select ∧ state.pipe_bytes = 0 ∧ state.handler = .idle ∧
        ∀ id, state.workers id = .asleep) = true)
  obtain ⟨⟨hqueued, hrunning⟩, hposition, hempty, hhandler, hasleep⟩ := of_decide_eq_true hfound
  exact ⟨state, hqueued, (stuck_iff_idle_or_ended hreached hrunning).mpr
    (Or.inl ⟨hposition, hempty, hhandler, hasleep⟩)⟩

end State

end ufh
