import UniversalFencingHub.Threads.ActionLock
import UniversalFencingHub.Threads.Moves

open transition

namespace ufh

/-- A lock that is locked is owned by a thread inside one of its sections. -/
def Owned (owner : Option Thread) (inside : Thread → Bool) : Prop :=
  ∀ thread, owner = some thread → inside thread = true

theorem Owned.none (inside : Thread → Bool) : Owned none inside :=
  fun _ howner => by cases howner

theorem Owned.acquired {inside : Thread → Bool} {thread : Thread} (hinside : inside thread = true) :
    Owned (some thread) inside := by
  intro other hother
  rwa [← Option.some.inj hother]

theorem SelectorPosition.Next.keeps_com_section {position next : SelectorPosition} {action : Action}
    (h : position.Next action next) (haction : action.on_com_lock = false) (hinside : position.in_com_section = true) :
    next.in_com_section = true := by
  cases h with
  | built => cases haction
  | not_built => cases haction
  | added => cases haction
  | added_pass => cases haction
  | passed => cases haction
  | com_closed => cases haction
  | com_emptied => cases haction
  | killed client result => rfl
  | visited client result next_client => rfl
  | completed client result next_client => rfl
  | first client => rfl
  | enqueue_locked client next_client => rfl
  | enqueued client next_client target => rfl
  | disabled => rfl
  | signal_sent => rfl
  | _ => cases hinside

theorem WorkerPosition.Next.keeps_com_section {id : WorkerId} {position next : WorkerPosition} {action : Action}
    (h : position.Next id action next) (haction : action.on_com_lock = false)
    (hinside : position.in_com_section = true) :
    next.in_com_section = true := by
  cases h with
  | handed_back => cases haction
  | _ => cases hinside

theorem SelectorPosition.Next.keeps_action_section {position next : SelectorPosition} {action : Action}
    (h : position.Next action next) (haction : action.on_action_lock = false)
    (hinside : position.in_action_section = true) : next.in_action_section = true := by
  cases h with
  | enqueued => cases haction
  | action_closed => cases haction
  | action_emptied => cases haction
  | stopped => cases haction
  | _ => cases hinside

theorem WorkerPosition.Next.keeps_action_section {id : WorkerId} {position next : WorkerPosition} {action : Action}
    (h : position.Next id action next) (haction : action.on_action_lock = false)
    (hinside : position.in_action_section = true) : next.in_action_section = true := by
  cases h with
  | stopped => cases haction
  | not_stopped => cases haction
  | taken => cases haction
  | found_empty => cases haction
  | waits => cases haction
  | exits => cases haction
  | _ => cases hinside

namespace State

variable {Buf : Type} {before after state : State Buf} {action : Action}

/-- Both locks are owned by threads that will unlock them. -/
structure LocksOwned (state : State Buf) : Prop where
  com : Owned state.com_queue_lock state.in_com_section
  action : Owned state.action_queue_lock state.in_action_section

variable [CharBuffer Buf]

/-- A property of positions that the thread taking a step keeps is kept by all threads,
as those that are woken up do not have it. -/
theorem sections_kept {selector_inside : SelectorPosition → Bool} {worker_inside : WorkerPosition → Bool}
    (hact : before.act action = some after)
    (hselector : ∀ next, before.selector.Next action next → selector_inside before.selector = true →
      selector_inside next = true)
    (hworker : ∀ id next, (before.workers id).Next id action next → worker_inside (before.workers id) = true →
      worker_inside next = true)
    (hasleep : worker_inside .asleep = false) :
    (selector_inside before.selector = true → selector_inside after.selector = true) ∧
      ∀ id, worker_inside (before.workers id) = true → worker_inside (after.workers id) = true := by
  constructor
  · intro hinside
    cases haction : action.by_selector with
    | true => exact hselector _ (act_next hact haction) hinside
    | false =>
      rw [(act_aside hact haction).selector]
      exact hinside
  · intro id hinside
    cases haction : action.worker with
    | none =>
      cases act_workers hact haction id with
      | inl hsame =>
        rw [hsame]
        exact hinside
      | inr hwoken =>
        rw [hwoken, hasleep] at hinside
        cases hinside
    | some other =>
      have hmoves := act_worker_moves hact haction
      by_cases hsame : id = other
      · subst hsame
        exact hworker id _ hmoves.next hinside
      · rw [hmoves.workers, Function.update_of_ne hsame]
        exact hinside

/-- The other steps leave `com_queue_lock` alone. -/
theorem act_off_com_lock (hact : before.act action = some after) (haction : action.on_com_lock = false) :
    after.com_queue_lock = before.com_queue_lock := by
  cases action with
  | accept fd =>
    obtain ⟨_, rfl⟩ := only_if_eq_some.mp hact
    unfold State.accept
    split <;> rfl
  | drain =>
    obtain ⟨_, rfl⟩ := only_if_eq_some.mp hact
    unfold State.drain
    split <;> rfl
  | visit client result =>
    obtain ⟨_, rfl⟩ := only_if_eq_some.mp hact
    unfold State.visit
    split <;> rfl
  | enqueue client next_client target =>
    obtain ⟨_, rfl⟩ := only_if_eq_some.mp hact
    cases target <;> rfl
  | cleanup_action =>
    obtain ⟨_, rfl⟩ := only_if_eq_some.mp hact
    unfold State.cleanup_action
    split <;> rfl
  | worker_test id =>
    obtain ⟨_, rfl⟩ := only_if_eq_some.mp hact
    unfold State.test_stop
    split <;> rfl
  | worker_take id =>
    obtain ⟨_, rfl⟩ := only_if_eq_some.mp hact
    unfold State.take
    split <;> rfl
  | worker_process id client success_flag =>
    obtain ⟨_, rfl⟩ := only_if_eq_some.mp hact
    unfold State.process
    simp only
    split <;> rfl
  | signal_write =>
    obtain ⟨_, rfl⟩ := only_if_eq_some.mp hact
    obtain ⟨pipe_bytes, hwrite⟩ := ufh_signal_handler_write_eq before
    rw [hwrite]
  | build_lock | build | accept_lock | accept_add | pass_lock | pass_end | cleanup_com_lock | cleanup_com
  | worker_hand_back_lock | worker_hand_back => cases haction
  | _ =>
    obtain ⟨_, rfl⟩ := only_if_eq_some.mp hact
    rfl

/-- The other steps leave `action_queue_lock` alone. -/
theorem act_off_action_lock (hact : before.act action = some after) (haction : action.on_action_lock = false) :
    after.action_queue_lock = before.action_queue_lock := by
  cases hpool : action.on_pool with
  | false => exact (act_off_pool hact hpool).2.2.1
  | true =>
    cases action with
    | worker_process id client success_flag =>
      obtain ⟨_, rfl⟩ := only_if_eq_some.mp hact
      unfold State.process
      simp only
      split <;> rfl
    | worker_hand_back_lock id client =>
      obtain ⟨_, rfl⟩ := only_if_eq_some.mp hact
      rfl
    | worker_hand_back id client =>
      obtain ⟨_, rfl⟩ := only_if_eq_some.mp hact
      unfold State.hand_back State.wakeup_selector
      simp only
      split
      · rfl
      · split <;> rfl
    | worker_close id client =>
      obtain ⟨_, rfl⟩ := only_if_eq_some.mp hact
      rfl
    | worker_wake id =>
      obtain ⟨_, rfl⟩ := only_if_eq_some.mp hact
      rfl
    | enqueue_lock | enqueue | cleanup_action_lock | cleanup_action | stop_lock | stop | worker_lock | worker_test
    | worker_take | worker_relock | worker_wait => cases haction
    | _ => cases hpool

theorem com_owned_kept (h : Owned before.com_queue_lock before.in_com_section) (hact : before.act action = some after)
    (haction : action.on_com_lock = false) : Owned after.com_queue_lock after.in_com_section := by
  obtain ⟨hselector, hworkers⟩ := sections_kept hact (fun _ hnext => hnext.keeps_com_section haction)
    (fun _ _ hnext => hnext.keeps_com_section haction) rfl
  rw [act_off_com_lock hact haction]
  intro thread howner
  have hinside := h thread howner
  cases thread with
  | selector => exact hselector hinside
  | worker id => exact hworkers id hinside

theorem action_owned_kept (h : Owned before.action_queue_lock before.in_action_section)
    (hact : before.act action = some after) (haction : action.on_action_lock = false) :
    Owned after.action_queue_lock after.in_action_section := by
  obtain ⟨hselector, hworkers⟩ := sections_kept hact (fun _ hnext => hnext.keeps_action_section haction)
    (fun _ _ hnext => hnext.keeps_action_section haction) rfl
  rw [act_off_action_lock hact haction]
  intro thread howner
  have hinside := h thread howner
  cases thread with
  | selector => exact hselector hinside
  | worker id => exact hworkers id hinside

theorem com_owned_act (h : Owned before.com_queue_lock before.in_com_section) (hact : before.act action = some after) :
    Owned after.com_queue_lock after.in_com_section := by
  cases haction : action.on_com_lock with
  | false => exact com_owned_kept h hact haction
  | true =>
    cases action with
    | build_lock =>
      obtain ⟨_, rfl⟩ := only_if_eq_some.mp hact
      exact .acquired rfl
    | accept_lock client =>
      obtain ⟨_, rfl⟩ := only_if_eq_some.mp hact
      exact .acquired rfl
    | pass_lock =>
      obtain ⟨_, rfl⟩ := only_if_eq_some.mp hact
      exact .acquired rfl
    | cleanup_com_lock =>
      obtain ⟨_, rfl⟩ := only_if_eq_some.mp hact
      exact .acquired rfl
    | worker_hand_back_lock id client =>
      obtain ⟨_, rfl⟩ := only_if_eq_some.mp hact
      apply Owned.acquired
      change (Function.update before.workers id (.hand_back client) id).in_com_section = true
      rw [Function.update_self]
      rfl
    | build =>
      obtain ⟨_, rfl⟩ := only_if_eq_some.mp hact
      exact .none _
    | accept_add client =>
      obtain ⟨_, rfl⟩ := only_if_eq_some.mp hact
      exact .none _
    | pass_end =>
      obtain ⟨_, rfl⟩ := only_if_eq_some.mp hact
      exact .none _
    | cleanup_com =>
      obtain ⟨_, rfl⟩ := only_if_eq_some.mp hact
      unfold State.cleanup_com
      split
      · exact h
      · exact .none _
    | worker_hand_back id client =>
      obtain ⟨_, rfl⟩ := only_if_eq_some.mp hact
      unfold State.hand_back
      simp only
      split
      · exact .none _
      · exact .none _
    | _ => cases haction

theorem action_owned_act (h : Owned before.action_queue_lock before.in_action_section)
    (hact : before.act action = some after) : Owned after.action_queue_lock after.in_action_section := by
  have hacquired : ∀ (state : State Buf) (id : WorkerId) (position : WorkerPosition),
      position.in_action_section = true → (state.set_worker id position).in_action_section (.worker id) = true := by
    intro state id position hposition
    change (Function.update state.workers id position id).in_action_section = true
    rwa [Function.update_self]
  cases haction : action.on_action_lock with
  | false => exact action_owned_kept h hact haction
  | true =>
    cases action with
    | enqueue_lock client next_client =>
      obtain ⟨_, rfl⟩ := only_if_eq_some.mp hact
      exact .acquired rfl
    | cleanup_action_lock =>
      obtain ⟨_, rfl⟩ := only_if_eq_some.mp hact
      exact .acquired rfl
    | stop_lock =>
      obtain ⟨_, rfl⟩ := only_if_eq_some.mp hact
      exact .acquired rfl
    | worker_lock id =>
      obtain ⟨_, rfl⟩ := only_if_eq_some.mp hact
      exact .acquired (hacquired before id .loop rfl)
    | worker_relock id =>
      obtain ⟨_, rfl⟩ := only_if_eq_some.mp hact
      exact .acquired (hacquired before id .take rfl)
    | enqueue client next_client target =>
      obtain ⟨_, rfl⟩ := only_if_eq_some.mp hact
      exact .none _
    | cleanup_action =>
      obtain ⟨_, rfl⟩ := only_if_eq_some.mp hact
      unfold State.cleanup_action
      split
      · exact h
      · exact .none _
    | stop =>
      obtain ⟨_, rfl⟩ := only_if_eq_some.mp hact
      exact .none _
    | worker_test id =>
      obtain ⟨hposition, rfl⟩ := only_if_eq_some.mp hact
      unfold State.test_stop
      split
      · exact .none _
      · intro thread howner
        have hinside := h thread howner
        cases thread with
        | selector => exact hinside
        | worker other =>
          by_cases hsame : other = id
          · subst hsame
            exact hacquired before other .take rfl
          · change (Function.update before.workers id .take other).in_action_section = true
            rw [Function.update_of_ne hsame]
            exact hinside
    | worker_take id =>
      obtain ⟨hposition, rfl⟩ := only_if_eq_some.mp hact
      unfold State.take
      split
      · exact .none _
      · intro thread howner
        have hinside := h thread howner
        cases thread with
        | selector => exact hinside
        | worker other =>
          by_cases hsame : other = id
          · subst hsame
            exact hacquired before other .returned rfl
          · change (Function.update before.workers id .returned other).in_action_section = true
            rw [Function.update_of_ne hsame]
            exact hinside
    | worker_wait id =>
      obtain ⟨_, rfl⟩ := only_if_eq_some.mp hact
      exact .none _
    | _ => cases haction

theorem LocksOwned.act (h : before.LocksOwned) (hact : before.act action = some after) : after.LocksOwned :=
  ⟨com_owned_act h.com hact, action_owned_act h.action hact⟩

/-- A locked lock is owned by a thread inside one of its sections, in every state. -/
theorem Reachable.locks_owned (h : state.Reachable) : state.LocksOwned := by
  apply ReachesFrom.invariant h
  · exact fun memory => ⟨.none _, .none _⟩
  · intro before action after hbefore hstep
    exact hbefore.act (step_eq_some.mp hstep).2

end State

end ufh
