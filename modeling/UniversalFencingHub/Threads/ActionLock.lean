import UniversalFencingHub.Threads.Effects

open transition

namespace ufh

/-- The positions inside the sections that `action_queue_lock` protects. -/
def SelectorPosition.in_action_section : SelectorPosition → Bool
  | .enqueue _ _ => true
  | .cleanup_action => true
  | .stop => true
  | _ => false

def WorkerPosition.in_action_section : WorkerPosition → Bool
  | .loop => true
  | .take => true
  | .returned => true
  | _ => false

def State.in_action_section {Buf : Type} (state : State Buf) : Thread → Bool
  | .selector => state.selector.in_action_section
  | .worker id => (state.workers id).in_action_section

theorem SelectorPosition.Next.in_action_section {position next : SelectorPosition} {action : Action}
    (h : position.Next action next) (haction : action.on_pool = false) (hinside : next.in_action_section = true) :
    position.in_action_section = true := by
  cases h with
  | enqueue_locked => cases haction
  | action_locked => cases haction
  | action_closed => cases haction
  | stop_locked => cases haction
  | _ => cases hinside

/-- The client whose message a step processes. -/
def Action.processed : Action → Option ClientPtr
  | .worker_process _ client _ => some client
  | _ => none

namespace State

variable {Buf : Type} {before after state : State Buf} {id : WorkerId} {position : WorkerPosition} {action : Action}

/-- The steps in which message processing raises no exception. -/
def Unraised (state : State Buf) (action : Action) : Prop :=
  ∀ client ∈ action.processed, (state.connector.clients client).message.response ≠ .abandon

instance (state : State Buf) (action : Action) : Decidable (state.Unraised action) :=
  inferInstanceAs (Decidable (∀ client ∈ action.processed,
      (state.connector.clients client).message.response ≠ .abandon))

/-- A thread inside a section of `action_queue_lock` owns the lock. A worker that has
caught an exception would not. -/
structure ActionLock (state : State Buf) : Prop where
  lock : Exclusive state.action_queue_lock state.in_action_section
  unraised : ∀ id, state.workers id ≠ .raised

theorem in_action_section_selector (hworkers : ∀ id, (after.workers id).in_action_section = true →
    (before.workers id).in_action_section = true) (other : Thread) (hother : other ≠ .selector)
    (hinside : after.in_action_section other = true) : before.in_action_section other = true := by
  cases other with
  | selector => exact absurd rfl hother
  | worker id => exact hworkers id hinside

theorem in_action_section_worker (hselector : after.selector = before.selector)
    (hworkers : after.workers = Function.update before.workers id position) (other : Thread)
    (hother : other ≠ .worker id) (hinside : after.in_action_section other = true) :
    before.in_action_section other = true := by
  cases other with
  | selector =>
    change before.selector.in_action_section = true
    rw [← hselector]
    exact hinside
  | worker other =>
    have hne : other ≠ id := fun heq => hother (congrArg Thread.worker heq)
    have hposition : (after.workers other).in_action_section = true := hinside
    rw [hworkers, Function.update_of_ne hne] at hposition
    exact hposition

theorem unraised_update (h : ∀ id, before.workers id ≠ .raised)
    (hworkers : after.workers = Function.update before.workers id position) (hposition : position ≠ .raised)
    (other : WorkerId) : after.workers other ≠ .raised := by
  rw [hworkers]
  by_cases hsame : other = id
  · rw [hsame, Function.update_self]
    exact hposition
  · rw [Function.update_of_ne hsame]
    exact h other

/-- A worker moves without locking or unlocking `action_queue_lock`. -/
theorem ActionLock.worker_keeps (h : before.ActionLock) (hselector : after.selector = before.selector)
    (hworkers : after.workers = Function.update before.workers id position)
    (hlock : after.action_queue_lock = before.action_queue_lock)
    (hsection : position.in_action_section = true → (before.workers id).in_action_section = true)
    (hposition : position ≠ .raised) : after.ActionLock := by
  refine ⟨?_, unraised_update h.unraised hworkers hposition⟩
  rw [hlock]
  apply h.lock.keep
  intro thread hinside
  by_cases hsame : thread = .worker id
  · rw [hsame] at hinside ⊢
    apply hsection
    have hmoved : (after.workers id).in_action_section = true := hinside
    rwa [hworkers, Function.update_self] at hmoved
  · exact in_action_section_worker hselector hworkers thread hsame hinside

theorem ActionLock.worker_acquires (h : before.ActionLock) (hselector : after.selector = before.selector)
    (hworkers : after.workers = Function.update before.workers id position)
    (hfree : before.action_queue_lock = none) (hlock : after.action_queue_lock = some (.worker id))
    (hposition : position ≠ .raised) : after.ActionLock := by
  refine ⟨?_, unraised_update h.unraised hworkers hposition⟩
  have hbefore := h.lock
  rw [hfree] at hbefore
  rw [hlock]
  exact hbefore.acquire (in_action_section_worker hselector hworkers)

theorem ActionLock.worker_releases (h : before.ActionLock) (hselector : after.selector = before.selector)
    (hworkers : after.workers = Function.update before.workers id position)
    (hinside : (before.workers id).in_action_section = true) (hlock : after.action_queue_lock = none)
    (hleft : position.in_action_section = false) (hposition : position ≠ .raised) : after.ActionLock := by
  refine ⟨?_, unraised_update h.unraised hworkers hposition⟩
  have hthread : before.in_action_section (.worker id) = true := hinside
  rw [hlock]
  apply h.lock.release hthread
  · change (after.workers id).in_action_section = false
    rw [hworkers, Function.update_self, hleft]
  · exact in_action_section_worker hselector hworkers

/-- The selector moves without locking or unlocking `action_queue_lock`. -/
theorem ActionLock.selector_keeps (h : before.ActionLock) (hworkers : after.workers = before.workers)
    (hlock : after.action_queue_lock = before.action_queue_lock)
    (hsection : after.selector.in_action_section = true → before.selector.in_action_section = true) :
    after.ActionLock := by
  refine ⟨?_, fun id => by rw [hworkers]; exact h.unraised id⟩
  rw [hlock]
  apply h.lock.keep
  intro thread hinside
  cases thread with
  | selector => exact hsection hinside
  | worker id =>
    change (before.workers id).in_action_section = true
    rw [← hworkers]
    exact hinside

theorem ActionLock.selector_acquires (h : before.ActionLock) (hworkers : after.workers = before.workers)
    (hfree : before.action_queue_lock = none) (hlock : after.action_queue_lock = some .selector) :
    after.ActionLock := by
  refine ⟨?_, fun id => by rw [hworkers]; exact h.unraised id⟩
  have hbefore := h.lock
  rw [hfree] at hbefore
  rw [hlock]
  apply hbefore.acquire
  apply in_action_section_selector
  intro id hinside
  rwa [hworkers] at hinside

theorem ActionLock.selector_releases (h : before.ActionLock)
    (hworkers : ∀ id, after.workers id = before.workers id ∨ after.workers id = .locking)
    (hinside : before.selector.in_action_section = true) (hlock : after.action_queue_lock = none)
    (hleft : after.selector.in_action_section = false) : after.ActionLock := by
  constructor
  · have hthread : before.in_action_section .selector = true := hinside
    rw [hlock]
    apply h.lock.release hthread hleft
    apply in_action_section_selector
    intro id hmoved
    cases hworkers id with
    | inl hsame => rwa [hsame] at hmoved
    | inr hlocking =>
      rw [hlocking] at hmoved
      cases hmoved
  · intro id
    cases hworkers id with
    | inl hsame =>
      rw [hsame]
      exact h.unraised id
    | inr hlocking =>
      rw [hlocking]
      simp

theorem enqueue_workers (state : State Buf) (client : ClientPtr) (next_client : Option ClientPtr)
    (target : Option WorkerId) (id : WorkerId) :
    (state.enqueue client next_client target).workers id = state.workers id ∨
      (state.enqueue client next_client target).workers id = .locking := by
  cases target with
  | none => exact Or.inl rfl
  | some other =>
    change Function.update state.workers other .locking id = state.workers id ∨
      Function.update state.workers other .locking id = .locking
    by_cases hsame : id = other
    · rw [hsame, Function.update_self]
      exact Or.inr rfl
    · rw [Function.update_of_ne hsame]
      exact Or.inl rfl

theorem ActionLock.take (h : state.ActionLock) (hposition : state.workers id = .take) : (state.take id).ActionLock := by
  have hinside : (state.workers id).in_action_section = true := by rw [hposition]; rfl
  unfold State.take
  split
  · exact h.worker_releases rfl rfl hinside rfl rfl (by simp)
  · exact h.worker_keeps rfl rfl rfl (fun _ => hinside) (by simp)

section

variable [CharBuffer Buf]

theorem ActionLock.process [LawfulCharBuffer Buf] (h : state.ActionLock) {strict : Prop} {place : ClientPtr → Place}
    {stamp : ClientPtr → Nat} (hinvariant : Invariant strict state place stamp) {client : ClientPtr}
    (hposition : state.workers id = .process client) (success_flag : Bool)
    (hresponse : (state.connector.clients client).message.response ≠ .abandon) :
    (state.process id client success_flag).ActionLock := by
  have hheld := (hinvariant.holding _ _ _).mp (holding_worker hposition)
  obtain ⟨_, _, _, houtcome⟩ := hinvariant.consistent.process hheld success_flag
  rw [process_eq_ok (houtcome.mpr hresponse)]
  refine h.worker_keeps rfl rfl rfl ?_ ?_
  · split
    · nofun
    · nofun
  · split
    · simp
    · simp

theorem ActionLock.hand_back (h : state.ActionLock) {client : ClientPtr} : (state.hand_back id client).ActionLock := by
  unfold State.hand_back
  simp only
  split
  · exact h.worker_keeps rfl rfl rfl nofun (by simp)
  · obtain ⟨pipe_bytes, hwakeup⟩ := wakeup_selector_eq
      { state.set_worker id .relock with connector := (state.set_worker id .relock).connector.com_add_last client }
    rw [hwakeup]
    exact h.worker_keeps rfl rfl rfl nofun (by simp)

/-- While message processing raises no exception, every step keeps the sections of
`action_queue_lock` exclusive. -/
theorem ActionLock.act [LawfulCharBuffer Buf] (h : before.ActionLock) {strict : Prop} {place : ClientPtr → Place}
    {stamp : ClientPtr → Nat} (hinvariant : Invariant strict before place stamp) (hunraised : before.Unraised action)
    (hact : before.act action = some after) : after.ActionLock := by
  cases hpool : action.on_pool with
  | false =>
    obtain ⟨hworkers, _, hlock, hselector⟩ := act_off_pool hact hpool
    refine h.selector_keeps hworkers hlock (fun hinside => ?_)
    cases haction : action.by_selector with
    | false => rwa [hselector haction] at hinside
    | true => exact (act_next hact haction).in_action_section hpool hinside
  | true =>
    cases action with
    | worker_lock id =>
      obtain ⟨⟨_, hfree⟩, rfl⟩ := only_if_eq_some.mp hact
      exact h.worker_acquires rfl rfl hfree rfl (by simp)
    | worker_test id =>
      obtain ⟨hposition, rfl⟩ := only_if_eq_some.mp hact
      unfold State.test_stop
      split
      · exact h.worker_releases rfl rfl (by rw [hposition]; rfl) rfl rfl (by simp)
      · exact h.worker_keeps rfl rfl rfl (fun _ => by rw [hposition]; rfl) (by simp)
    | worker_take id =>
      obtain ⟨hposition, rfl⟩ := only_if_eq_some.mp hact
      exact h.take hposition
    | worker_process id client success_flag =>
      obtain ⟨hposition, rfl⟩ := only_if_eq_some.mp hact
      exact h.process hinvariant hposition success_flag (hunraised client rfl)
    | worker_hand_back_lock id client =>
      obtain ⟨_, rfl⟩ := only_if_eq_some.mp hact
      exact h.worker_keeps rfl rfl rfl nofun (by simp)
    | worker_hand_back id client =>
      obtain ⟨_, rfl⟩ := only_if_eq_some.mp hact
      exact h.hand_back
    | worker_close id client =>
      obtain ⟨_, rfl⟩ := only_if_eq_some.mp hact
      exact h.worker_keeps rfl rfl rfl nofun (by simp)
    | worker_relock id =>
      obtain ⟨⟨_, hfree⟩, rfl⟩ := only_if_eq_some.mp hact
      exact h.worker_acquires rfl rfl hfree rfl (by simp)
    | worker_wait id =>
      obtain ⟨hposition, rfl⟩ := only_if_eq_some.mp hact
      have hreturned := hposition.resolve_right (h.unraised id)
      have hleft : ∀ stop : Bool, (if stop then WorkerPosition.exited else .asleep).in_action_section = false ∧
          (if stop then WorkerPosition.exited else .asleep) ≠ .raised := by
        intro stop
        cases stop <;> exact ⟨rfl, by simp⟩
      obtain ⟨hsection, hposition⟩ := hleft before.stop_workers
      exact h.worker_releases rfl rfl (by rw [hreturned]; rfl) rfl hsection hposition
    | worker_wake id =>
      obtain ⟨_, rfl⟩ := only_if_eq_some.mp hact
      exact h.worker_keeps rfl rfl rfl nofun (by simp)
    | enqueue_lock client next_client =>
      obtain ⟨⟨_, hfree⟩, rfl⟩ := only_if_eq_some.mp hact
      exact h.selector_acquires rfl hfree rfl
    | enqueue client next_client target =>
      obtain ⟨⟨hposition, _⟩, rfl⟩ := only_if_eq_some.mp hact
      refine h.selector_releases (enqueue_workers before client next_client target) ?_ ?_ ?_
      · rw [hposition]
        rfl
      · rfl
      · rfl
    | cleanup_action_lock =>
      obtain ⟨⟨_, hfree⟩, rfl⟩ := only_if_eq_some.mp hact
      exact h.selector_acquires rfl hfree rfl
    | cleanup_action =>
      obtain ⟨hposition, rfl⟩ := only_if_eq_some.mp hact
      unfold State.cleanup_action
      split
      · exact h.selector_keeps rfl rfl (fun hinside => hinside)
      · exact h.selector_releases (fun _ => Or.inl rfl) (by rw [hposition]; rfl) rfl rfl
    | stop_lock =>
      obtain ⟨⟨_, hfree⟩, rfl⟩ := only_if_eq_some.mp hact
      exact h.selector_acquires rfl hfree rfl
    | stop =>
      obtain ⟨hposition, rfl⟩ := only_if_eq_some.mp hact
      exact h.selector_releases (fun id => (ite_eq_or_eq _ _ _).symm) (by rw [hposition]; rfl) rfl rfl
    | _ => cases hpool

end

theorem initial_action_lock (Buf : Type) [CharBuffer Buf] (memory : ClientMemory) :
    (initial Buf memory).ActionLock := by
  refine ⟨fun thread hinside => ?_, fun _ => nofun⟩
  cases thread <;> cases hinside

/-- The sections of `action_queue_lock` stay exclusive in a run whose message
processing raises no exception. -/
theorem ReachableWhere.action_lock [CharBuffer Buf] [LawfulCharBuffer Buf] {condition : State Buf → Action → Prop}
    (hcondition : ∀ state action, condition state action → state.Unraised action)
    (h : state.ReachableWhere condition) : state.ActionLock := by
  apply ReachesFromWhere.invariant_under h (fun _ hstate => Reachable.sound hstate.reaches)
  · exact initial_action_lock Buf
  · intro before action after hsound hbefore hguard hstep
    obtain ⟨_, _, hinvariant⟩ := hsound
    exact hbefore.act hinvariant (hcondition before action hguard) (step_eq_some.mp hstep).2

end State

end ufh
