import UniversalFencingHub.Library.Counting
import UniversalFencingHub.Threads.ActionLock
import UniversalFencingHub.Threads.Pending

open counting transition

namespace ufh

/-- A worker that holds no client, and that is neither waiting to be notified nor at
its end. -/
def WorkerPosition.available (position : WorkerPosition) : Bool :=
  position.holding.isNone && position ≠ .asleep && position ≠ .exited

/-- The positions behind the loop that empties `action_queue` in `cleanup()`. -/
def SelectorPosition.drained : SelectorPosition → Bool
  | .cleanup_com_lock => true
  | .cleanup_disable => true
  | .cleanup_signal => true
  | .cleanup_com => true
  | .stop_lock => true
  | .stop => true
  | .join => true
  | .finished => true
  | _ => false

/-- The positions behind the section of `stop_threads`. -/
def SelectorPosition.stopped_workers : SelectorPosition → Bool
  | .join => true
  | .finished => true
  | _ => false

/-- A move of the selector that neither empties `action_queue` nor ends the worker pool. -/
def SelectorPosition.same_service (before after : SelectorPosition) : Bool :=
  (after.drained → before.drained) && (before.stopped_workers → after.stopped_workers)

theorem SelectorPosition.Next.same_service {position next : SelectorPosition} {action : Action}
    (h : position.Next action next) (haction : action.on_pool = false) : position.same_service next = true := by
  cases h with
  | action_emptied => cases haction
  | stopped => cases haction
  | _ => rfl

theorem on_action_queue_off_pool {action : Action} (haction : action.on_pool = false) (clients : List ClientPtr) :
    action.on_action_queue clients = clients := by
  cases action with
  | enqueue => cases haction
  | worker_take => cases haction
  | cleanup_action => cases haction
  | _ => rfl

namespace State

variable {Buf : Type} {before after state : State Buf} {place : ClientPtr → Place} {stamp : ClientPtr → Nat}
  {client : ClientPtr} {id : WorkerId} {target : Option WorkerId} {position : WorkerPosition} {strict : Prop}
  {action : Action}

def available_workers (state : State Buf) : Nat := count (fun position => position.available = true) state.workers

/-- The worker pool serves `action_queue`. -/
structure Service (state : State Buf) : Prop where
  served : state.connector.action_clients.length ≤ state.available_workers
  found_empty : ∀ id, state.workers id = .returned → state.connector.action_clients = []
  running : state.stop_workers = false → ∀ id, state.workers id ≠ .exited
  awake : state.stop_workers = true → ∀ id, state.workers id ≠ .asleep
  drained : state.selector.drained = true → state.connector.action_clients = []
  stopping : state.stop_workers = true → state.selector.stopped_workers = true

theorem drained_of_stopped {position : SelectorPosition} (h : position.stopped_workers = true) :
    position.drained = true := by
  cases position with
  | join => rfl
  | finished => rfl
  | _ => cases h

theorem Service.stopped_empty (h : state.Service) (hstop : state.stop_workers = true) :
    state.connector.action_clients = [] :=
  h.drained (drained_of_stopped (h.stopping hstop))

/-- The selector moves, or a signal is handled, without any change of the worker pool. -/
theorem Service.selector_moves (h : before.Service) (hworkers : after.workers = before.workers)
    (hstop : after.stop_workers = before.stop_workers)
    (hclients : after.connector.action_clients = before.connector.action_clients)
    (hmove : before.selector.same_service after.selector = true) : after.Service := by
  simp only [SelectorPosition.same_service, Bool.and_eq_true, decide_eq_true_eq] at hmove
  obtain ⟨hdrained, hstopped⟩ := hmove
  refine ⟨?_, ?_, ?_, ?_, ?_, ?_⟩
  · unfold available_workers
    rw [hclients, hworkers]
    exact h.served
  · rw [hworkers, hclients]
    exact h.found_empty
  · rw [hstop, hworkers]
    exact h.running
  · rw [hstop, hworkers]
    exact h.awake
  · rw [hclients]
    exact fun hposition => h.drained (hdrained hposition)
  · rw [hstop]
    exact fun hstopping => hstopped (h.stopping hstopping)

/-- A worker moves. -/
theorem Service.worker_moves (h : before.Service) (hselector : after.selector = before.selector)
    (hstop : after.stop_workers = before.stop_workers)
    (hworkers : after.workers = Function.update before.workers id position)
    (hserved : after.connector.action_clients.length ≤ after.available_workers)
    (hclients : before.connector.action_clients = [] → after.connector.action_clients = [])
    (hfound : position = .returned → before.connector.action_clients = [])
    (hrunning : position = .exited → before.stop_workers = true)
    (hawake : position = .asleep → before.stop_workers = false) : after.Service := by
  have hposition : ∀ other, after.workers other = position ∨ after.workers other = before.workers other := by
    intro other
    rw [hworkers]
    by_cases hsame : other = id
    · rw [hsame, Function.update_self]
      exact Or.inl rfl
    · rw [Function.update_of_ne hsame]
      exact Or.inr rfl
  refine ⟨hserved, ?_, ?_, ?_, ?_, ?_⟩
  · intro other hreturned
    apply hclients
    cases hposition other with
    | inl hmoved => exact hfound (hmoved.symm.trans hreturned)
    | inr hsame => exact h.found_empty other (hsame.symm.trans hreturned)
  · rw [hstop]
    intro hnot other hexited
    cases hposition other with
    | inl hmoved =>
      rw [hrunning (hmoved.symm.trans hexited)] at hnot
      cases hnot
    | inr hsame => exact h.running hnot other (hsame.symm.trans hexited)
  · rw [hstop]
    intro hstopping other hasleep
    cases hposition other with
    | inl hmoved =>
      rw [hawake (hmoved.symm.trans hasleep)] at hstopping
      cases hstopping
    | inr hsame => exact h.awake hstopping other (hsame.symm.trans hasleep)
  · rw [hselector]
    exact fun hdrained => hclients (h.drained hdrained)
  · rw [hstop, hselector]
    exact h.stopping

theorem available_same (hworkers : after.workers = Function.update before.workers id position)
    (hposition : position.available = (before.workers id).available) :
    after.available_workers = before.available_workers := by
  unfold available_workers
  rw [hworkers]
  exact count_update_of_iff _ _ (by rw [hposition])

theorem available_gained (hworkers : after.workers = Function.update before.workers id position)
    (hposition : position.available = true) (hbefore : (before.workers id).available = false) :
    after.available_workers = before.available_workers + 1 := by
  unfold available_workers
  rw [hworkers]
  exact count_update_insert _ _ hposition (by simp [hbefore])

theorem available_lost (hworkers : after.workers = Function.update before.workers id position)
    (hposition : position.available = false) (hbefore : (before.workers id).available = true) :
    after.available_workers + 1 = before.available_workers := by
  unfold available_workers
  rw [hworkers]
  exact count_update_erase _ _ (by simp [hposition]) hbefore

theorem same_service_self (position : SelectorPosition) : position.same_service position = true := by
  simp [SelectorPosition.same_service]

/-- A worker moves and is as available as before. -/
theorem Service.worker_silent (h : before.Service) (hselector : after.selector = before.selector)
    (hstop : after.stop_workers = before.stop_workers)
    (hworkers : after.workers = Function.update before.workers id position)
    (hclients : after.connector.action_clients = before.connector.action_clients)
    (havailable : position.available = (before.workers id).available) (hreturned : position ≠ .returned)
    (hexited : position ≠ .exited) (hasleep : position ≠ .asleep) : after.Service := by
  refine h.worker_moves hselector hstop hworkers ?_ (fun hempty => hclients.trans hempty) ?_ ?_ ?_
  · rw [hclients, available_same hworkers havailable]
    exact h.served
  · exact fun heq => absurd heq hreturned
  · exact fun heq => absurd heq hexited
  · exact fun heq => absurd heq hasleep

/-- A worker gets rid of its client, or wakes up. -/
theorem Service.worker_gained (h : before.Service) (hselector : after.selector = before.selector)
    (hstop : after.stop_workers = before.stop_workers)
    (hworkers : after.workers = Function.update before.workers id position)
    (hclients : after.connector.action_clients = before.connector.action_clients)
    (hposition : position.available = true ∧ position ≠ .returned) (hbefore : (before.workers id).available = false) :
    after.Service := by
  obtain ⟨havailable, hreturned⟩ := hposition
  refine h.worker_moves hselector hstop hworkers ?_ (fun hempty => hclients.trans hempty) ?_ ?_ ?_
  · rw [hclients, available_gained hworkers havailable hbefore]
    have hserved := h.served
    omega
  · exact fun heq => absurd heq hreturned
  · intro heq
    rw [heq] at havailable
    cases havailable
  · intro heq
    rw [heq] at havailable
    cases havailable

theorem Service.test_stop (h : state.Service) (hposition : state.workers id = .loop) :
    (state.test_stop id).Service := by
  unfold State.test_stop
  split
  · next hstop =>
    have hempty := h.stopped_empty hstop
    refine h.worker_moves rfl rfl rfl ?_ (fun hclients => hclients) (by simp) (fun _ => hstop) (by simp)
    change state.connector.action_clients.length ≤ _
    rw [hempty]
    exact Nat.zero_le _
  · exact h.worker_silent rfl rfl rfl rfl (by rw [hposition]; rfl) (by simp) (by simp) (by simp)

theorem Service.wait (h : state.Service) (hposition : state.workers id = .returned) :
    (state.wait_or_exit id).Service := by
  have hempty := h.found_empty id hposition
  refine h.worker_moves rfl rfl rfl ?_ (fun hclients => hclients) ?_ ?_ ?_
  · change state.connector.action_clients.length ≤ _
    rw [hempty]
    exact Nat.zero_le _
  · exact fun _ => hempty
  · intro hexited
    by_contra hrunning
    simp [hrunning] at hexited
  · intro hasleep
    by_contra hstopping
    simp [hstopping] at hasleep

theorem Service.stop_threads (h : state.Service) (hposition : state.selector = .stop) : state.stop_threads.Service := by
  have hempty := h.drained (by rw [hposition]; rfl)
  have hworkers : ∀ id, state.stop_threads.workers id = .locking ∧ state.workers id = .asleep ∨
      state.stop_threads.workers id = state.workers id ∧ state.workers id ≠ .asleep := by
    intro id
    by_cases hasleep : state.workers id = .asleep
    · exact Or.inl ⟨if_pos hasleep, hasleep⟩
    · exact Or.inr ⟨if_neg hasleep, hasleep⟩
  refine ⟨?_, fun _ _ => hempty, nofun, ?_, fun _ => hempty, fun _ => rfl⟩
  · change state.connector.action_clients.length ≤ _
    rw [hempty]
    exact Nat.zero_le _
  · intro _ id
    obtain ⟨hlocking, _⟩ | ⟨hsame, hawake⟩ := hworkers id
    · rw [hlocking]
      simp
    · rw [hsame]
      exact hawake

section

variable [CharBuffer Buf]

theorem hand_back_pool (state : State Buf) (id : WorkerId) (client : ClientPtr) :
    (state.hand_back id client).selector = state.selector ∧
      (state.hand_back id client).stop_workers = state.stop_workers ∧
      (state.hand_back id client).workers = Function.update state.workers id .relock := by
  unfold State.hand_back
  simp only
  split
  · exact ⟨rfl, rfl, rfl⟩
  · obtain ⟨pipe_bytes, hwakeup⟩ := wakeup_selector_eq
      { state.set_worker id .relock with connector := (state.set_worker id .relock).connector.com_add_last client }
    rw [hwakeup]
    exact ⟨rfl, rfl, rfl⟩

/-- A worker takes the first client, or finds the queue empty. -/
theorem Service.take (h : state.Service) (hinvariant : Invariant strict state place stamp)
    (hposition : state.workers id = .take) : (state.take id).Service := by
  have hlinked := hinvariant.consistent.linked
  have hclients := take_action_clients hlinked id
  have hserved := h.served
  obtain ⟨hrepresents, _⟩ := hlinked.represents_actions
  obtain ⟨hhead, hnone⟩ | ⟨client, hhead, _, hfirst, _⟩ := hinvariant.consistent.take_action (.worker id)
  · have hempty : state.connector.action_clients = [] := hrepresents.head_eq_none_iff.mp hhead
    have hafter : state.take id = { state.set_worker id .returned with connector := state.connector } := by
      simp only [State.take, hnone]
    rw [hafter]
    refine h.worker_moves rfl rfl rfl ?_ (fun hclients => hclients) (fun _ => hempty) (by simp) (by simp)
    change state.connector.action_clients.length ≤ _
    rw [hempty]
    exact Nat.zero_le _
  · have hlength : state.connector.action_clients.length ≠ 0 := by
      intro hzero
      rw [hrepresents.head, List.eq_nil_of_length_eq_zero hzero] at hhead
      cases hhead
    rw [take_eq hfirst] at hclients ⊢
    refine h.worker_moves rfl rfl rfl ?_ ?_ (by simp) (by simp) (by simp)
    · rw [hclients, List.length_tail]
      have hlost : ({ state.set_worker id (.process client) with
          connector := state.connector.take_action.2, action_queue_lock := none } : State Buf).available_workers + 1 =
          state.available_workers := available_lost rfl rfl (by rw [hposition]; rfl)
      omega
    · intro hempty
      rw [hclients, hempty]
      rfl

theorem Service.process [LawfulCharBuffer Buf] (h : state.Service) (hinvariant : Invariant strict state place stamp)
    (hposition : state.workers id = .process client) (success_flag : Bool)
    (hresponse : (state.connector.clients client).message.response ≠ .abandon)
    (hclients : (state.process id client success_flag).connector.action_clients = state.connector.action_clients) :
    (state.process id client success_flag).Service := by
  have hheld := (hinvariant.holding _ _ _).mp (holding_worker hposition)
  obtain ⟨_, _, _, houtcome⟩ := hinvariant.consistent.process hheld success_flag
  rw [process_eq_ok (houtcome.mpr hresponse)] at hclients ⊢
  refine h.worker_silent rfl rfl rfl hclients ?_ ?_ ?_ ?_
  · rw [hposition]
    split
    · rfl
    · rfl
  · split <;> simp
  · split <;> simp
  · split <;> simp

theorem Service.cleanup_action (h : state.Service) (hinvariant : Invariant strict state place stamp)
    (hposition : state.selector = .cleanup_action) : state.cleanup_action.Service := by
  have hclients := cleanup_action_clients hinvariant
  have hserved := h.served
  obtain ⟨hrepresents, _⟩ := hinvariant.consistent.linked.represents_actions
  obtain ⟨hhead, hnone⟩ | ⟨client, _, _, hfirst, _⟩ := hinvariant.consistent.action_remove_first .selector
  · have hempty : state.connector.action_clients = [] := hrepresents.head_eq_none_iff.mp hhead
    have hafter : state.cleanup_action =
        { state with connector := state.connector, action_queue_lock := none, selector := .cleanup_com_lock } := by
      simp only [State.cleanup_action, hnone]
    have hrunning : state.stop_workers = true → SelectorPosition.stopped_workers .cleanup_com_lock = true := by
      intro hstop
      have hstopped := h.stopping hstop
      rw [hposition] at hstopped
      cases hstopped
    rw [hafter]
    exact ⟨h.served, h.found_empty, h.running, h.awake, fun _ => hempty, hrunning⟩
  · rw [cleanup_action_eq hfirst] at hclients ⊢
    refine ⟨?_, ?_, h.running, h.awake, ?_, h.stopping⟩
    · rw [hclients, List.length_tail]
      exact (Nat.sub_le _ _).trans hserved
    · intro id hreturned
      rw [hclients, h.found_empty id hreturned]
      rfl
    · intro hdrained
      rw [hclients, h.drained hdrained]
      rfl

omit [CharBuffer Buf] in
/-- A worker that is neither available nor asleep nor at its end holds a client. -/
theorem holding_of_unavailable {position : WorkerPosition} (havailable : ¬ position.available = true)
    (hasleep : position ≠ .asleep) (hexited : position ≠ .exited) :
    ∃ client role, position.holding = some (client, role) := by
  cases hholding : position.holding with
  | some held => exact ⟨held.1, held.2, rfl⟩
  | none =>
    refine absurd ?_ havailable
    unfold WorkerPosition.available
    rw [hholding]
    simp [hasleep, hexited]

/-- When no worker is asleep, those that are busy hold clients of their own, so enough of
them are left for the clients on `action_queue` and the one that the selector holds. -/
theorem pending_le_available (hinvariant : Invariant strict state place stamp) {role : Role}
    (hheld : place client = .held .selector role) (hasleep : ∀ id, state.workers id ≠ .asleep)
    (hexited : ∀ id, state.workers id ≠ .exited) :
    state.connector.action_clients.length + 1 ≤ state.available_workers := by
  obtain ⟨hrepresents, hmem⟩ := hinvariant.consistent.linked.represents_actions
  have hbusy : ∀ id, ¬ (state.workers id).available = true → ∃ held role,
      (state.workers id).holding = some (held, role) ∧ place held = .held (.worker id) role := by
    intro id havailable
    obtain ⟨held, role, hholding⟩ := holding_of_unavailable havailable (hasleep id) (hexited id)
    exact ⟨held, role, hholding, (hinvariant.holding (.worker id) held role).mp hholding⟩
  have hnodup : (state.connector.action_clients ++ [client]).Nodup := by
    refine List.nodup_append.mpr ⟨hrepresents.nodup, List.nodup_singleton client, ?_⟩
    intro pending hpending last hlast heq
    have hplace := (hmem pending).mp hpending
    rw [heq, List.mem_singleton.mp hlast, hheld] at hplace
    cases hplace
  have hlength := length_le_count (p := fun position : WorkerPosition => position.available = true) state.workers hnodup
    (le_of_eq rfl) (fun id => ((state.workers id).holding.map Prod.fst).getD client) ?_ ?_
  · rwa [List.length_append] at hlength
  · intro id havailable hin
    obtain ⟨held, role, hholding, hplace⟩ := hbusy id havailable
    rw [hholding] at hin
    cases List.mem_append.mp hin with
    | inl hpending =>
      have hlisted := (hmem held).mp hpending
      rw [hplace] at hlisted
      cases hlisted
    | inr hlast =>
      have hsame : held = client := List.mem_singleton.mp hlast
      rw [hsame, hheld] at hplace
      cases hplace
  · intro id other hid hother heq
    obtain ⟨held, role, hholding, hplace⟩ := hbusy id hid
    obtain ⟨held', role', hholding', hplace'⟩ := hbusy other hother
    rw [hholding, hholding'] at heq
    have hsame : held = held' := heq
    rw [hsame, hplace', Place.held.injEq, Thread.worker.injEq] at hplace
    exact hplace.1.symm

omit [CharBuffer Buf] in
theorem enqueue_workers_cases (state : State Buf) (client : ClientPtr) (next_client : Option ClientPtr)
    (target : Option WorkerId) (other : WorkerId) :
    (state.enqueue client next_client target).workers other = .locking ∨
      (state.enqueue client next_client target).workers other = state.workers other := by
  cases target with
  | none => exact Or.inr rfl
  | some id =>
    change Function.update state.workers id .locking other = _ ∨ Function.update state.workers id .locking other = _
    by_cases hsame : other = id
    · rw [hsame, Function.update_self]
      exact Or.inl rfl
    · rw [Function.update_of_ne hsame]
      exact Or.inr rfl

/-- The selector puts a client on the queue and notifies a worker that is asleep, if
there is one. -/
theorem Service.enqueue (h : state.Service) (hinvariant : Invariant strict state place stamp) (hlock : state.ActionLock)
    {next_client : Option ClientPtr} (hposition : state.selector = .enqueue client next_client)
    (hpossible : state.notify_possible target) : (state.enqueue client next_client target).Service := by
  have hholds : state.holding .selector = some (client, .completed) := congrArg SelectorPosition.holding hposition
  have hheld := (hinvariant.holding _ _ _).mp hholds
  have hpending : place client ≠ .pending := by simp [hheld]
  have hclients := enqueue_action_clients hinvariant.consistent.linked hpending next_client target
  have hstop : (state.enqueue client next_client target).stop_workers = state.stop_workers := by
    cases target <;> rfl
  have hrunning : state.stop_workers = false := by
    by_contra hstopping
    have hstopped := h.stopping (by simpa using hstopping)
    rw [hposition] at hstopped
    cases hstopped
  have hworkers := enqueue_workers_cases state client next_client target
  refine ⟨?_, ?_, ?_, ?_, nofun, ?_⟩
  · rw [hclients, List.length_append]
    cases target with
    | none => exact pending_le_available hinvariant hheld hpossible (h.running hrunning)
    | some id =>
      have hgained : (state.enqueue client next_client (some id)).available_workers = state.available_workers + 1 :=
        available_gained rfl rfl (by rw [show state.workers id = .asleep from hpossible]; rfl)
      rw [hgained]
      exact Nat.succ_le_succ h.served
  · intro id hreturned
    -- the selector and this worker would both be inside the section
    have hselector := hlock.lock .selector (by change state.selector.in_action_section = true; rw [hposition]; rfl)
    have hworker := hlock.lock (.worker id) (by
      change (state.workers id).in_action_section = true
      rw [← (hworkers id).resolve_left (by rw [hreturned]; simp), hreturned]
      rfl)
    rw [hselector] at hworker
    cases hworker
  · intro _ id hexited
    apply h.running hrunning id
    rw [← (hworkers id).resolve_left (by rw [hexited]; simp), hexited]
  · rw [hstop, hrunning]
    nofun
  · rw [hstop, hrunning]
    nofun

theorem Service.act [LawfulCharBuffer Buf] (h : before.Service) (hinvariant : Invariant strict before place stamp)
    (hlock : before.ActionLock) (hunraised : before.Unraised action) (hact : before.act action = some after) :
    after.Service := by
  have hclients := hinvariant.action_clients hact
  cases hpool : action.on_pool with
  | false =>
    obtain ⟨hworkers, hstop, _, hselector⟩ := act_off_pool hact hpool
    rw [on_action_queue_off_pool hpool] at hclients
    refine h.selector_moves hworkers hstop hclients ?_
    cases haction : action.by_selector with
    | false =>
      rw [hselector haction]
      exact same_service_self _
    | true => exact (act_next hact haction).same_service hpool
  | true =>
    cases action with
    | worker_lock id =>
      obtain ⟨⟨hposition, _⟩, rfl⟩ := only_if_eq_some.mp hact
      exact h.worker_silent rfl rfl rfl hclients (by rw [hposition]; rfl) (by simp) (by simp) (by simp)
    | worker_test id =>
      obtain ⟨hposition, rfl⟩ := only_if_eq_some.mp hact
      exact h.test_stop hposition
    | worker_take id =>
      obtain ⟨hposition, rfl⟩ := only_if_eq_some.mp hact
      exact h.take hinvariant hposition
    | worker_process id client success_flag =>
      obtain ⟨hposition, rfl⟩ := only_if_eq_some.mp hact
      exact h.process hinvariant hposition success_flag (hunraised client rfl) hclients
    | worker_hand_back_lock id client =>
      obtain ⟨⟨hposition, _⟩, rfl⟩ := only_if_eq_some.mp hact
      exact h.worker_silent rfl rfl rfl hclients (by rw [hposition]; rfl) (by simp) (by simp) (by simp)
    | worker_hand_back id client =>
      obtain ⟨⟨hposition, _⟩, rfl⟩ := only_if_eq_some.mp hact
      obtain ⟨hselector, hstop, hworkers⟩ := hand_back_pool before id client
      exact h.worker_gained hselector hstop hworkers hclients ⟨rfl, by simp⟩ (by rw [hposition]; rfl)
    | worker_close id client =>
      obtain ⟨hposition, rfl⟩ := only_if_eq_some.mp hact
      exact h.worker_gained rfl rfl rfl hclients ⟨rfl, by simp⟩ (by rw [hposition]; rfl)
    | worker_relock id =>
      obtain ⟨⟨hposition, _⟩, rfl⟩ := only_if_eq_some.mp hact
      exact h.worker_silent rfl rfl rfl hclients (by rw [hposition]; rfl) (by simp) (by simp) (by simp)
    | worker_wait id =>
      obtain ⟨hposition, rfl⟩ := only_if_eq_some.mp hact
      exact h.wait (hposition.resolve_right (hlock.unraised id))
    | worker_wake id =>
      obtain ⟨hposition, rfl⟩ := only_if_eq_some.mp hact
      exact h.worker_gained rfl rfl rfl hclients ⟨rfl, by simp⟩ (by rw [hposition]; rfl)
    | enqueue client next_client target =>
      obtain ⟨⟨hposition, hpossible⟩, rfl⟩ := only_if_eq_some.mp hact
      exact h.enqueue hinvariant hlock hposition hpossible
    | cleanup_action =>
      obtain ⟨hposition, rfl⟩ := only_if_eq_some.mp hact
      exact h.cleanup_action hinvariant hposition
    | stop =>
      obtain ⟨hposition, rfl⟩ := only_if_eq_some.mp hact
      exact h.stop_threads hposition
    | enqueue_lock client next_client =>
      obtain ⟨⟨hposition, _⟩, rfl⟩ := only_if_eq_some.mp hact
      exact h.selector_moves rfl rfl rfl (by rw [hposition]; rfl)
    | cleanup_action_lock =>
      obtain ⟨⟨hposition, _⟩, rfl⟩ := only_if_eq_some.mp hact
      exact h.selector_moves rfl rfl rfl (by rw [hposition]; rfl)
    | stop_lock =>
      obtain ⟨⟨hposition, _⟩, rfl⟩ := only_if_eq_some.mp hact
      exact h.selector_moves rfl rfl rfl (by rw [hposition]; rfl)
    | _ => cases hpool

theorem initial_service (Buf : Type) [CharBuffer Buf] (memory : ClientMemory) : (initial Buf memory).Service :=
  ⟨Nat.zero_le _, fun _ _ => rfl, fun _ _ => nofun, nofun, nofun, nofun⟩

theorem ReachableWhere.service [LawfulCharBuffer Buf] (h : state.ReachableWhere Unraised) : state.Service := by
  have hknown : ∀ state : State Buf, state.ReachableWhere Unraised →
      (∃ place stamp, Invariant False state place stamp) ∧ state.ActionLock :=
    fun _ hstate => ⟨Reachable.sound hstate.reaches, ReachableWhere.action_lock (fun _ _ hguard => hguard) hstate⟩
  apply ReachesFromWhere.invariant_under h hknown
  · exact initial_service Buf
  · intro before action after hknown hbefore hunraised hstep
    obtain ⟨⟨_, _, hinvariant⟩, hlock⟩ := hknown
    exact hbefore.act hinvariant hlock hunraised (step_eq_some.mp hstep).2

/-- The end of the worker pool is not taken back. -/
theorem act_stop_workers (hstop : before.stop_workers = true) (hact : before.act action = some after) :
    after.stop_workers = true := by
  cases action with
  | stop =>
    obtain ⟨_, rfl⟩ := only_if_eq_some.mp hact
    rfl
  | accept fd =>
    obtain ⟨_, rfl⟩ := only_if_eq_some.mp hact
    unfold State.accept
    split <;> exact hstop
  | drain =>
    obtain ⟨_, rfl⟩ := only_if_eq_some.mp hact
    unfold State.drain
    split <;> exact hstop
  | visit client result =>
    obtain ⟨_, rfl⟩ := only_if_eq_some.mp hact
    unfold State.visit
    simp only
    split <;> exact hstop
  | enqueue client next_client target =>
    obtain ⟨_, rfl⟩ := only_if_eq_some.mp hact
    cases target <;> exact hstop
  | cleanup_action =>
    obtain ⟨_, rfl⟩ := only_if_eq_some.mp hact
    unfold State.cleanup_action
    split <;> exact hstop
  | cleanup_com =>
    obtain ⟨_, rfl⟩ := only_if_eq_some.mp hact
    unfold State.cleanup_com
    split <;> exact hstop
  | worker_test id =>
    obtain ⟨_, rfl⟩ := only_if_eq_some.mp hact
    unfold State.test_stop
    split <;> exact hstop
  | worker_take id =>
    obtain ⟨_, rfl⟩ := only_if_eq_some.mp hact
    unfold State.take
    split <;> exact hstop
  | worker_process id client success_flag =>
    obtain ⟨_, rfl⟩ := only_if_eq_some.mp hact
    unfold State.process
    simp only
    split <;> exact hstop
  | worker_hand_back id client =>
    obtain ⟨_, rfl⟩ := only_if_eq_some.mp hact
    exact (hand_back_pool before id client).2.1.trans hstop
  | signal_write =>
    obtain ⟨_, rfl⟩ := only_if_eq_some.mp hact
    obtain ⟨pipe_bytes, hwrite⟩ := ufh_signal_handler_write_eq before
    rw [hwrite]
    exact hstop
  | _ =>
    obtain ⟨_, rfl⟩ := only_if_eq_some.mp hact
    exact hstop

/-- There are at least as many workers ready to take a client as there are clients on
`action_queue`, and from the end of the pool on no worker waits to be notified. -/
theorem pending_clients_served [LawfulCharBuffer Buf] (h : state.ReachableWhere Unraised) :
    ∃ pending, state.connector.action_queue.Represents state.connector.nodes pending ∧
      pending.length ≤ state.available_workers ∧
      (pending ≠ [] → ∃ id, (state.workers id).available = true) ∧
      (state.stop_workers = true → ∀ later, ReachesWhere State.step Unraised state later →
        ∀ id, later.workers id ≠ .asleep) := by
  obtain ⟨_, _, hinvariant⟩ := Reachable.sound h.reaches
  obtain ⟨hrepresents, _⟩ := hinvariant.consistent.linked.represents_actions
  have hserved := (ReachableWhere.service h).served
  refine ⟨_, hrepresents, hserved, ?_, ?_⟩
  · intro hpending
    have hpositive : 0 < state.available_workers := Nat.lt_of_lt_of_le (List.length_pos_iff.mpr hpending) hserved
    exact exists_of_count_pos hpositive
  · intro hstop later hrun
    have hstopped : later.stop_workers = true :=
      hrun.invariant hstop (fun _ _ _ hbefore _ hstep => act_stop_workers hbefore (step_eq_some.mp hstep).2)
    exact (ReachableWhere.service (h.trans hrun)).awake hstopped

/-- A message is complete and no worker is asleep that could be notified. -/
def pending_run : List Action :=
  Action.startup ++ Action.accept_round 6 23 [] ++
    [.test_signal, .build_lock, .build, .select [6] [], .pass_lock, .pass_first] ++
    Action.complete 23 none [0, 0, 0, 4]

theorem pending_clients_served_completed : ∃ state : State BoundedBuffer,
    state.connector.action_clients = [23] ∧ ∃ id, (state.workers id).available = true := by
  obtain ⟨state, hreachable, hcompleted⟩ := exists_reachesFromWhere_of_runWhere
    (by decide +kernel : ((runWhere State.step (fun state action => state.Unraised action)
      (State.initial BoundedBuffer (.filled 0xA5)) pending_run).any fun state =>
        state.connector.action_clients = [23]) = true)
  have hunraised : state.ReachableWhere Unraised := hreachable.weaken (fun _ _ hguard => of_decide_eq_true hguard)
  have hclients : state.connector.action_clients = [23] := of_decide_eq_true hcompleted
  obtain ⟨pending, hrepresents, _, havailable, _⟩ := pending_clients_served hunraised
  have hwalk : state.connector.action_clients = pending := hrepresents.walk
  exact ⟨state, hclients, havailable (by rw [← hwalk, hclients]; simp)⟩

end

end State

end ufh
