import UniversalFencingHub.Properties.Conservation
import UniversalFencingHub.Threads.ActionLock

open transition linked_list

namespace ufh

/-- The thread that takes a step. The signal handler belongs to none of them. -/
def Action.thread : Action → Option Thread
  | .worker_lock id => some (.worker id)
  | .worker_test id => some (.worker id)
  | .worker_take id => some (.worker id)
  | .worker_process id _ _ => some (.worker id)
  | .worker_hand_back_lock id _ => some (.worker id)
  | .worker_hand_back id _ => some (.worker id)
  | .worker_close id _ => some (.worker id)
  | .worker_relock id => some (.worker id)
  | .worker_wait id => some (.worker id)
  | .worker_wake id => some (.worker id)
  | .signal => none
  | .signal_flag => none
  | .signal_write => none
  | _ => some .selector

namespace State

variable {Buf : Type} {before after state : State Buf} {place : ClientPtr → Place} {stamp : ClientPtr → Nat}
  {client : ClientPtr} {action : Action} {strict : Prop}

/-- The steps that call a member function of `com_queue`: they walk over it, add a client to it, or
remove one, `close_connection` included. -/
def uses_com_queue (state : State Buf) : Action → Bool
  | .build => true
  | .accept_add _ => true
  | .pass_first => true
  | .visit _ _ => true
  | .cleanup_action => state.connector.action_queue.head_node.isSome
  | .cleanup_com => true
  | .worker_hand_back _ _ => true
  | .worker_close _ _ => true
  | _ => false

/-- The rule about the locks, for one step: whoever uses a queue holds its lock, and a step that does not
use a queue changes neither the queue nor the links of the clients on it. -/
structure Disciplined (before : State Buf) (action : Action) (after : State Buf) : Prop where
  com_queue : before.uses_com_queue action = true → before.com_queue_lock.isSome ∧ before.com_queue_lock = action.thread
  com_queue_kept : before.uses_com_queue action = false →
    after.connector.com_queue = before.connector.com_queue ∧
      ∀ client, before.OnComQueue client → after.connector.nodes client = before.connector.nodes client
  action_queue : action.uses_action_queue = true →
    before.action_queue_lock.isSome ∧ before.action_queue_lock = action.thread
  action_queue_kept : action.uses_action_queue = false →
    after.connector.action_queue = before.connector.action_queue ∧
      ∀ client ∈ before.connector.action_clients, after.connector.nodes client = before.connector.nodes client

/-- The steps that close a client without `com_queue_lock`. -/
def closes_unlocked (state : State Buf) : Action → Bool
  | .worker_close _ _ => true
  | .cleanup_action => state.connector.action_queue.head_node.isSome
  | _ => false

/-- The steps that keep the rule, and after which no thread unlocks a lock that it does not hold. -/
def Guarded (state : State Buf) (action : Action) : Prop :=
  state.closes_unlocked action = false ∧ state.Unraised action

instance (state : State Buf) (action : Action) : Decidable (state.Guarded action) :=
  inferInstanceAs (Decidable (_ ∧ _))

section

variable [CharBuffer Buf]

/-- A step that does not use `com_queue` leaves it and the links of the queued clients alone. -/
theorem Invariant.keeps_com [LawfulCharBuffer Buf] (h : Invariant strict before place stamp)
    (hact : before.act action = some after)
    (huses : before.uses_com_queue action = false) :
    after.connector.com_queue = before.connector.com_queue ∧
      ∀ client, place client = .queued → after.connector.nodes client = before.connector.nodes client := by
  have hlinked := h.consistent.linked
  cases hlists : action.on_lists with
  | false =>
    obtain ⟨⟨hcom, hnodes, _⟩, _⟩ := act_elsewhere hact hlists
    exact ⟨hcom, fun _ _ => by rw [hnodes]⟩
  | true =>
    cases action with
    | accept fd =>
      obtain ⟨⟨_, hpossible⟩, rfl⟩ := only_if_eq_some.mp hact
      unfold State.accept
      cases haccept : before.connector.accept fd with
      | none => exact ⟨rfl, fun _ _ => rfl⟩
      | some accepted =>
        obtain ⟨taken, connector⟩ := accepted
        obtain ⟨_, _, _, _, _, _, hcom, hnodes⟩ := h.consistent.accept hpossible haccept
        exact ⟨hcom, fun _ _ => by rw [← hnodes]⟩
    | enqueue client next_client target =>
      obtain ⟨⟨hposition, _⟩, rfl⟩ := only_if_eq_some.mp hact
      have hholds : before.holding .selector = some (client, .completed) := congrArg SelectorPosition.holding hposition
      have hheld := (h.holding _ _ _).mp hholds
      have hkept : ∀ other, place other = .queued →
          (before.connector.action_add_last client).nodes other = before.connector.nodes other := by
        intro other hother
        exact hlinked.action_add_last_kept (fun heq => by rw [heq, hheld] at hother; cases hother) (by simp [hother])
      cases target with
      | none => exact ⟨rfl, hkept⟩
      | some id => exact ⟨rfl, hkept⟩
    | cleanup_action =>
      obtain ⟨_, rfl⟩ := only_if_eq_some.mp hact
      obtain ⟨_, hnone⟩ | ⟨client, hhead, _⟩ := h.consistent.action_remove_first .selector
      · simp [State.cleanup_action, hnone]
      · simp [uses_com_queue, hhead] at huses
    | worker_take id =>
      obtain ⟨_, rfl⟩ := only_if_eq_some.mp hact
      obtain ⟨_, hnone⟩ | ⟨client, _, _, hfirst, _, _, hcom, hnodes⟩ := h.consistent.take_action (.worker id)
      · simp [State.take, hnone, set_worker]
      · rw [take_eq hfirst]
        refine ⟨hcom, fun other hother => ?_⟩
        rw [show (_ : State Buf).connector.nodes = _ from hnodes]
        exact hlinked.action_remove_first_kept (by simp [hother])
    | accept_add client => cases huses
    | visit client result => cases huses
    | cleanup_com => cases huses
    | worker_hand_back id client => cases huses
    | worker_close id client => cases huses
    | _ => cases hlists

/-- A guarded step that uses `com_queue` is inside a section of `com_queue_lock`. -/
theorem com_section_of_uses (hact : before.act action = some after) (huses : before.uses_com_queue action = true)
    (hguarded : before.closes_unlocked action = false) :
    ∃ thread, action.thread = some thread ∧ before.in_com_section thread = true := by
  have hselector : ∀ {position : SelectorPosition}, before.selector = position → position.in_com_section = true →
      before.in_com_section .selector = true := by
    rintro position hposition hinside
    rw [← hposition] at hinside
    exact hinside
  cases action with
  | build =>
    obtain ⟨hposition, _⟩ := only_if_eq_some.mp hact
    exact ⟨.selector, rfl, hselector hposition rfl⟩
  | accept_add client =>
    obtain ⟨hposition, _⟩ := only_if_eq_some.mp hact
    exact ⟨.selector, rfl, hselector hposition rfl⟩
  | pass_first =>
    obtain ⟨hposition, _⟩ := only_if_eq_some.mp hact
    exact ⟨.selector, rfl, hselector hposition rfl⟩
  | visit client result =>
    obtain ⟨⟨hposition, _⟩, _⟩ := only_if_eq_some.mp hact
    exact ⟨.selector, rfl, hselector hposition rfl⟩
  | cleanup_com =>
    obtain ⟨hposition, _⟩ := only_if_eq_some.mp hact
    exact ⟨.selector, rfl, hselector hposition rfl⟩
  | worker_hand_back id client =>
    obtain ⟨⟨hposition, _⟩, _⟩ := only_if_eq_some.mp hact
    refine ⟨.worker id, rfl, ?_⟩
    change (before.workers id).in_com_section = true
    rw [hposition]
    rfl
  | cleanup_action =>
    rw [show before.uses_com_queue .cleanup_action = before.closes_unlocked .cleanup_action from rfl, hguarded] at huses
    cases huses
  | worker_close id client => cases hguarded
  | _ => cases huses

/-- A step that uses `action_queue` is inside a section of `action_queue_lock`. -/
theorem action_section_of_uses (hact : before.act action = some after) (huses : action.uses_action_queue = true) :
    ∃ thread, action.thread = some thread ∧ before.in_action_section thread = true := by
  cases action with
  | enqueue client next_client target =>
    obtain ⟨⟨hposition, _⟩, _⟩ := only_if_eq_some.mp hact
    refine ⟨.selector, rfl, ?_⟩
    change before.selector.in_action_section = true
    rw [hposition]
    rfl
  | cleanup_action =>
    obtain ⟨hposition, _⟩ := only_if_eq_some.mp hact
    refine ⟨.selector, rfl, ?_⟩
    change before.selector.in_action_section = true
    rw [hposition]
    rfl
  | worker_take id =>
    obtain ⟨hposition, _⟩ := only_if_eq_some.mp hact
    refine ⟨.worker id, rfl, ?_⟩
    change (before.workers id).in_action_section = true
    rw [hposition]
    rfl
  | _ => cases huses

omit [CharBuffer Buf] in
theorem owns_of_section {owner : Option Thread} {inside : Thread → Bool} (h : Exclusive owner inside)
    (hinside : ∃ thread, action.thread = some thread ∧ inside thread = true) :
    owner.isSome = true ∧ owner = action.thread := by
  obtain ⟨thread, hthread, hinside⟩ := hinside
  rw [h thread hinside, hthread]
  exact ⟨rfl, rfl⟩

/-- In a run all of whose steps are guarded, every step keeps the rule about the locks. -/
theorem lock_discipline [LawfulCharBuffer Buf] (h : before.ReachableWhere Guarded) (hguarded : before.Guarded action)
    (hstep : before.step action = some after) : Disciplined before action after := by
  obtain ⟨place, stamp, hinvariant⟩ := Reachable.sound h.reaches
  have hlock := ReachableWhere.action_lock (fun _ _ hguard => hguard.2) h
  have hlinked := hinvariant.consistent.linked
  obtain ⟨_, hact⟩ := step_eq_some.mp hstep
  refine ⟨fun huses => ?_, fun huses => ?_, fun huses => ?_, fun huses => ?_⟩
  · exact owns_of_section hinvariant.com_lock (com_section_of_uses hact huses hguarded.1)
  · obtain ⟨hcom, hnodes⟩ := hinvariant.keeps_com hact huses
    exact ⟨hcom, fun client ⟨fuel, hmem⟩ => hnodes client (hlinked.follow_queued fuel client hmem)⟩
  · exact owns_of_section hlock.lock (action_section_of_uses hact huses)
  · have hkeeps := hinvariant.keeps_pending hact huses
    obtain ⟨_, hmem⟩ := hlinked.represents_actions
    exact ⟨hkeeps.action_queue, fun client hclient => hkeeps.nodes client ((hmem client).mp hclient)⟩

/-- A worker is about to hand a client back. -/
def answered_run : List Action :=
  Action.startup ++ Action.accept_round 6 23 [] ++ Action.round [6] [] [] (Action.complete 23 none [0, 0, 0, 4]) ++
    Action.work 0 23 false ++ [.worker_hand_back_lock 0 23]

theorem lock_discipline_hand_back : ∃ before after : State BoundedBuffer,
    before.step (.worker_hand_back 0 23) = some after ∧ before.com_queue_lock = some (.worker 0) := by
  obtain ⟨before, hreached, hfound⟩ := exists_reachesFromWhere_of_runWhere
    (by decide +kernel : ((runWhere State.step (fun state action => state.Guarded action)
      (State.initial BoundedBuffer (.filled 0xA5)) answered_run).any fun state =>
        (state.step (.worker_hand_back 0 23)).isSome = true) = true)
  obtain ⟨after, hstep⟩ := Option.isSome_iff_exists.mp (of_decide_eq_true hfound)
  have hguarded : before.ReachableWhere Guarded := hreached.weaken (fun _ _ hguard => of_decide_eq_true hguard)
  have hdisciplined := lock_discipline hguarded (⟨rfl, nofun⟩ : before.Guarded (.worker_hand_back 0 23)) hstep
  exact ⟨before, after, hstep, (hdisciplined.com_queue rfl).2⟩

theorem locks_not_disciplined : ¬ ∀ (before after : State BoundedBuffer) (action : Action),
    before.Reachable → before.step action = some after → Disciplined before action after := by
  intro hdisciplined
  obtain ⟨before, hreached, hfound⟩ := exists_reachesFrom_of_run
    (by decide +kernel : ((run State.step (State.initial BoundedBuffer (.filled 0xA5)) rejected_run).any fun state =>
      (state.step (.worker_close 0 23)).isSome = true ∧ state.com_queue_lock = none) = true)
  obtain ⟨hstep, hfree⟩ := of_decide_eq_true hfound
  obtain ⟨after, hstep⟩ := Option.isSome_iff_exists.mp hstep
  have hlock := ((hdisciplined before after (.worker_close 0 23) hreached hstep).com_queue rfl).1
  rw [hfree] at hlock
  cases hlock

end

end State

end ufh
