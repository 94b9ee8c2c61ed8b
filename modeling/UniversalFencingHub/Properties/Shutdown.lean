import UniversalFencingHub.Properties.LockDiscipline
import UniversalFencingHub.Properties.WorkerPool
import UniversalFencingHub.Threads.Wakeup

open transition

namespace ufh

/-- The positions behind `cleanup()`. -/
def SelectorPosition.cleaned : SelectorPosition → Bool
  | .stop_lock => true
  | .stop => true
  | .join => true
  | .finished => true
  | _ => false

theorem SelectorPosition.cleaned_stopped {position : SelectorPosition} (h : position.cleaned = true) :
    position.stopped = true ∧ position.drained = true ∧ position.holding = none := by
  cases position with
  | stop_lock => exact ⟨rfl, rfl, rfl⟩
  | stop => exact ⟨rfl, rfl, rfl⟩
  | join => exact ⟨rfl, rfl, rfl⟩
  | finished => exact ⟨rfl, rfl, rfl⟩
  | _ => cases h

theorem SelectorPosition.Next.cleaned {first second : SelectorPosition} {action : Action} (h : first.Next action second)
    (hcleaned : second.cleaned = true) :
    action = .cleanup_com ∨ first.cleaned = true ∧ action.on_lists = false := by
  cases h with
  | com_emptied => exact Or.inl rfl
  | stop_locked => exact Or.inr ⟨rfl, rfl⟩
  | stopped => exact Or.inr ⟨rfl, rfl⟩
  | joined => exact Or.inr ⟨rfl, rfl⟩
  | _ => cases hcleaned

namespace State

variable {Buf : Type} {before after state : State Buf} {place : ClientPtr → Place} {stamp : ClientPtr → Nat}
  {client : ClientPtr} {id : WorkerId} {action : Action} {strict : Prop}

/-- `cleanup()` leaves an empty `com_queue` behind. -/
def Cleaned (state : State Buf) : Prop :=
  state.selector.cleaned = true → state.connector.com_queue.head_node = none

/-- Nothing is left of the connections. -/
structure ShutDown (state : State Buf) : Prop where
  com_queue : state.connector.com_queue.head_node = none ∧ state.connector.com_queue.tail_node = none
  action_queue : state.connector.action_queue.head_node = none ∧ state.connector.action_queue.tail_node = none
  sockets : ∀ connection < state.connector.connections, 0 ≤ (state.connector.history connection).socket →
    (state.connector.history connection).closes = 1
  clients : ∀ client, client ∈ state.connector.client_pool.free_objects
  free_count : state.connector.client_pool.get_free_count = MAX_CONNECTIONS

section

variable [CharBuffer Buf]

/-- A worker that closes the client it holds leaves an empty `com_queue` behind. -/
theorem Invariant.close_leaves_empty (h : Invariant strict state place stamp) {role : Role}
    (hholds : state.holding (.worker id) = some (client, role)) :
    (state.connector.close_connection client).com_queue.head_node = none := by
  have hheld := (h.holding _ _ _).mp hholds
  exact close_empty state.connector (h.consistent.linked.detached client (by simp [hheld]) (by simp [hheld]))

theorem Cleaned.worker [LawfulCharBuffer Buf] (h : before.Cleaned) (hinvariant : Invariant strict before place stamp)
    (htrigger : before.Trigger) (hact : before.act action = some after) (haction : action.by_selector = false) :
    after.Cleaned := by
  intro hcleaned
  have hselector := (act_aside hact haction).selector
  rw [hselector] at hcleaned
  cases huses : before.uses_com_queue action with
  | false =>
    rw [(hinvariant.keeps_com hact huses).1]
    exact h hcleaned
  | true =>
    cases action with
    | worker_close id client =>
      obtain ⟨hposition, rfl⟩ := only_if_eq_some.mp hact
      exact hinvariant.close_leaves_empty (holding_worker hposition)
    | worker_hand_back id client =>
      obtain ⟨⟨hposition, _⟩, rfl⟩ := only_if_eq_some.mp hact
      have hsignal := htrigger.stopped (SelectorPosition.cleaned_stopped hcleaned).1
      rw [hand_back_eq_close hsignal]
      exact hinvariant.close_leaves_empty (holding_worker hposition)
    | build => cases haction
    | accept_add client => cases haction
    | pass_first => cases haction
    | visit client result => cases haction
    | cleanup_action => cases haction
    | cleanup_com => cases haction
    | _ => cases huses

theorem Cleaned.act [LawfulCharBuffer Buf] (h : before.Cleaned) (hinvariant : Invariant strict before place stamp)
    (htrigger : before.Trigger) (hact : before.act action = some after) : after.Cleaned := by
  cases haction : action.by_selector with
  | false => exact h.worker hinvariant htrigger hact haction
  | true =>
    intro hcleaned
    obtain rfl | ⟨hbefore, hlists⟩ := (act_next hact haction).cleaned hcleaned
    · obtain ⟨hposition, rfl⟩ := only_if_eq_some.mp hact
      obtain ⟨hhead, hempty⟩ | ⟨client, _, _, hfirst, _⟩ := hinvariant.consistent.com_remove_first .selector
      · rw [cleanup_com_empty hempty]
        exact hhead
      · rw [cleanup_com_eq hfirst, hposition] at hcleaned
        cases hcleaned
    · rw [(act_elsewhere hact hlists).1.1]
      exact h hbefore

theorem Reachable.cleaned [LawfulCharBuffer Buf] (h : state.Reachable) : state.Cleaned := by
  have hknown : ∀ state : State Buf, state.Reachable → state.Sound False ∧ state.Trigger :=
    fun _ hstate => ⟨Reachable.sound hstate, Reachable.trigger hstate⟩
  apply ReachesFrom.invariant_under h hknown
  · exact nofun
  · rintro before action after ⟨⟨_, _, hinvariant⟩, htrigger⟩ hbefore hstep
    exact hbefore.act hinvariant htrigger (step_eq_some.mp hstep).2

omit [CharBuffer Buf] in
theorem Orderly.unraised (h : state.Orderly action) : state.Unraised action := by
  cases action with
  | worker_process id client success_flag =>
    intro other hother
    obtain rfl := Option.some.inj hother
    exact h
  | _ => exact nofun

/-- After `cleanup()` every client is free as soon as no worker holds one. -/
theorem Invariant.all_free (h : Invariant True state place stamp) (hposition : state.selector.cleaned = true)
    (hcom : state.connector.com_queue.head_node = none) (haction : state.connector.action_clients = [])
    (hidle : ∀ id, (state.workers id).holding = none) (client : ClientPtr) : place client = .free := by
  cases hplace : place client with
  | free => rfl
  | queued =>
    have hmem := (h.represents_com.2 client).mpr hplace
    rw [com_clients_empty hcom] at hmem
    cases hmem
  | pending =>
    have hmem := (h.consistent.linked.represents_actions.2 client).mpr hplace
    rw [haction] at hmem
    cases hmem
  | held thread role =>
    have hheld := (h.holding thread client role).mpr hplace
    cases thread with
    | selector =>
      rw [State.holding, (SelectorPosition.cleaned_stopped hposition).2.2] at hheld
      cases hheld
    | worker id =>
      rw [State.holding, hidle id] at hheld
      cases hheld
  | lost => exact absurd hplace ((h.complete trivial).not_lost client)

/-- In a run without any of the errors, nothing is left of the connections once `cleanup()` has returned
and the workers have finished their clients. -/
theorem shutdown_complete [LawfulCharBuffer Buf] (h : state.ReachableWhere State.Orderly)
    (hposition : state.selector.cleaned = true) (hidle : ∀ id, (state.workers id).holding = none) : state.ShutDown := by
  obtain ⟨place, stamp, hinvariant⟩ := ReachableWhere.sound (fun _ _ hcondition => hcondition) h
  have hservice := ReachableWhere.service (h.weaken fun _ _ horderly => horderly.unraised)
  have hcom := Reachable.cleaned h.reaches hposition
  have haction := hservice.drained (SelectorPosition.cleaned_stopped hposition).2.1
  have hfree := hinvariant.all_free hposition hcom haction hidle
  obtain ⟨hqueued, _⟩ := hinvariant.represents_com
  obtain ⟨hpending, _⟩ := hinvariant.consistent.linked.represents_actions
  rw [com_clients_empty hcom] at hqueued
  rw [haction] at hpending
  have hpooled := hinvariant.consistent.pooled
  have hclients : ∀ client, client ∈ state.connector.client_pool.free_objects :=
    fun client => (hpooled.free_iff client).mpr (hfree client)
  refine ⟨⟨hqueued.head, hqueued.tail⟩, ⟨hpending.head, hpending.tail⟩, fun connection hconnection hvalid => ?_,
    hclients, ?_⟩
  · rw [hinvariant.consistent.sockets.unused connection hconnection (fun client hused => absurd (hfree client) hused),
      if_pos hvalid]
  · have hperm := (List.perm_ext_iff_of_nodup hpooled.valid.nodup (List.nodup_finRange _)).mpr
      (fun client => iff_of_true (hclients client) (List.mem_finRange client))
    rw [← hpooled.valid.free_length, hperm.length_eq, List.length_finRange]

/-- The steps from the stop signal to the end of the server. -/
def stop_steps (closes : Nat) : List Action :=
  [.signal, .signal_flag, .signal_write, .test_signal, .cleanup_socket, .cleanup_action_lock, .cleanup_action,
    .cleanup_com_lock, .cleanup_disable, .cleanup_signal] ++ List.replicate closes .cleanup_com ++ [.cleanup_com]

/-- A stop signal while one connection is open. -/
def stop_run : List Action := Action.startup ++ Action.accept_round 6 23 [] ++ stop_steps 1

theorem shutdown_complete_one : ∃ state : State BoundedBuffer, state.connector.connections = 1 ∧
    (state.connector.history 0).socket = 6 ∧ state.ShutDown := by
  obtain ⟨state, hreached, hfound⟩ := exists_reachesFromWhere_of_runWhere
    (by decide +kernel : ((runWhere State.step (fun state action => state.Orderly action)
      (State.initial BoundedBuffer (.filled 0xA5)) stop_run).any fun state =>
        state.connector.connections = 1 ∧ (state.connector.history 0).socket = 6 ∧ state.selector.cleaned = true ∧
          ∀ id, (state.workers id).holding = none) = true)
  obtain ⟨hconnections, hsocket, hposition, hidle⟩ := of_decide_eq_true hfound
  have horderly : state.ReachableWhere State.Orderly := hreached.weaken (fun _ _ hguard => of_decide_eq_true hguard)
  exact ⟨state, hconnections, hsocket, shutdown_complete horderly hposition hidle⟩

/-- A stop signal while two connections are open. -/
def stop_two_run : List Action :=
  Action.startup ++ Action.accept_round 6 23 [] ++ Action.accept_round 7 22 [23] ++ stop_steps 1

theorem shutdown_not_complete : ¬ ∀ state : State BoundedBuffer, state.Reachable → state.selector.cleaned = true →
    (∀ id, (state.workers id).holding = none) → state.ShutDown := by
  intro hshutdown
  obtain ⟨state, hreached, hfound⟩ := exists_reachesFrom_of_run
    (by decide +kernel : ((run State.step (State.initial BoundedBuffer (.filled 0xA5)) stop_two_run).any fun state =>
      state.selector.cleaned = true ∧ (∀ id, (state.workers id).holding = none) ∧
        1 < state.connector.connections ∧ (state.connector.history 1).socket = 7 ∧
        (state.connector.history 1).closes = 0) = true)
  obtain ⟨hposition, hidle, hconnection, hsocket, hcloses⟩ := of_decide_eq_true hfound
  have hclosed := (hshutdown state hreached hposition hidle).sockets 1 hconnection (by simp [hsocket])
  rw [hcloses] at hclosed
  cases hclosed

end

end State

end ufh
