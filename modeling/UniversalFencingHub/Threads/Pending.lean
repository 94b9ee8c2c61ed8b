import UniversalFencingHub.ServerConnector.Walks
import UniversalFencingHub.Threads.Effects

namespace ufh

/-- What a step does to the clients on `action_queue`. -/
def Action.on_action_queue : Action → List ClientPtr → List ClientPtr
  | .enqueue client _ _, clients => clients ++ [client]
  | .worker_take _, clients => clients.tail
  | .cleanup_action, clients => clients.tail
  | _, clients => clients

/-- The steps that put a client on `action_queue` or take one off it. -/
def Action.uses_action_queue : Action → Bool
  | .enqueue _ _ _ => true
  | .cleanup_action => true
  | .worker_take _ => true
  | _ => false

namespace State

variable {Buf : Type} {before after state : State Buf} {place : ClientPtr → Place} {stamp : ClientPtr → Nat}
  {client : ClientPtr} {id : WorkerId} {strict : Prop} {action : Action}

theorem take_action_clients (hlinked : Linked state.connector.com_queue state.connector.action_queue
    state.connector.nodes place stamp) (id : WorkerId) :
    (state.take id).connector.action_clients = state.connector.action_clients.tail := by
  have hwalk := hlinked.walk_remove_first
  have htaken : state.connector.take_action.2.action_clients =
    state.connector.action_remove_first.2.action_clients := by
    unfold Connector.take_action
    split
    · next heq => rw [heq]
    · next heq => rw [heq]; rfl
  rw [← hwalk, ← htaken]
  unfold State.take
  split
  · next heq => rw [heq]
  · next heq => rw [heq]

theorem enqueue_action_clients (hlinked : Linked state.connector.com_queue state.connector.action_queue
    state.connector.nodes place stamp) (hclient : place client ≠ .pending) (next_client : Option ClientPtr)
    (target : Option WorkerId) : (state.enqueue client next_client target).connector.action_clients =
      state.connector.action_clients ++ [client] := by
  rw [← hlinked.walk_add_last hclient]
  cases target with
  | none => rfl
  | some id => rfl

section

variable [CharBuffer Buf]

theorem hand_back_keeps_pending (h : Invariant strict state place stamp)
    (hposition : state.workers id = .hand_back client) :
    KeepsPending place state.connector (state.hand_back id client).connector := by
  have hheld := (h.holding _ _ _).mp (holding_worker hposition)
  have hoff : (place client).OffLists := by rw [hheld]; trivial
  unfold State.hand_back
  simp only
  split
  · exact .close h.consistent.linked (Or.inr hoff)
  · obtain ⟨pipe_bytes, hwakeup⟩ := wakeup_selector_eq
      { state.set_worker id .relock with connector := (state.set_worker id .relock).connector.com_add_last client }
    rw [hwakeup]
    exact .add_last h.consistent.linked hoff

theorem visit_keeps_pending [LawfulCharBuffer Buf] (h : Invariant strict state place stamp)
    (hposition : state.selector = .pass (some client)) {result : IoResult}
    (hpossible : (state.connector.clients client).io_possible state.read_fd_set state.write_fd_set result) :
    KeepsPending place state.connector (state.visit client result).connector := by
  have hcursor : state.selector.cursor = some client := by rw [hposition]; rfl
  by_cases hpipe : result = .broken_pipe
  · simp only [State.visit, if_pos hpipe]
    exact .of_eq rfl rfl
  · have hqueued := h.interest.cursor client hcursor
    obtain ⟨hread, hwrite⟩ := h.interest.fits client hqueued (Or.inr ⟨client, hcursor, le_rfl⟩)
    obtain ⟨hpending, hrest⟩ := h.consistent.perform_io hqueued hread hwrite hpossible hpipe
    rw [visit_eq hpipe]
    cases hdone : (state.connector.perform_io state.read_fd_set state.write_fd_set client result).2 with
    | true => exact .unlinks h.consistent.linked hqueued (hpending hdone).2
    | false =>
      obtain ⟨_, hsame⟩ | ⟨_, hunlinks⟩ := hrest hdone
      · exact .of_eq hsame.2.2 hsame.2.1
      · exact .unlinks h.consistent.linked hqueued hunlinks

theorem accept_keeps_pending (state : State Buf) (place : ClientPtr → Place) (fd : Int) :
    KeepsPending place state.connector (state.accept fd).connector := by
  unfold State.accept
  cases haccept : state.connector.accept fd with
  | none => exact .of_eq rfl rfl
  | some accepted => exact .accept haccept

/-- A client that has just been taken off one of the queues is closed. -/
theorem cleanup_action_clients (h : Invariant strict state place stamp) :
    state.cleanup_action.connector.action_clients = state.connector.action_clients.tail := by
  have hwalk := h.consistent.linked.walk_remove_first
  obtain ⟨hhead, hempty⟩ | ⟨client, hhead, _, hfirst, hconsistent⟩ := h.consistent.action_remove_first .selector
  · rw [hempty] at hwalk
    rw [← hwalk]
    simp only [State.cleanup_action, hempty]
  · rw [cleanup_action_eq hfirst, ← hwalk]
    have hoff : (Function.update place client (.held .selector .completed) client).OffLists := by
      rw [Function.update_self]
      trivial
    exact KeepsPending.walk (.close hconsistent.linked (Or.inr hoff)) hconsistent.linked

theorem cleanup_com_keeps_pending (h : Invariant strict state place stamp) :
    KeepsPending place state.connector state.cleanup_com.connector := by
  obtain ⟨_, hempty⟩ | ⟨client, hhead, hqueued, hfirst, hconsistent⟩ := h.consistent.com_remove_first .selector
  · rw [cleanup_com_empty hempty]
    exact .of_eq rfl rfl
  · have hkept : KeepsPending place state.connector state.connector.com_remove_first.2 := by
      refine ⟨rfl, fun other hother => ?_⟩
      change (state.connector.com_queue.remove_first state.connector.nodes).2.2 other = _
      rw [h.consistent.linked.com_remove_first_nodes hhead]
      exact h.consistent.linked.com_remove_kept hqueued (by simp [hother])
    have hoff : (Function.update place client (.held .selector .ended) client).OffLists := by
      rw [Function.update_self]
      trivial
    have hclosed : KeepsPending (Function.update place client (.held .selector .ended))
        state.connector.com_remove_first.2 (state.connector.com_remove_first.2.close_connection client) :=
      .close hconsistent.linked (Or.inr hoff)
    rw [cleanup_com_eq hfirst]
    refine ⟨hclosed.action_queue.trans hkept.action_queue, fun other hother => ?_⟩
    have hne : other ≠ client := fun heq => by rw [heq, hqueued] at hother; cases hother
    exact (hclosed.nodes other (by rw [Function.update_of_ne hne, hother])).trans (hkept.nodes other hother)

theorem cleanup_com_clients (h : Invariant strict state place stamp) :
    state.cleanup_com.connector.action_clients = state.connector.action_clients :=
  (cleanup_com_keeps_pending h).walk h.consistent.linked

/-- The other steps leave `action_queue` and the links of the pending clients alone. -/
theorem Invariant.keeps_pending [LawfulCharBuffer Buf] (h : Invariant strict before place stamp)
    (hact : before.act action = some after) (haction : action.uses_action_queue = false) :
    KeepsPending place before.connector after.connector := by
  have hlinked := h.consistent.linked
  cases hlists : action.on_lists with
  | false =>
    obtain ⟨⟨_, hnodes, hqueue⟩, _⟩ := act_elsewhere hact hlists
    exact .of_eq hqueue hnodes
  | true =>
    cases action with
    | cleanup_com =>
      obtain ⟨_, rfl⟩ := only_if_eq_some.mp hact
      exact cleanup_com_keeps_pending h
    | accept fd =>
      obtain ⟨_, rfl⟩ := only_if_eq_some.mp hact
      exact accept_keeps_pending before place fd
    | accept_add client =>
      obtain ⟨hposition, rfl⟩ := only_if_eq_some.mp hact
      have hholds : before.holding .selector = some (client, .accepted) := congrArg SelectorPosition.holding hposition
      have hheld := (h.holding _ _ _).mp hholds
      exact .add_last hlinked (by rw [hheld]; trivial)
    | visit client result =>
      obtain ⟨⟨hposition, hpossible⟩, rfl⟩ := only_if_eq_some.mp hact
      exact visit_keeps_pending h hposition hpossible
    | worker_hand_back id client =>
      obtain ⟨⟨hposition, _⟩, rfl⟩ := only_if_eq_some.mp hact
      exact hand_back_keeps_pending h hposition
    | worker_close id client =>
      obtain ⟨hposition, rfl⟩ := only_if_eq_some.mp hact
      have hheld := (h.holding _ _ _).mp (holding_worker hposition)
      exact .close hlinked (Or.inr (by rw [hheld]; trivial))
    | enqueue client next_client target => cases haction
    | cleanup_action => cases haction
    | worker_take id => cases haction
    | _ => cases hlists

/-- The only steps that change `action_queue` are those that put a client on it or take
one off it. -/
theorem Invariant.action_clients [LawfulCharBuffer Buf] (h : Invariant strict before place stamp)
    (hact : before.act action = some after) :
    after.connector.action_clients = action.on_action_queue before.connector.action_clients := by
  have hlinked := h.consistent.linked
  cases haction : action.uses_action_queue with
  | false =>
    rw [(h.keeps_pending hact haction).walk hlinked]
    cases action with
    | enqueue client next_client target => cases haction
    | cleanup_action => cases haction
    | worker_take id => cases haction
    | _ => rfl
  | true =>
    cases action with
    | enqueue client next_client target =>
      obtain ⟨⟨hposition, _⟩, rfl⟩ := only_if_eq_some.mp hact
      have hholds : before.holding .selector = some (client, .completed) := congrArg SelectorPosition.holding hposition
      have hheld := (h.holding _ _ _).mp hholds
      exact enqueue_action_clients hlinked (by simp [hheld]) next_client target
    | worker_take id =>
      obtain ⟨_, rfl⟩ := only_if_eq_some.mp hact
      exact take_action_clients hlinked id
    | cleanup_action =>
      obtain ⟨_, rfl⟩ := only_if_eq_some.mp hact
      exact cleanup_action_clients h
    | _ => cases haction

end

end State

end ufh
