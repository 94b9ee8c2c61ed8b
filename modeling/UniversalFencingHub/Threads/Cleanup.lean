import UniversalFencingHub.Threads.Pass

namespace ufh

/-- The last element leaves an empty queue behind. -/
theorem Queue.remove_first_last {T : Type} [DecidableEq T] {queue : Queue T} {nodes : Nodes T} {node : T}
    (hhead : queue.head_node = some node) (hlast : queue.head_node = queue.tail_node) :
    (queue.remove_first nodes).2.1.head_node = none := by
  rw [hhead] at hlast
  simp [Queue.remove_first, hhead, ← hlast]

namespace State

variable {Buf : Type} {before after state : State Buf} {place : ClientPtr → Place} {stamp : ClientPtr → Nat}
  {client : ClientPtr} {strict : Prop}

section

variable [CharBuffer Buf]

/-- Closing one of the connector's own descriptors leaves the clients alone. -/
theorem Invariant.close_own (h : Invariant strict state place stamp) {fd : Int} (hfd : fd ∈ state.own_fds) :
    Consistent (state.close_own fd).connector place stamp := by
  apply h.consistent.descriptors
  intro client hvalid hopen
  refine sys.mem_close_fd hopen ?_
  intro heq
  exact h.own.apart fd hfd (heq ▸ hvalid) client heq

theorem Invariant.cleanup_socket (h : Invariant strict state place stamp)
    (hposition : state.selector = .cleanup_socket) :
    state.cleanup_socket.Sound strict := by
  refine ⟨place, stamp, h.close_own (by simp [own_fds]), ?_, h.selector_outside rfl rfl rfl, ⟨?_, nofun⟩,
    Interest.idle rfl rfl, h.complete⟩
  · exact h.still_holding (by rw [hposition]; rfl) rfl
  · intro fd hfd hvalid
    have hmem : fd ∈ state.own_fds := by
      have hcases : fd = sys.FD_NONE ∨ fd = state.trigger_read ∨ fd = state.trigger_write := by
        simpa [own_fds, State.cleanup_socket, State.close_own] using hfd
      rcases hcases with rfl | rfl | rfl
      · cases hvalid
      · simp [own_fds]
      · simp [own_fds]
    exact h.own.apart fd hmem hvalid

/-- The selector closes a client that it has just taken off one of the queues. -/
theorem Invariant.cleanup_closes [LawfulCharBuffer Buf] (h : Invariant strict state place stamp)
    {connector : Connector Buf} {role : Role} (hplace : ∀ other held, place client ≠ .held other held)
    (hconsistent : Consistent connector (Function.update place client (.held .selector role)) stamp)
    (hsame : connector.clients = state.connector.clients ∧ connector.open_fds = state.connector.open_fds)
    (hpass : state.selector.before_pass = false) (hcursor : state.selector.cursor = none)
    (hcomplete : strict → Complete connector.com_queue connector.nodes
      (Function.update place client (.held .selector role)) ∧ connector.com_queue.head_node = none) :
    State.Sound strict { state with connector := connector.close_connection client } := by
  have hoff : (Function.update place client (.held .selector role) client).OffLists := by
    rw [Function.update_self]
    trivial
  have hclosed := hconsistent.close_connection (Or.inr hoff)
  rw [Function.update_idem] at hclosed
  have haffects : Affects client state.connector (connector.close_connection client) := by
    have hmoved : Affects client state.connector connector := .of_eq hsame.1 hsame.2
    exact hmoved.trans (by rw [hsame.1]) (affects_close_connection connector client)
  refine ⟨_, stamp, hclosed, ?_, h.com_lock, h.own.affects haffects rfl (fun hloop => hloop),
      Interest.idle hpass hcursor, ?_⟩
  · exact h.holding.move hplace (by simp)
  · intro hs
    obtain ⟨hcom, hempty⟩ := hcomplete hs
    have hdetached := hconsistent.linked.detached client (by simp) (by simp)
    have hremoved := hcom.remove_empty hempty hdetached (by simp) (by simp : Place.free ≠ .queued) (by simp)
    rw [Function.update_idem] at hremoved
    exact hremoved

theorem cleanup_action_eq (hfirst : state.connector.action_remove_first.1 = some client) :
    state.cleanup_action =
      { state with connector := state.connector.action_remove_first.2.close_connection client } := by
  unfold State.cleanup_action
  generalize state.connector.action_remove_first = removed at hfirst ⊢
  obtain ⟨first, connector⟩ := removed
  simp only at hfirst
  subst hfirst
  rfl

theorem Invariant.cleanup_action [LawfulCharBuffer Buf] (h : Invariant strict state place stamp)
    (hposition : state.selector = .cleanup_action)
    (hstrict : strict → state.connector.action_queue.head_node ≠ none → state.connector.com_queue.head_node = none) :
    state.cleanup_action.Sound strict := by
  obtain ⟨_, hempty⟩ | ⟨client, hhead, hpending, hfirst, hconsistent⟩ := h.consistent.action_remove_first .selector
  · simp only [State.cleanup_action, hempty]
    exact h.selector_silent ⟨rfl, rfl, rfl, rfl, nofun, nofun, nofun⟩ rfl (by rw [hposition]; rfl)
      (h.selector_outside rfl rfl rfl)
  · rw [cleanup_action_eq hfirst]
    refine h.cleanup_closes (by simp [hpending]) hconsistent ⟨rfl, rfl⟩ (by rw [hposition]; rfl)
      (by rw [hposition]; rfl) ?_
    intro hs
    refine ⟨?_, hstrict hs (by simp [hhead])⟩
    exact (h.complete hs).action_remove_first h.consistent.linked (by simp [hpending]) (by simp) (by simp)

theorem cleanup_com_eq (hfirst : state.connector.com_remove_first.1 = some client) :
    state.cleanup_com = { state with connector := state.connector.com_remove_first.2.close_connection client } := by
  unfold State.cleanup_com
  generalize state.connector.com_remove_first = removed at hfirst ⊢
  obtain ⟨first, connector⟩ := removed
  simp only at hfirst
  subst hfirst
  rfl

theorem cleanup_com_empty (hempty : state.connector.com_remove_first = (none, state.connector)) :
    state.cleanup_com =
      { state with
        connector :=
          { state.connector with
            open_fds :=
              (sys.close_fd (sys.close_fd state.connector.open_fds state.trigger_read).1 state.trigger_write).1 }
        trigger_read := sys.FD_NONE
        trigger_write := sys.FD_NONE
        com_queue_lock := none
        selector := .stop_lock } := by
  simp only [State.cleanup_com, hempty]
  rfl

theorem Invariant.cleanup_com [LawfulCharBuffer Buf] (h : Invariant strict state place stamp)
    (hposition : state.selector = .cleanup_com)
    (hstrict : strict → state.connector.com_queue.head_node = state.connector.com_queue.tail_node) :
    state.cleanup_com.Sound strict := by
  have hinside : state.selector.in_com_section = true := by rw [hposition]; rfl
  obtain ⟨_, hempty⟩ | ⟨client, hhead, hqueued, hfirst, hconsistent⟩ := h.consistent.com_remove_first .selector
  · rw [cleanup_com_empty hempty]
    refine ⟨place, stamp, ?_, ?_, h.selector_releases rfl hinside rfl, ⟨?_, nofun⟩, Interest.idle rfl rfl, h.complete⟩
    · apply h.consistent.descriptors
      intro client hvalid hopen
      have hne : ∀ fd ∈ state.own_fds, (state.connector.clients client).socket_fd ≠ fd :=
        fun fd hfd heq => h.own.apart fd hfd (heq ▸ hvalid) client heq
      exact sys.mem_close_fd (sys.mem_close_fd hopen (hne _ (by simp [own_fds]))) (hne _ (by simp [own_fds]))
    · exact h.still_holding (by rw [hposition]; rfl) rfl
    · intro fd hfd hvalid
      have hmem : fd ∈ state.own_fds := by
        have hcases : fd = state.socket_fd ∨ fd = sys.FD_NONE := by
          simpa [own_fds, State.close_own] using hfd
        rcases hcases with rfl | rfl
        · simp [own_fds]
        · cases hvalid
      exact h.own.apart fd hmem hvalid
  · rw [cleanup_com_eq hfirst]
    refine h.cleanup_closes (by simp [hqueued]) hconsistent ⟨rfl, rfl⟩ (by rw [hposition]; rfl)
      (by rw [hposition]; rfl) ?_
    intro hs
    exact ⟨(h.complete hs).remove_first hhead (by simp) (by simp), Queue.remove_first_last hhead (hstrict hs)⟩

/-- The end of the worker pool changes no position at which a worker holds a client. -/
theorem Invariant.stop_threads (h : Invariant strict state place stamp) (hposition : state.selector = .stop) :
    state.stop_threads.Sound strict := by
  have hworkers : ∀ id, (state.stop_threads.workers id).holding = (state.workers id).holding ∧
      (state.stop_threads.workers id).in_com_section = (state.workers id).in_com_section := by
    intro id
    by_cases hasleep : state.workers id = .asleep
    · have hwoken : state.stop_threads.workers id = .locking := if_pos hasleep
      rw [hwoken, hasleep]
      exact ⟨rfl, rfl⟩
    · have hsame : state.stop_threads.workers id = state.workers id := if_neg hasleep
      rw [hsame]
      exact ⟨rfl, rfl⟩
  refine ⟨place, stamp, h.silent ⟨rfl, rfl, rfl, rfl, nofun, nofun, nofun⟩ ?_ ?_⟩
  · exact holding_eq (by rw [hposition]; rfl) (fun id => (hworkers id).1)
  · apply h.com_lock.keep
    intro thread hthread
    cases thread with
    | selector => cases hthread
    | worker id => exact (hworkers id).2.symm.trans hthread

end

end State

end ufh
