import UniversalFencingHub.ServerConnector.Walks
import UniversalFencingHub.Threads.ActionLock
import UniversalFencingHub.Threads.Operations

open linked_list transition ufh.CharBuffer

namespace ufh

namespace NetClient

/-- What the constructor and `receive_message` guarantee of the buffers of a client. The
message in `io_buffer` is arbitrary. -/
structure Bounded {Buf : Type} [CharBuffer Buf] (client : NetClient Buf) : Prop where
  capacities : client.Capacities
  buffer_length : client.io_buffer.length = IO_BUFFER_SIZE
  io_offset : client.io_offset ≤ IO_BUFFER_SIZE

variable {Buf : Type} [CharBuffer Buf] [LawfulCharBuffer Buf] {client : NetClient Buf}

theorem Bounded.fence_action (h : client.Bounded) (fence : Server.FenceActionMethod) (success_flag : Bool) :
    (client.fence_action fence success_flag).client.socket_fd = client.socket_fd ∧
      (client.fence_action fence success_flag).outcome =
        if protocol.parse_request (client.payload_from MsgHeader.HEADER_SIZE) = .raises then .error .RangeException
        else .ok () := by
  have hlength : (client.payload_from MsgHeader.HEADER_SIZE).length ≤ client.io_offset := by
    simp only [payload_from, List.length_drop, List.length_take]
    omega
  have hread := read_fields_spec client.io_offset client MsgHeader.HEADER_SIZE
    (by rw [h.buffer_length]; exact h.io_offset)
    h.io_offset h.capacities hlength
  rw [protocol.leading_pairs_fuel (Nat.le_refl _) hlength] at hread
  obtain ⟨hsame, _, houtcome, _, _⟩ := hread
  unfold NetClient.fence_action protocol.parse_request
  generalize protocol.leading_pairs (client.payload_from MsgHeader.HEADER_SIZE).length
    (client.payload_from MsgHeader.HEADER_SIZE) = result at houtcome
  generalize read_fields client.io_offset client MsgHeader.HEADER_SIZE = loop at houtcome hsame
  obtain ⟨pairs, complete⟩ := result
  obtain ⟨parsed, outcome⟩ := loop
  simp only at houtcome hsame
  obtain ⟨_, _, _, _, rfl⟩ := hsame
  subst houtcome
  cases hany : pairs.any protocol.oversized with
  | true => simp [hany]
  | false =>
    cases complete with
    | false => simp [hany]
    | true =>
      have hfits : ∀ nodename secret : Bytes,
          (if nodename = [] then protocol.Request.no_nodename else .fence nodename secret) ≠ .raises := by
        intro nodename secret
        split
        · exact fun hraises => by cases hraises
        · exact fun hraises => by cases hraises
      simp only [hany, Bool.false_eq_true, if_false, if_true, Bool.not_true, if_neg (hfits _ _)]
      split
      · exact ⟨rfl, rfl⟩
      · exact ⟨rfl, rfl⟩

/-- The exception escapes from message processing exactly for a fence request with a value
that does not fit its buffer. -/
theorem Bounded.process (h : client.Bounded) (success_flag : Bool) :
    (client.process_client_message success_flag).client.socket_fd = client.socket_fd ∧
      (client.process_client_message success_flag).outcome =
        if client.message.response = .abandon then .error .RangeException else .ok () := by
  unfold process_client_message Message.response
  change _ ∧ _ = if (if client.header.msg_type = _ then _ else _) = Response.abandon then _ else _
  by_cases hecho : client.header.msg_type = protocol.MsgType.ECHO_REQUEST.value
  · rw [if_pos hecho, if_pos hecho]
    exact ⟨rfl, rfl⟩
  · rw [if_neg hecho, if_neg hecho]
    by_cases hversion : client.header.msg_type = protocol.MsgType.VERSION_REQUEST.value
    · rw [if_pos hversion, message, hversion]
      exact ⟨rfl, rfl⟩
    · rw [if_neg hversion, message]
      cases fence_method client.header.msg_type with
      | none => exact ⟨rfl, rfl⟩
      | some method =>
        obtain ⟨hfd, houtcome⟩ := h.fence_action method success_flag
        simp only [houtcome]
        unfold payload_from
        cases protocol.parse_request ((client.io_buffer.take client.io_offset).drop MsgHeader.HEADER_SIZE) with
        | raises => exact ⟨hfd, rfl⟩
        | malformed => exact ⟨hfd, rfl⟩
        | no_nodename => exact ⟨hfd, rfl⟩
        | fence nodename secret => exact ⟨hfd, rfl⟩

end NetClient

/-- The connector in the middle of a call of `process_action_queue`: `rest` are the clients
still on `action_queue`, `held` is the client that the call deals with, and `closed` are those
that it has closed. -/
structure Serving {Buf : Type} (first : Connector Buf) (rest held closed : List ClientPtr) (connector : Connector Buf) :
    Prop where
  lists : ∃ place stamp, Linked connector.com_queue connector.action_queue connector.nodes place stamp ∧
    Pooled connector.client_pool place ∧ ∀ client ∈ held, (place client).OffLists
  actions : connector.action_clients = rest
  unchanged : ∀ client ∈ rest, connector.clients client = first.clients client
  held_fd : ∀ client ∈ held, (connector.clients client).socket_fd = (first.clients client).socket_fd
  closed : ∀ client ∈ closed, client ∈ connector.client_pool.free_objects ∧
    (connector.clients client).socket_fd = sys.FD_NONE ∧
    (0 ≤ (first.clients client).socket_fd → (first.clients client).socket_fd ∉ connector.open_fds)

namespace Serving

variable {Buf : Type} {first connector after : Connector Buf} {rest held closed : List ClientPtr} {client : ClientPtr}

/-- A step that changes the object of the held client only. -/
theorem set_client {object : NetClient Buf} (h : Serving first rest [client] closed connector)
    (hclients : after.clients = Function.update connector.clients client object)
    (hqueues : SameQueues connector after) (hpool : after.client_pool = connector.client_pool)
    (hopen : after.open_fds = connector.open_fds) (hfd : object.socket_fd = (connector.clients client).socket_fd) :
    Serving first rest [client] closed after := by
  obtain ⟨hcom, hnodes, haction⟩ := hqueues
  obtain ⟨place, stamp, hlinked, hpooled, hheld⟩ := h.lists
  have hoff := Place.not_listed (hheld client (List.mem_singleton_self client))
  obtain ⟨_, hpending⟩ := hlinked.represents_actions
  have hactions : after.action_clients = connector.action_clients := by
    unfold Connector.action_clients
    rw [hnodes, haction]
  refine ⟨⟨place, stamp, ?_, hpool ▸ hpooled, hheld⟩, hactions.trans h.actions, fun other hother => ?_,
      fun other hother => ?_,
    fun other hother => ?_⟩
  · rw [hcom, haction, hnodes]
    exact hlinked
  · have hne : other ≠ client := by
      rintro rfl
      rw [← h.actions] at hother
      exact hoff.2.2 ((hpending other).mp hother)
    rw [hclients, Function.update_of_ne hne]
    exact h.unchanged other hother
  · obtain rfl := List.mem_singleton.mp hother
    rw [hclients, Function.update_self, hfd]
    exact h.held_fd other hother
  · obtain ⟨hfree, hnone, hgone⟩ := h.closed other hother
    have hne : other ≠ client := by
      rintro rfl
      exact hoff.1 ((hpooled.free_iff other).mp hfree)
    rw [hclients, Function.update_of_ne hne, hpool, hopen]
    exact ⟨hfree, hnone, hgone⟩

theorem drop (h : Serving first rest held closed connector) : Serving first rest [] closed connector := by
  obtain ⟨place, stamp, hlinked, hpooled, _⟩ := h.lists
  exact ⟨⟨place, stamp, hlinked, hpooled, nofun⟩, h.actions, h.unchanged, nofun, h.closed⟩

/-- The next client is taken off `action_queue`. -/
theorem take_action (h : Serving first (client :: rest) [] closed connector) :
    connector.take_action.1 = some client ∧ Serving first rest [client] closed connector.take_action.2 ∧
      connector.take_action.2.clients client = { first.clients client with current_phase := .EXECUTING } := by
  obtain ⟨place, stamp, hlinked, hpooled, _⟩ := h.lists
  obtain ⟨hrepresents, hpending⟩ := hlinked.represents_actions
  rw [h.actions] at hrepresents hpending
  obtain ⟨hplace, hfirst, hremoved⟩ := hlinked.action_remove_first .selector .completed hrepresents.head
  have htaken : connector.take_action = (some client, connector.action_remove_first.2.set_client client
      { connector.action_remove_first.2.clients client with current_phase := .EXECUTING }) := by
    have hsome : connector.action_remove_first.1 = some client := hfirst
    unfold Connector.take_action
    generalize connector.action_remove_first = removed at hsome ⊢
    obtain ⟨found, removed⟩ := removed
    simp only at hsome
    subst hsome
    rfl
  have hwalk := hlinked.walk_remove_first
  rw [h.actions] at hwalk
  have hsame := h.unchanged client (List.mem_cons_self ..)
  rw [htaken]
  refine ⟨rfl, ⟨⟨_, stamp, hremoved, ?_, fun other hother => ?_⟩, hwalk, fun other hother => ?_, fun other hother => ?_,
    fun other hother => ?_⟩, ?_⟩
  · exact hpooled.congr (Place.update_iff (by simp [hplace]) nofun)
  · rw [List.mem_singleton.mp hother, Function.update_self]
    trivial
  · have hne : other ≠ client := fun heq => (List.nodup_cons.mp hrepresents.nodup).1 (heq ▸ hother)
    exact (Function.update_of_ne hne _ _).trans (h.unchanged other (List.mem_cons_of_mem _ hother))
  · obtain rfl := List.mem_singleton.mp hother
    have hfd : (connector.clients other).socket_fd = (first.clients other).socket_fd := by rw [hsame]
    exact updated_socket_fd rfl hfd
  · obtain ⟨hfree, hnone, hgone⟩ := h.closed other hother
    have hne : other ≠ client := by
      rintro rfl
      rw [(hpooled.free_iff other).mp hfree] at hplace
      cases hplace
    exact ⟨hfree, (congrArg NetClient.socket_fd (Function.update_of_ne hne _ _)).trans hnone, hgone⟩
  · rw [← hsame]
    exact Function.update_self ..

theorem com_add_last (h : Serving first rest [client] closed connector) :
    Serving first rest [] closed (connector.com_add_last client) := by
  obtain ⟨place, stamp, hlinked, hpooled, hheld⟩ := h.lists
  have hoff := hheld client (List.mem_singleton_self client)
  obtain ⟨stamp', hlinked'⟩ := hlinked.com_add_last hoff
  have hkeeps : KeepsPending place connector (connector.com_add_last client) := .add_last hlinked hoff
  refine ⟨⟨_, stamp', hlinked', ?_, nofun⟩, (hkeeps.walk hlinked).trans h.actions, h.unchanged, nofun, h.closed⟩
  exact hpooled.congr (Place.update_iff (Place.not_listed hoff).1 nofun)

theorem close_connection [CharBuffer Buf] (h : Serving first rest [client] closed connector) :
    Serving first rest [] (closed ++ [client]) (connector.close_connection client) := by
  obtain ⟨place, stamp, hlinked, hpooled, hheld⟩ := h.lists
  have hoff := hheld client (List.mem_singleton_self client)
  obtain ⟨hfree, hqueued, hpending⟩ := Place.not_listed hoff
  have hkeeps : KeepsPending place connector (connector.close_connection client) := .close hlinked (Or.inr hoff)
  have hdeallocated : Pooled (connector.close_connection client).client_pool (Function.update place client .free) :=
    hpooled.deallocate hfree
  have hothers := (affects_close_connection connector client).others
  refine ⟨⟨_, stamp, hlinked.com_remove_closed (Or.inr hoff), hdeallocated, nofun⟩,
      (hkeeps.walk hlinked).trans h.actions,
    fun other hother => ?_, nofun, fun other hother => ?_⟩
  · have hne : other ≠ client := by
      rintro rfl
      rw [← h.actions] at hother
      exact hpending ((hlinked.represents_actions.2 other).mp hother)
    rw [hothers other hne]
    exact h.unchanged other hother
  · rw [List.mem_append] at hother
    cases hother with
    | inl hearlier =>
      obtain ⟨hmem, hnone, hgone⟩ := h.closed other hearlier
      have hplace := (hpooled.free_iff other).mp hmem
      have hne : other ≠ client := by
        rintro rfl
        exact hfree hplace
      refine ⟨(hdeallocated.free_iff other).mpr ((Function.update_of_ne hne _ _).trans hplace), ?_,
          fun hvalid hopen => ?_⟩
      · rw [hothers other hne]
        exact hnone
      · exact hgone hvalid (sys.close_fd_subset _ _ hopen)
    | inr hnow =>
      obtain rfl := List.mem_singleton.mp hnow
      refine ⟨(hdeallocated.free_iff other).mpr (Function.update_self ..), updated_socket_fd rfl rfl, fun hvalid => ?_⟩
      · rw [← h.held_fd other (List.mem_singleton_self other)] at hvalid ⊢
        change _ ∉ (sys.close_fd connector.open_fds (connector.clients other).socket_fd).1
        rw [sys.close_fd, if_pos hvalid]
        simp

end Serving

/-- The client that a worker has taken off `action_queue` and not yet dealt with. -/
def WorkerPosition.held : WorkerPosition → List ClientPtr
  | .process client => [client]
  | .hand_back_lock client => [client]
  | .hand_back client => [client]
  | .close client => [client]
  | _ => []

/-- The positions of a call of `process_action_queue`. -/
def WorkerPosition.in_batch : WorkerPosition → Bool
  | .locking => false
  | .loop => false
  | .asleep => false
  | .exited => false
  | _ => true

/-- The end of `process_action_queue`. An exception is caught before it returns. -/
def WorkerPosition.batch_ended : WorkerPosition → Bool
  | .returned => true
  | .raised => true
  | _ => false

/-- The steps that `process_action_queue` takes at most before it removes the next client. -/
def WorkerPosition.batch_steps : WorkerPosition → Nat
  | .take => 1
  | .process _ => 5
  | .hand_back_lock _ => 4
  | .hand_back _ => 3
  | .close _ => 3
  | .relock => 2
  | _ => 0

/-- What a call of `process_action_queue` has done: the clients that it has removed from
`action_queue`, those that it has put on `com_queue` or closed, and the number of steps. -/
structure BatchLog where
  removed : List ClientPtr := []
  queued : List ClientPtr := []
  closed : List ClientPtr := []
  steps : Nat := 0

/-- The record after one more step of the worker. -/
def BatchLog.record {Buf : Type} (log : BatchLog) (state : State Buf) (action : Action) : BatchLog where
  removed :=
    match action with
    | .worker_take _ => log.removed ++ state.connector.take_action.1.toList
    | _ => log.removed
  queued :=
    match action with
    | .worker_hand_back _ client => if state.signal_flag then log.queued else log.queued ++ [client]
    | _ => log.queued
  closed :=
    match action with
    | .worker_hand_back _ client => if state.signal_flag then log.closed ++ [client] else log.closed
    | .worker_close _ client => log.closed ++ [client]
    | _ => log.closed
  steps := log.steps + 1

namespace State

variable {Buf : Type} [CharBuffer Buf] {first before after state : State Buf} {log : BatchLog} {id : WorkerId}
  {action : Action} {client : ClientPtr}

/-- A step of any thread, with the record of the call that a worker makes. -/
def batch_step (id : WorkerId) (state : State Buf × BatchLog) (action : Action) : Option (State Buf × BatchLog) :=
  (state.1.step action).map
    (fun after => (after, if action.worker = some id then state.2.record state.1 action else state.2))

/-- Every client that was removed has been put on `com_queue` or closed, once for each removal. -/
def Settled (log : BatchLog) (held : List ClientPtr) : Prop :=
  (log.queued ++ log.closed ++ held).Perm log.removed

theorem hand_back_workers (state : State Buf) (id : WorkerId) (client : ClientPtr) :
    (state.hand_back id client).workers = Function.update state.workers id .relock := by
  unfold State.hand_back State.wakeup_selector
  simp only
  split
  · rfl
  · split
    · rfl
    · rfl

/-- A step of a call keeps the balance, unless an exception ends the call. -/
theorem settled_step (h : Settled log (before.workers id).held) (hbatch : (before.workers id).in_batch = true)
    (hact : before.act action = some after) (hworker : action.worker = some id) (hwait : action ≠ .worker_wait id)
    (hraised : after.workers id ≠ .raised) :
    (after.workers id).in_batch = true ∧ Settled (log.record before action) (after.workers id).held := by
  have hmoved : ∀ {position : WorkerPosition}, Function.update before.workers id position id = position :=
    Function.update_self ..
  cases action with
  | worker_take other =>
    obtain rfl := Option.some.inj hworker
    obtain ⟨hposition, rfl⟩ := only_if_eq_some.mp hact
    rw [hposition] at h
    have hperm : (log.queued ++ log.closed).Perm log.removed := by simpa [Settled, WorkerPosition.held] using h
    cases hfirst : before.connector.take_action.1 with
    | none =>
      have hreturned : (before.take other).workers other = .returned := by
        unfold State.take
        generalize before.connector.take_action = taken at hfirst ⊢
        obtain ⟨_, connector⟩ := taken
        simp only at hfirst
        subst hfirst
        exact hmoved
      rw [hreturned]
      exact ⟨rfl, by simpa [Settled, BatchLog.record, hfirst, WorkerPosition.held] using hperm⟩
    | some client =>
      have hprocess : (before.take other).workers other = .process client := by
        rw [take_eq hfirst]
        exact hmoved
      rw [hprocess]
      exact ⟨rfl, by simpa [Settled, BatchLog.record, hfirst, WorkerPosition.held] using hperm.append_right [client]⟩
  | worker_process other client success_flag =>
    obtain rfl := Option.some.inj hworker
    obtain ⟨hposition, rfl⟩ := only_if_eq_some.mp hact
    rw [hposition] at h
    cases hresult : (before.connector.process client success_flag).2 with
    | error exception =>
      rw [process_eq_error hresult] at hraised
      exact absurd hmoved hraised
    | ok value =>
      rw [process_eq_ok hresult]
      simp only [set_worker, hmoved]
      split
      · exact ⟨rfl, h⟩
      · exact ⟨rfl, h⟩
  | worker_hand_back_lock other client =>
    obtain rfl := Option.some.inj hworker
    obtain ⟨⟨hposition, _⟩, rfl⟩ := only_if_eq_some.mp hact
    rw [hposition] at h
    simp only [set_worker, hmoved]
    exact ⟨rfl, h⟩
  | worker_hand_back other client =>
    obtain rfl := Option.some.inj hworker
    obtain ⟨⟨hposition, _⟩, rfl⟩ := only_if_eq_some.mp hact
    rw [hposition] at h
    have hperm : (log.queued ++ (log.closed ++ [client])).Perm log.removed := by
      simpa [Settled, WorkerPosition.held] using h
    rw [hand_back_workers, hmoved]
    refine ⟨rfl, ?_⟩
    cases hsignal : before.signal_flag with
    | true => simpa [Settled, BatchLog.record, hsignal, WorkerPosition.held] using hperm
    | false =>
      have hclient : (log.queued ++ ([client] ++ log.closed)).Perm (log.queued ++ (log.closed ++ [client])) :=
        List.perm_append_comm.append_left log.queued
      simpa [Settled, BatchLog.record, hsignal, WorkerPosition.held] using hclient.trans hperm
  | worker_close other client =>
    obtain rfl := Option.some.inj hworker
    obtain ⟨hposition, rfl⟩ := only_if_eq_some.mp hact
    rw [hposition] at h
    simp only [State.close, set_worker, hmoved]
    exact ⟨rfl, by simpa [Settled, BatchLog.record, WorkerPosition.held] using h⟩
  | worker_relock other =>
    obtain rfl := Option.some.inj hworker
    obtain ⟨⟨hposition, _⟩, rfl⟩ := only_if_eq_some.mp hact
    rw [hposition] at h
    simp only [set_worker, hmoved]
    exact ⟨rfl, h⟩
  | worker_lock other =>
    obtain rfl := Option.some.inj hworker
    rw [(only_if_eq_some.mp hact).1.1] at hbatch
    cases hbatch
  | worker_test other =>
    obtain rfl := Option.some.inj hworker
    rw [(only_if_eq_some.mp hact).1] at hbatch
    cases hbatch
  | worker_wait other => exact absurd (congrArg Action.worker_wait (Option.some.inj hworker)) hwait
  | worker_wake other =>
    obtain rfl := Option.some.inj hworker
    rw [(only_if_eq_some.mp hact).1] at hbatch
    cases hbatch
  | _ => cases hworker

/-- The steps of the other threads do not move a worker in a call. -/
theorem workers_in_batch (hbatch : (before.workers id).in_batch = true) (hact : before.act action = some after)
    (hworker : action.worker ≠ some id) : after.workers id = before.workers id := by
  cases hother : action.worker with
  | none =>
    obtain hsame | hasleep := act_workers hact hother id
    · exact hsame
    · rw [hasleep] at hbatch
      cases hbatch
  | some other =>
    obtain ⟨⟨position, hmoved⟩, _⟩ := act_worker hact hother
    rw [hmoved]
    exact Function.update_of_ne (fun heq => hworker (by rw [hother, heq])) _ _

/-- The steps of all threads during a call of a worker, as long as no exception escapes from
message processing. -/
def DuringBatch (id : WorkerId) (state : State Buf × BatchLog) (action : Action) : Prop :=
  state.1.Unraised action ∧ action ≠ .worker_wait id

/-- Whatever the other threads do meanwhile, a call during which no exception escapes from
message processing returns with the lock, and has dealt with every client once. -/
theorem batch_returns [LawfulCharBuffer Buf] {last : State Buf} (hreachable : first.ReachableWhere Unraised)
    (hposition : first.workers id = .take)
    (hrun : ReachesWhere (batch_step id) (DuringBatch id) (first, {}) (last, log)) :
    last.workers id ≠ .raised ∧ ((last.workers id).batch_ended = true →
      last.action_queue_lock = some (.worker id) ∧ (log.queued ++ log.closed).Perm log.removed) := by
  have hinvariant : last.ReachableWhere Unraised ∧ (last.workers id).in_batch = true ∧
      Settled log (last.workers id).held := by
    apply ReachesWhere.invariant (P := fun state : State Buf × BatchLog => state.1.ReachableWhere Unraised ∧
      (state.1.workers id).in_batch = true ∧ Settled state.2 (state.1.workers id).held) hrun
    · rw [hposition]
      exact ⟨hreachable, rfl, .refl _⟩
    · rintro ⟨before, log⟩ action pair ⟨hbefore, hbatch, hsettled⟩ ⟨hunraised, hwait⟩ hpair
      obtain ⟨after, hstep, rfl⟩ := Option.map_eq_some_iff.mp hpair
      have hact := (step_eq_some.mp hstep).2
      have hafter : after.ReachableWhere Unraised := hbefore.tail hunraised hstep
      have hlock := ReachableWhere.action_lock (fun _ _ hcondition => hcondition) hafter
      refine ⟨hafter, ?_⟩
      by_cases hworker : action.worker = some id
      · rw [if_pos hworker]
        exact settled_step hsettled hbatch hact hworker hwait (hlock.unraised id)
      · rw [if_neg hworker, workers_in_batch hbatch hact hworker]
        exact ⟨hbatch, hsettled⟩
  obtain ⟨hlast, _, hsettled⟩ := hinvariant
  have hlock := ReachableWhere.action_lock (fun _ _ hcondition => hcondition) hlast
  refine ⟨hlock.unraised id, fun hended => ?_⟩
  have hreturned : last.workers id = .returned := by
    have hraised := hlock.unraised id
    generalize last.workers id = position at hended hraised ⊢
    cases position with
    | returned => rfl
    | raised => exact absurd rfl hraised
    | _ => cases hended
  have hinside : last.in_action_section (.worker id) = true := by
    change (last.workers id).in_action_section = true
    rw [hreturned]
    rfl
  rw [hreturned] at hsettled
  have hperm : (log.queued ++ log.closed ++ []).Perm log.removed := hsettled
  rw [List.append_nil] at hperm
  exact ⟨hlock.lock _ hinside, hperm⟩

/-- The state in the middle of a call that begins with `clients` on `action_queue` and that no
other thread disturbs. -/
structure Batching (id : WorkerId) (first : State Buf) (clients rest : List ClientPtr) (log : BatchLog)
    (position : WorkerPosition) (state : State Buf) : Prop where
  stands : state.workers id = position
  running : state.terminated = false
  handler : state.handler = .idle
  action_lock : state.action_queue_lock = if position.in_action_section then some (.worker id) else none
  com_lock : state.com_queue_lock = if position.in_com_section then some (.worker id) else none
  removed : log.removed ++ rest = clients
  serving : Serving first.connector rest position.held log.closed state.connector
  processing : ∀ client, position = .process client → client ∈ log.removed ∧
    state.connector.clients client = { first.connector.clients client with current_phase := .EXECUTING }
  answered : position ≠ .raised → ∀ client ∈ log.removed, position ≠ .process client →
    (first.connector.clients client).message.response ≠ .abandon
  returned : position = .returned → rest = []
  raised : position = .raised → ∃ client ∈ clients, (first.connector.clients client).message.response = .abandon
  steps : log.steps + position.batch_steps + 5 * rest.length ≤ 5 * clients.length + 1

variable [LawfulCharBuffer Buf] {clients rest : List ClientPtr}

omit [CharBuffer Buf] [LawfulCharBuffer Buf] in
theorem Batching.take (h : Batching id first clients rest log .take before) : ∃ rest' position,
    position.in_batch = true ∧ Batching id first clients rest' (log.record before (.worker_take id)) position
    (before.take id) := by
  have hanswered := h.answered fun hraised => by cases hraised
  have hidle : ∀ client, WorkerPosition.take ≠ .process client := fun _ hprocess => by cases hprocess
  have hsteps := h.steps
  cases rest with
  | nil =>
    obtain ⟨place, stamp, hlinked, _⟩ := h.serving.lists
    have hrepresents := hlinked.represents_actions.1
    rw [h.serving.actions] at hrepresents
    have hempty : before.connector.take_action = (none, before.connector) := by
      have hfirst : before.connector.action_remove_first = (none, before.connector) := by
        simp only [Connector.action_remove_first, Queue.remove_first_empty hrepresents.head]
      simp only [Connector.take_action, hfirst]
    have htake : before.take id = before.set_worker id .returned := by simp only [State.take, hempty, set_worker]
    have hlog : (log.record before (.worker_take id)).removed = log.removed := by simp [BatchLog.record, hempty]
    refine ⟨[], .returned, rfl, ?_⟩
    rw [htake]
    refine ⟨set_worker_self .., h.running, h.handler, h.action_lock, h.com_lock, hlog ▸ h.removed, h.serving,
      (fun _ hprocess => by cases hprocess), ?_, fun _ => rfl, (fun hraised => by cases hraised), ?_⟩
    · rw [hlog]
      exact fun _ client hclient _ => hanswered client hclient (hidle client)
    · change log.steps + 1 + 0 + _ ≤ _
      change log.steps + 1 + _ ≤ _ at hsteps
      exact hsteps
  | cons client rest =>
    obtain ⟨hfirst, hserving, hclient⟩ := h.serving.take_action
    have hlog : (log.record before (.worker_take id)).removed = log.removed ++ [client] := by
      simp [BatchLog.record, hfirst]
    refine ⟨rest, .process client, rfl, ?_⟩
    rw [take_eq hfirst]
    refine ⟨set_worker_self .., h.running, h.handler, rfl, h.com_lock, ?_, hserving, ?_, ?_,
      (fun hreturned => by cases hreturned), (fun hraised => by cases hraised), ?_⟩
    · rw [hlog, List.append_assoc]
      exact h.removed
    · intro other hother
      cases hother
      exact ⟨by simp [hlog], hclient⟩
    · intro _ other hother hne
      rw [hlog, List.mem_append] at hother
      cases hother with
      | inl hearlier => exact hanswered other hearlier (hidle other)
      | inr hnow => exact absurd (congrArg WorkerPosition.process (List.mem_singleton.mp hnow).symm) hne
    · rw [List.length_cons] at hsteps
      change log.steps + 1 + 5 + _ ≤ _
      change log.steps + 1 + _ ≤ _ at hsteps
      omega

/-- The message of the client is processed. -/
theorem Batching.process {success_flag : Bool} (h : Batching id first clients rest log (.process client) before)
    (hbounded : ∀ client ∈ clients, (first.connector.clients client).Bounded) :
    ∃ position, position.in_batch = true ∧ Batching id first clients rest
      (log.record before (.worker_process id client success_flag)) position
      (before.process id client success_flag) := by
  obtain ⟨hmem, hobject⟩ := h.processing client rfl
  have hclient : client ∈ clients := by
    rw [← h.removed]
    exact List.mem_append_left _ hmem
  have hbefore := hbounded client hclient
  have hobjectBounded : (before.connector.clients client).Bounded := by
    rw [hobject]
    exact ⟨hbefore.capacities.of_same ⟨rfl, rfl, rfl, rfl⟩, hbefore.buffer_length, hbefore.io_offset⟩
  have hmessage : (before.connector.clients client).message = (first.connector.clients client).message := by
    rw [hobject]
    rfl
  obtain ⟨hfd, houtcome⟩ := hobjectBounded.process success_flag
  have hresult : (before.connector.process client success_flag).2 =
      ((before.connector.clients client).process_client_message success_flag).outcome := rfl
  rw [houtcome, hmessage] at hresult
  have hserving : Serving first.connector rest [client] log.closed (before.connector.process client success_flag).1 :=
    h.serving.set_client rfl ⟨rfl, rfl, rfl⟩ rfl rfl hfd
  have hsteps := h.steps
  by_cases habandon : (first.connector.clients client).message.response = .abandon
  · rw [if_pos habandon] at hresult
    refine ⟨.raised, rfl, ?_⟩
    rw [process_eq_error hresult]
    refine ⟨set_worker_self .., h.running, h.handler, h.action_lock, h.com_lock, h.removed, hserving.drop, nofun,
      fun hraised => absurd rfl hraised, nofun, fun _ => ⟨client, hclient, habandon⟩, ?_⟩
    change log.steps + 1 + 0 + _ ≤ _
    change log.steps + 5 + _ ≤ _ at hsteps
    omega
  · rw [if_neg habandon] at hresult
    have hanswered : ∀ other ∈ log.removed, (first.connector.clients other).message.response ≠ .abandon := by
      intro other hother
      by_cases hsame : other = client
      · rw [hsame]
        exact habandon
      · exact h.answered nofun other hother (fun heq => hsame (WorkerPosition.process.inj heq).symm)
    rw [process_eq_ok hresult]
    split
    · refine ⟨.hand_back_lock client, rfl, set_worker_self .., h.running, h.handler, h.action_lock,
        h.com_lock, h.removed,
        hserving, nofun, fun _ other hother _ => hanswered other hother, nofun, nofun, ?_⟩
      change log.steps + 1 + 4 + _ ≤ _
      change log.steps + 5 + _ ≤ _ at hsteps
      omega
    · refine ⟨.close client, rfl, set_worker_self .., h.running, h.handler, h.action_lock, h.com_lock, h.removed,
        hserving, nofun, fun _ other hother _ => hanswered other hother, nofun, nofun, ?_⟩
      change log.steps + 1 + 3 + _ ≤ _
      change log.steps + 5 + _ ≤ _ at hsteps
      omega

omit [LawfulCharBuffer Buf] in
/-- Without a stop signal the client goes back to `com_queue`. -/
theorem hand_back_eq_queue (hsignal : before.signal_flag = false) : ∃ pipe_bytes, before.hand_back id client =
    { before.set_worker id .relock with
      connector := before.connector.com_add_last client, com_queue_lock := none, pipe_bytes } := by
  have hsignal' : ¬ (before.set_worker id .relock).signal_flag = true := by
    change ¬ before.signal_flag = true
    simp [hsignal]
  obtain ⟨pipe_bytes, hwakeup⟩ := wakeup_selector_eq
    { before.set_worker id .relock with connector := (before.set_worker id .relock).connector.com_add_last client }
  refine ⟨pipe_bytes, ?_⟩
  simp only [State.hand_back, if_neg hsignal', hwakeup]
  rfl

omit [LawfulCharBuffer Buf] in
theorem Batching.hand_back (h : Batching id first clients rest log (.hand_back client) before) :
    Batching id first clients rest (log.record before (.worker_hand_back id client)) .relock
    (before.hand_back id client) := by
  have hanswered : ∀ other ∈ log.removed, (first.connector.clients other).message.response ≠ .abandon :=
    fun other hother => h.answered nofun other hother nofun
  have hsteps : log.steps + 3 + 5 * rest.length ≤ 5 * clients.length + 1 := h.steps
  cases hsignal : before.signal_flag with
  | true =>
    have hlog : (log.record before (.worker_hand_back id client)).closed = log.closed ++ [client] := by
      simp [BatchLog.record, hsignal]
    rw [hand_back_eq_close hsignal]
    refine ⟨set_worker_self .., h.running, h.handler, h.action_lock, rfl, h.removed, ?_, nofun,
      fun _ other hother _ => hanswered other hother, nofun, nofun, ?_⟩
    · rw [hlog]
      exact h.serving.close_connection
    · change log.steps + 1 + 2 + _ ≤ _
      omega
  | false =>
    have hlog : (log.record before (.worker_hand_back id client)).closed = log.closed := by
      simp [BatchLog.record, hsignal]
    obtain ⟨pipe_bytes, hqueue⟩ := hand_back_eq_queue hsignal
    rw [hqueue]
    refine ⟨set_worker_self .., h.running, h.handler, h.action_lock, rfl, h.removed, ?_, nofun,
      fun _ other hother _ => hanswered other hother, nofun, nofun, ?_⟩
    · rw [hlog]
      exact h.serving.com_add_last
    · change log.steps + 1 + 2 + _ ≤ _
      omega

omit [LawfulCharBuffer Buf] in
theorem Batching.close (h : Batching id first clients rest log (.close client) before) :
    Batching id first clients rest (log.record before (.worker_close id client)) .relock (before.close id client) := by
  have hsteps : log.steps + 3 + 5 * rest.length ≤ 5 * clients.length + 1 := h.steps
  refine ⟨set_worker_self .., h.running, h.handler, h.action_lock, h.com_lock, h.removed,
      h.serving.close_connection, nofun,
    fun _ other hother _ => h.answered nofun other hother nofun, nofun, nofun, ?_⟩
  change log.steps + 1 + 2 + _ ≤ _
  omega

/-- A step of the call, which has not ended by an exception. -/
theorem Batching.step {position : WorkerPosition} (h : Batching id first clients rest log position before)
    (hbounded : ∀ client ∈ clients, (first.connector.clients client).Bounded) (hbatch : position.in_batch = true)
    (hact : before.act action = some after) (hworker : action.worker = some id) (hwait : action ≠ .worker_wait id) :
    position ≠ .raised ∧ ∃ rest' position', position'.in_batch = true ∧
      Batching id first clients rest' (log.record before action) position' after := by
  have hstands := h.stands
  cases action with
  | worker_take other =>
    obtain rfl := Option.some.inj hworker
    obtain ⟨hposition, rfl⟩ := only_if_eq_some.mp hact
    obtain rfl := hstands.symm.trans hposition
    exact ⟨nofun, h.take⟩
  | worker_process other client success_flag =>
    obtain rfl := Option.some.inj hworker
    obtain ⟨hposition, rfl⟩ := only_if_eq_some.mp hact
    obtain rfl := hstands.symm.trans hposition
    exact ⟨nofun, rest, h.process hbounded⟩
  | worker_hand_back_lock other client =>
    obtain rfl := Option.some.inj hworker
    obtain ⟨⟨hposition, _⟩, rfl⟩ := only_if_eq_some.mp hact
    obtain rfl := hstands.symm.trans hposition
    have hsteps : log.steps + 4 + 5 * rest.length ≤ 5 * clients.length + 1 := h.steps
    refine ⟨nofun, rest, .hand_back client, rfl, set_worker_self .., h.running, h.handler, h.action_lock,
        rfl, h.removed, h.serving,
      nofun, fun _ other hother _ => h.answered nofun other hother nofun, nofun, nofun, ?_⟩
    change log.steps + 1 + 3 + _ ≤ _
    omega
  | worker_hand_back other client =>
    obtain rfl := Option.some.inj hworker
    obtain ⟨⟨hposition, _⟩, rfl⟩ := only_if_eq_some.mp hact
    obtain rfl := hstands.symm.trans hposition
    exact ⟨nofun, rest, .relock, rfl, h.hand_back⟩
  | worker_close other client =>
    obtain rfl := Option.some.inj hworker
    obtain ⟨hposition, rfl⟩ := only_if_eq_some.mp hact
    obtain rfl := hstands.symm.trans hposition
    exact ⟨nofun, rest, .relock, rfl, h.close⟩
  | worker_relock other =>
    obtain rfl := Option.some.inj hworker
    obtain ⟨⟨hposition, _⟩, rfl⟩ := only_if_eq_some.mp hact
    obtain rfl := hstands.symm.trans hposition
    have hsteps : log.steps + 2 + 5 * rest.length ≤ 5 * clients.length + 1 := h.steps
    refine ⟨nofun, rest, .take, rfl, set_worker_self .., h.running, h.handler, rfl, h.com_lock, h.removed, h.serving,
      nofun, fun _ other hother _ => h.answered nofun other hother nofun, nofun, nofun, ?_⟩
    change log.steps + 1 + 1 + _ ≤ _
    omega
  | worker_wait other => exact absurd (congrArg Action.worker_wait (Option.some.inj hworker)) hwait
  | worker_lock other =>
    obtain rfl := Option.some.inj hworker
    obtain rfl := hstands.symm.trans (only_if_eq_some.mp hact).1.1
    cases hbatch
  | worker_test other =>
    obtain rfl := Option.some.inj hworker
    obtain rfl := hstands.symm.trans (only_if_eq_some.mp hact).1
    cases hbatch
  | worker_wake other =>
    obtain rfl := Option.some.inj hworker
    obtain rfl := hstands.symm.trans (only_if_eq_some.mp hact).1
    cases hbatch
  | _ => cases hworker

/-- The steps that a worker takes in a call of `process_action_queue`. -/
def OfCall (id : WorkerId) (action : Action) : Prop := action.worker = some id ∧ action ≠ .worker_wait id

instance (id : WorkerId) (action : Action) : Decidable (OfCall id action) := inferInstanceAs (Decidable (_ ∧ _))

/-- A call of `process_action_queue` that no other thread disturbs. -/
def Calls (id : WorkerId) (first last : State Buf) (log : BatchLog) : Prop :=
  ReachesWhere (batch_step id) (fun _ action => OfCall id action) (first, {}) (last, log)

/-- A state in which a worker enters `process_action_queue`: it holds `action_queue_lock`, and the
other locks are free. -/
structure Enters (id : WorkerId) (state : State Buf) : Prop where
  running : state.terminated = false
  handler : state.handler = .idle
  position : state.workers id = .take
  action_lock : state.action_queue_lock = some (.worker id)
  com_lock : state.com_queue_lock = none

/-- The contract of `process_action_queue`: it returns with the lock, and every client that it has
removed from `action_queue` has been put on `com_queue` or closed, once. -/
structure BatchContract (id : WorkerId) (first : State Buf) (log : BatchLog) (last : State Buf) : Prop where
  action_lock : last.action_queue_lock = some (.worker id)
  settled : (log.queued ++ log.closed).Perm log.removed
  once : log.removed.Nodup
  closed : ∀ client ∈ log.closed, client ∈ last.connector.client_pool.free_objects ∧
    (last.connector.clients client).socket_fd = sys.FD_NONE ∧
    (0 ≤ (first.connector.clients client).socket_fd →
      (first.connector.clients client).socket_fd ∉ last.connector.open_fds)

theorem Calls.batching {last : State Buf} {place : ClientPtr → Place} {stamp : ClientPtr → Nat}
    (h : Calls id first last log) (henters : first.Enters id)
    (hlinked : Linked first.connector.com_queue first.connector.action_queue first.connector.nodes place stamp)
    (hpooled : Pooled first.connector.client_pool place)
    (hbounded : ∀ client ∈ first.connector.action_clients, (first.connector.clients client).Bounded) :
    ∃ rest position, position.in_batch = true ∧
      Batching id first first.connector.action_clients rest log position last ∧
      (position ≠ .raised → Settled log position.held) := by
  have hrun : ReachesWhere (batch_step id) (fun _ action => OfCall id action) (first, {}) (last, log) := h
  apply ReachesWhere.invariant (P := fun state : State Buf × BatchLog => ∃ rest position, position.in_batch = true ∧
    Batching id first first.connector.action_clients rest state.2 position state.1 ∧
      (position ≠ .raised → Settled state.2 position.held)) hrun
  · refine ⟨first.connector.action_clients, .take, rfl, ?_, fun _ => .refl _⟩
    refine ⟨henters.position, henters.running, henters.handler, henters.action_lock, henters.com_lock, rfl,
      ⟨⟨place, stamp, hlinked, hpooled, nofun⟩, rfl, fun _ _ => rfl, nofun, nofun⟩, nofun, nofun, nofun, nofun, ?_⟩
    change 0 + 1 + _ ≤ _
    omega
  · rintro ⟨before, log⟩ action pair ⟨rest, position, hbatch, hbatching, hsettled⟩ ⟨hworker, hwait⟩ hpair
    obtain ⟨after, hstep, rfl⟩ := Option.map_eq_some_iff.mp hpair
    have hact := (step_eq_some.mp hstep).2
    obtain ⟨hraised, rest', position', hbatch', hbatching'⟩ := hbatching.step hbounded hbatch hact hworker hwait
    simp only [if_pos hworker]
    refine ⟨rest', position', hbatch', hbatching', fun hraised' => ?_⟩
    have hbefore := hsettled hraised
    rw [← hbatching.stands] at hbefore hbatch
    rw [← hbatching'.stands] at hraised' ⊢
    exact (settled_step hbefore hbatch hact hworker hwait hraised').2

omit [LawfulCharBuffer Buf] in
/-- The call does not get stuck. -/
theorem Batching.proceeds {position : WorkerPosition} (h : Batching id first clients rest log position before)
    (hbatch : position.in_batch = true) (hended : position.batch_ended = false) :
    ∃ action, action.worker = some id ∧ (before.step action).isSome := by
  have hstands := h.stands
  have hstep : ∀ action {after}, action.worker = some id → before.act action = some after →
      ∃ action, action.worker = some id ∧ (before.step action).isSome := by
    intro action after hworker hact
    exact ⟨action, hworker, by rw [step_eq_some.mpr ⟨h.running, hact⟩]; rfl⟩
  cases position with
  | take => exact hstep (.worker_take id) rfl (only_if_eq_some.mpr ⟨hstands, rfl⟩)
  | process client => exact hstep (.worker_process id client true) rfl (only_if_eq_some.mpr ⟨hstands, rfl⟩)
  | hand_back_lock client =>
    exact hstep (.worker_hand_back_lock id client) rfl (only_if_eq_some.mpr ⟨⟨hstands, h.com_lock⟩, rfl⟩)
  | hand_back client =>
    exact hstep (.worker_hand_back id client) rfl (only_if_eq_some.mpr ⟨⟨hstands, h.handler⟩, rfl⟩)
  | close client => exact hstep (.worker_close id client) rfl (only_if_eq_some.mpr ⟨hstands, rfl⟩)
  | relock => exact hstep (.worker_relock id) rfl (only_if_eq_some.mpr ⟨⟨hstands, h.action_lock⟩, rfl⟩)
  | returned => cases hended
  | raised => cases hended
  | locking => cases hbatch
  | loop => cases hbatch
  | asleep => cases hbatch
  | exited => cases hbatch

omit [CharBuffer Buf] [LawfulCharBuffer Buf] in
/-- Where the call ends, it keeps its contract exactly if no message raised the exception. -/
theorem Batching.contract_iff {position : WorkerPosition} (h : Batching id first clients rest log position before)
    (hnodup : clients.Nodup) (hsettled : position ≠ .raised → Settled log position.held)
    (hended : position.batch_ended = true) :
    BatchContract id first log before ↔
      ∀ client ∈ clients, (first.connector.clients client).message.response ≠ .abandon := by
  cases position with
  | returned =>
    have hrest := h.returned rfl
    have hremoved : log.removed = clients := by
      rw [← h.removed, hrest, List.append_nil]
    have hperm : (log.queued ++ log.closed ++ []).Perm log.removed := hsettled nofun
    rw [List.append_nil] at hperm
    refine iff_of_true ⟨h.action_lock, hperm, hremoved ▸ hnodup, h.serving.closed⟩ (fun client hclient => ?_)
    exact h.answered nofun client (hremoved ▸ hclient) nofun
  | raised =>
    refine iff_of_false (fun hcontract => ?_) (fun hall => ?_)
    · have hlock := hcontract.action_lock
      rw [h.action_lock] at hlock
      cases hlock
    · obtain ⟨client, hclient, habandon⟩ := h.raised rfl
      exact hall client hclient habandon
  | _ => cases hended

/-- A call of `process_action_queue` ends, and it keeps its contract exactly when no client on
`action_queue` holds a fence request with a value that does not fit its buffer. If no such request
is processed, other threads that run during the call do not change that. -/
theorem process_action_queue_contract (id : WorkerId) :
    (∀ (first last : State Buf) (log : BatchLog) (place : ClientPtr → Place) (stamp : ClientPtr → Nat),
        first.Enters id →
      Linked first.connector.com_queue first.connector.action_queue first.connector.nodes place stamp →
      Pooled first.connector.client_pool place →
      (∀ client ∈ first.connector.action_clients, (first.connector.clients client).Bounded) → Calls id first last log →
      log.steps ≤ 5 * first.connector.action_clients.length + 1 ∧
        ((last.workers id).batch_ended = false → ∃ action, action.worker = some id ∧ (last.step action).isSome) ∧
        ((last.workers id).batch_ended = true → (BatchContract id first log last ↔
          ∀ client ∈ first.connector.action_clients, (first.connector.clients client).message.response ≠ .abandon))) ∧
      ∀ (first last : State Buf) (log : BatchLog), first.ReachableWhere Unraised → first.workers id = .take →
        ReachesWhere (batch_step id) (DuringBatch id) (first, {}) (last, log) →
        last.workers id ≠ .raised ∧ ((last.workers id).batch_ended = true →
          last.action_queue_lock = some (.worker id) ∧ (log.queued ++ log.closed).Perm log.removed) := by
  refine ⟨fun first last log place stamp henters hlinked hpooled hbounded hcalls => ?_,
    fun first last log hreachable hposition hrun => batch_returns hreachable hposition hrun⟩
  obtain ⟨rest, position, hbatch, hbatching, hsettled⟩ := hcalls.batching henters hlinked hpooled hbounded
  have hnodup := hlinked.represents_actions.1.nodup
  have hsteps := hbatching.steps
  rw [hbatching.stands]
  exact ⟨by omega, hbatching.proceeds hbatch, hbatching.contract_iff hnodup hsettled⟩

omit [LawfulCharBuffer Buf] in
/-- The clients that wait for a worker are bounded in every state of the server. -/
theorem Invariant.bounded {place : ClientPtr → Place} {stamp : ClientPtr → Nat} {strict : Prop}
    (h : Invariant strict first place stamp) :
    ∀ client ∈ first.connector.action_clients, (first.connector.clients client).Bounded := by
  intro client hclient
  have hsession := h.consistent.sessions.session client
  rw [(h.consistent.linked.represents_actions.2 client).mp hclient] at hsession
  obtain ⟨_, _, hholds⟩ := hsession
  have hreceived := hholds.received
  exact ⟨hreceived.clean.capacities, hreceived.clean.buffer_length, hreceived.bounds.2⟩

/-- The first client sends an echo request, and a worker is about to serve it. -/
def echo_batch_run : List Action :=
  Action.startup ++ Action.accept_round 6 23 [] ++
    Action.round [6] [] [] (Action.complete 23 none [0, 0, 0, 4]) ++ [.worker_lock 0, .worker_test 0]

theorem process_action_queue_contract_echo : ∃ (first last : State BoundedBuffer) (log : BatchLog), first.Enters 0 ∧
    Calls 0 first last log ∧ log.removed = [23] ∧ log.steps ≤ 6 ∧ BatchContract 0 first log last := by
  obtain ⟨first, hfirst, hfound⟩ := exists_reachesFrom_of_run
    (by decide +kernel : ((run State.step (State.initial BoundedBuffer (.filled 0xA5)) echo_batch_run).any fun first =>
      (first.terminated = false ∧ first.handler = .idle ∧ first.workers 0 = .take ∧
        first.action_queue_lock = some (.worker 0) ∧ first.com_queue_lock = none) ∧
      (first.connector.action_clients = [23] ∧ (first.connector.clients 23).message.response ≠ .abandon) ∧
      (runWhere (batch_step 0) (fun _ action => OfCall 0 action) (first, {})
        [.worker_take 0, .worker_process 0 23 true, .worker_hand_back_lock 0 23, .worker_hand_back 0 23,
            .worker_relock 0,
          .worker_take 0]).any fun last => (last.1.workers 0).batch_ended = true ∧ last.2.removed = [23]) = true)
  simp only [ne_eq, Bool.decide_and, Bool.and_eq_true, decide_eq_true_eq] at hfound
  obtain ⟨⟨hrunning, hhandler, hposition, haction, hcom⟩, ⟨hclients, hresponse⟩, hcall⟩ := hfound
  obtain ⟨⟨last, log⟩, hlast, hfound⟩ := exists_reachesWhere_of_runWhere hcall
  simp only [Bool.and_eq_true, decide_eq_true_eq] at hfound
  obtain ⟨hended, hremoved⟩ := hfound
  have henters : first.Enters 0 := ⟨hrunning, hhandler, hposition, haction, hcom⟩
  have hcalls : Calls 0 first last log := hlast.weaken (fun _ _ => of_decide_eq_true)
  obtain ⟨place, stamp, hinvariant⟩ := Reachable.sound hfirst
  obtain ⟨hsteps, _, hcontract⟩ := (process_action_queue_contract 0).1 first last log place stamp henters
    hinvariant.consistent.linked hinvariant.consistent.pooled hinvariant.bounded hcalls
  rw [hclients] at hsteps hcontract
  refine ⟨first, last, log, henters, hcalls, hremoved, hsteps, (hcontract hended).mpr (fun client hclient => ?_)⟩
  rw [List.mem_singleton.mp hclient]
  exact hresponse

/-- The first client asks for fencing with a secret of 65 bytes, and a worker is about to serve it. -/
def long_secret_run : List Action :=
  Action.startup ++ Action.accept_round 6 23 [] ++
    Action.round [6] [] [] [.visit 23 (.received [0, 0x81, 0, 78])] ++
    Action.round [6] [] []
      (Action.complete 23 none ([0, 72] ++ protocol.SECRET ++ [protocol.SPLIT_BYTE] ++ List.replicate 65 0x78)) ++
    [.worker_lock 0, .worker_test 0]

/-- The call returns without the lock, and its client is neither on `com_queue` nor closed. -/
theorem process_action_queue_breaks_contract :
    ¬ ∀ (first last : State BoundedBuffer) (log : BatchLog), first.Reachable → first.Enters 0 → Calls 0 first last log →
      (last.workers 0).batch_ended = true → BatchContract 0 first log last := by
  intro hall
  obtain ⟨first, hfirst, hfound⟩ := exists_reachesFrom_of_run
    (by decide +kernel : ((run State.step (State.initial BoundedBuffer (.filled 0xA5)) long_secret_run).any fun first =>
      (first.terminated = false ∧ first.handler = .idle ∧ first.workers 0 = .take ∧
        first.action_queue_lock = some (.worker 0) ∧ first.com_queue_lock = none) ∧
      (runWhere (batch_step 0) (fun _ action => OfCall 0 action) (first, {})
        [.worker_take 0, .worker_process 0 23 true]).any fun last =>
          (last.1.workers 0).batch_ended = true ∧ last.1.action_queue_lock = none ∧ last.2.removed = [23] ∧
            last.2.queued ++ last.2.closed = []) = true)
  simp only [Bool.decide_and, Bool.and_eq_true, decide_eq_true_eq] at hfound
  obtain ⟨⟨hrunning, hhandler, hposition, haction, hcom⟩, hcall⟩ := hfound
  obtain ⟨⟨last, log⟩, hlast, hfound⟩ := exists_reachesWhere_of_runWhere hcall
  simp only [Bool.and_eq_true, decide_eq_true_eq] at hfound
  obtain ⟨hended, hlock, _⟩ := hfound
  have hcontract := hall first last log hfirst ⟨hrunning, hhandler, hposition, haction, hcom⟩
    (hlast.weaken (fun _ _ => of_decide_eq_true)) hended
  have hheld := hcontract.action_lock
  rw [hlock] at hheld
  cases hheld

end State

end ufh
