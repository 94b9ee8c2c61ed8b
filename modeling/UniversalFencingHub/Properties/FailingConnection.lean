import UniversalFencingHub.ServerConnector.Walks
import UniversalFencingHub.Threads.Reachable

open linked_list transition

namespace ufh

/-- The I/O pass takes the client off `com_queue`. -/
def NetClient.Leaves {Buf : Type} (object : NetClient Buf) (result : IoResult) : Prop :=
  object.current_phase = .CANCELED ∨
    match result with
    | .no_call => False
    | .received data => (object.receive data).2 = true ∧ (object.next_phase = .CANCELED ∨ object.next_phase = .PENDING)
    | .receive_failed => True
    | .sent count => (object.prepare_send.sent count).2 = true ∧ object.next_phase = .CANCELED
    | .send_failed => True
    | .broken_pipe => False

section

variable {Buf : Type} [CharBuffer Buf] {connector : Connector Buf} {client : ClientPtr} {result : IoResult}
  {read_fd_set write_fd_set : List Int}

theorem queues_receive (data : Bytes) :
    let performed := if (connector.receive_message client (.received data)).2 then
        (connector.receive_message client (.received data)).1.receive_completed client
      else ((connector.receive_message client (.received data)).1, false)
    (((connector.clients client).receive data).2 = true ∧ ((connector.clients client).next_phase = .CANCELED ∨
        (connector.clients client).next_phase = .PENDING) → Unlinks client connector performed.1) ∧
      (¬ (((connector.clients client).receive data).2 = true ∧ ((connector.clients client).next_phase = .CANCELED ∨
        (connector.clients client).next_phase = .PENDING)) → SameQueues connector performed.1) := by
  obtain ⟨hnext, _⟩ := receive_kept (connector.clients client) data
  rw [receive_message_received]
  simp only
  cases hcomplete : ((connector.clients client).receive data).2 with
  | false => exact ⟨fun hleaves => absurd hleaves.1 (by simp), fun _ => ⟨rfl, rfl, rfl⟩⟩
  | true =>
    simp only [if_true, true_and, Connector.receive_completed, Connector.set_client, Function.update_self, hnext]
    split
    · next hcanceled =>
      exact ⟨fun _ => ⟨rfl, rfl, rfl⟩, fun hstays => absurd (Or.inl hcanceled) hstays⟩
    · next hcanceled =>
      split
      · next hpending => exact ⟨fun _ => ⟨rfl, rfl, rfl⟩, fun hstays => absurd (Or.inr hpending) hstays⟩
      · next hpending => exact ⟨fun hleaves => absurd hleaves (not_or.mpr ⟨hcanceled, hpending⟩),
          fun _ => ⟨rfl, rfl, rfl⟩⟩

theorem queues_send (count : Nat) :
    let performed := if (connector.send_message client (.sent count)).2 then
        (connector.send_message client (.sent count)).1.send_completed client
      else (connector.send_message client (.sent count)).1
    (((connector.clients client).prepare_send.sent count).2 = true ∧ (connector.clients client).next_phase = .CANCELED →
        Unlinks client connector performed) ∧
      (¬ (((connector.clients client).prepare_send.sent count).2 = true ∧
        (connector.clients client).next_phase = .CANCELED) → SameQueues connector performed) := by
  obtain ⟨hprepared, _⟩ := prepare_send_kept (connector.clients client)
  obtain ⟨hsent, _⟩ := sent_kept (connector.clients client).prepare_send count
  have hnext := hsent.trans hprepared
  rw [send_message_sent]
  simp only
  cases hcomplete : ((connector.clients client).prepare_send.sent count).2 with
  | false => exact ⟨fun hleaves => absurd hleaves.1 (by simp), fun _ => ⟨rfl, rfl, rfl⟩⟩
  | true =>
    simp only [if_true, true_and, Connector.send_completed, Connector.set_client, Function.update_self, hnext]
    split
    · next hcanceled => exact ⟨fun _ => ⟨rfl, rfl, rfl⟩, fun hstays => absurd hcanceled hstays⟩
    · next hcanceled =>
      split
      · exact ⟨fun hleaves => absurd hleaves hcanceled, fun _ => ⟨rfl, rfl, rfl⟩⟩
      · exact ⟨fun hleaves => absurd hleaves hcanceled, fun _ => ⟨rfl, rfl, rfl⟩⟩

/-- The I/O pass takes the client off `com_queue`, or leaves both queues as they are. -/
theorem queues_perform_io (hpossible : (connector.clients client).io_possible read_fd_set write_fd_set result)
    (hpipe : result ≠ .broken_pipe) :
    ((connector.clients client).Leaves result →
        Unlinks client connector (connector.perform_io read_fd_set write_fd_set client result).1) ∧
      (¬ (connector.clients client).Leaves result →
        SameQueues connector (connector.perform_io read_fd_set write_fd_set client result).1) := by
  unfold NetClient.io_possible at hpossible
  unfold NetClient.Leaves Connector.perform_io
  by_cases hcanceled : (connector.clients client).current_phase = .CANCELED
  · simp only [if_pos hcanceled]
    exact ⟨fun _ => ⟨rfl, rfl, rfl⟩, fun hstays => absurd (Or.inl hcanceled) hstays⟩
  · simp only [if_neg hcanceled, or_iff_right hcanceled] at hpossible ⊢
    by_cases hreadable : (connector.clients client).socket_fd ∈ read_fd_set
    · simp only [if_pos hreadable] at hpossible ⊢
      cases result with
      | received data => exact queues_receive data
      | receive_failed => exact ⟨fun _ => ⟨rfl, rfl, rfl⟩, fun hstays => absurd trivial hstays⟩
      | _ => cases hpossible
    · simp only [if_neg hreadable] at hpossible ⊢
      by_cases hwritable : (connector.clients client).socket_fd ∈ write_fd_set
      · simp only [if_pos hwritable] at hpossible ⊢
        cases result with
        | sent count => exact queues_send count
        | send_failed => exact ⟨fun _ => ⟨rfl, rfl, rfl⟩, fun hstays => absurd trivial hstays⟩
        | broken_pipe => exact absurd rfl hpipe
        | _ => cases hpossible
      · simp only [if_neg hwritable] at hpossible ⊢
        subst hpossible
        exact ⟨False.elim, fun _ => ⟨rfl, rfl, rfl⟩⟩

/-- A call that fails closes the connection. -/
theorem perform_io_failed (hpossible : (connector.clients client).io_possible read_fd_set write_fd_set result)
    (hfailed : result = .receive_failed ∨ result = .send_failed) :
    ∃ object, object.socket_fd = (connector.clients client).socket_fd ∧
      (connector.perform_io read_fd_set write_fd_set client result).1 =
        (connector.set_client client object).close_connection client := by
  obtain ⟨_, hprepared, _⟩ := prepare_send_kept (connector.clients client)
  unfold NetClient.io_possible at hpossible
  unfold Connector.perform_io
  simp only
  split
  · next hcanceled =>
    rw [if_pos hcanceled] at hpossible
    subst hpossible
    cases hfailed with
    | inl hreceive => cases hreceive
    | inr hsend => cases hsend
  · next hcanceled =>
    rw [if_neg hcanceled] at hpossible
    split
    · next hreadable =>
      rw [if_pos hreadable] at hpossible
      obtain rfl | rfl := hfailed
      · refine ⟨connector.clients client, rfl, ?_⟩
        rw [Connector.set_client, Function.update_eq_self]
        rfl
      · cases hpossible
    · next hreadable =>
      rw [if_neg hreadable] at hpossible
      split
      · next hwritable =>
        rw [if_pos hwritable] at hpossible
        obtain rfl | rfl := hfailed
        · cases hpossible
        · exact ⟨_, hprepared, rfl⟩
      · next hwritable =>
        rw [if_neg hwritable] at hpossible
        subst hpossible
        cases hfailed with
        | inl hreceive => cases hreceive
        | inr hsend => cases hsend

end

namespace State

variable {Buf : Type} [CharBuffer Buf] [LawfulCharBuffer Buf] {before after state : State Buf} {client : ClientPtr}
  {result : IoResult}

/-- The I/O pass on one client ends neither the process nor another connection, and closes the client
if the call fails. -/
structure Contained (before after : State Buf) (client : ClientPtr) (result : IoResult) : Prop where
  running : after.terminated = false
  clients : ∀ other, other ≠ client → after.connector.clients other = before.connector.clients other
  sockets : ∀ other, other ≠ client → 0 ≤ (before.connector.clients other).socket_fd →
    (before.connector.clients other).socket_fd ∈ after.connector.open_fds
  records : ∀ connection, connection ≠ before.connector.connection client →
    after.connector.history connection = before.connector.history connection
  com_queue : after.com_clients.filter (· ≠ client) = before.com_clients.filter (· ≠ client)
  action_queue : after.connector.action_clients = before.connector.action_clients
  closed : result = .receive_failed ∨ result = .send_failed →
    client ∈ after.connector.client_pool.free_objects ∧ client ∉ after.com_clients ∧
      (0 ≤ (before.connector.clients client).socket_fd →
        (before.connector.clients client).socket_fd ∉ after.connector.open_fds)

omit [LawfulCharBuffer Buf] in
/-- The step of the pass over `com_queue`. -/
theorem visit_of_step (hstep : before.step (.visit client result) = some after) :
    before.terminated = false ∧ before.selector = .pass (some client) ∧
      (before.connector.clients client).io_possible before.read_fd_set before.write_fd_set result ∧
      before.visit client result = after := by
  obtain ⟨hrunning, hact⟩ := step_eq_some.mp hstep
  obtain ⟨⟨hposition, hpossible⟩, hvisit⟩ := only_if_eq_some.mp hact
  exact ⟨hrunning, hposition, hpossible, hvisit⟩

/-- A call that fails takes the connection away. -/
theorem closed_of_failed (h : before.Reachable) (hstep : before.step (.visit client result) = some after)
    (hfailed : result = .receive_failed ∨ result = .send_failed) :
    client ∈ after.connector.client_pool.free_objects ∧ client ∉ after.com_clients ∧
      (0 ≤ (before.connector.clients client).socket_fd →
        (before.connector.clients client).socket_fd ∉ after.connector.open_fds) := by
  obtain ⟨_, hposition, hpossible, hvisit⟩ := visit_of_step hstep
  have hpipe : result ≠ .broken_pipe := by
    obtain rfl | rfl := hfailed
    · simp
    · simp
  have hreached : after.Reachable := h.tail trivial hstep
  obtain ⟨place, stamp, hinvariant⟩ := Reachable.sound h
  obtain ⟨place', stamp', hinvariant'⟩ := Reachable.sound hreached
  have hcursor : before.selector.cursor = some client := by rw [hposition]; rfl
  have hqueued := hinvariant.interest.cursor client hcursor
  rw [visit_eq hpipe] at hvisit
  obtain ⟨object, hfd, hperformed⟩ := perform_io_failed hpossible hfailed
  have hconnector : after.connector = (before.connector.set_client client object).close_connection client := by
    rw [← hvisit, ← hperformed]
  have hfree : client ∈ after.connector.client_pool.free_objects := by
    have hpooled := hinvariant.consistent.pooled.deallocate (show place client ≠ .free by simp [hqueued])
    rw [hconnector]
    exact (hpooled.free_iff client).mpr (Function.update_self ..)
  refine ⟨hfree, fun hmem => ?_, fun hvalid hopen => ?_⟩
  · have hplace := (hinvariant'.consistent.pooled.free_iff client).mp hfree
    rw [hinvariant'.consistent.linked.follow_queued _ client hmem] at hplace
    cases hplace
  · rw [hconnector] at hopen
    have hclosed : (sys.close_fd before.connector.open_fds object.socket_fd).1 =
        ((before.connector.set_client client object).close_connection client).open_fds := by
      simp only [Connector.close_connection, Connector.set_client, Connector.set_record, Function.update_self]
    rw [← hclosed, hfd, sys.close_fd, if_pos hvalid] at hopen
    simpa using (List.mem_filter.mp hopen).2

theorem contained_iff (h : before.Reachable) (hstep : before.step (.visit client result) = some after) :
    Contained before after client result ↔
      result ≠ .broken_pipe ∧ ((before.connector.clients client).Leaves result →
        Attached before.connector.com_queue before.connector.nodes client) := by
  obtain ⟨hrunning, hposition, hpossible, hvisit⟩ := visit_of_step hstep
  obtain ⟨place, stamp, hinvariant⟩ := Reachable.sound h
  have hcursor : before.selector.cursor = some client := by rw [hposition]; rfl
  have hqueued := hinvariant.interest.cursor client hcursor
  have hlinked := hinvariant.consistent.linked
  by_cases hpipe : result = .broken_pipe
  · refine iff_of_false (fun hcontained => ?_) (fun hcondition => hcondition.1 hpipe)
    have hterminated := hcontained.running
    rw [← hvisit, State.visit, if_pos hpipe] at hterminated
    cases hterminated
  · have hfailed := closed_of_failed h hstep
    rw [and_iff_right hpipe]
    rw [visit_eq hpipe] at hvisit
    obtain ⟨hleaves, hstays⟩ := queues_perform_io hpossible hpipe
    have haffects := affects_perform_io before.connector before.read_fd_set before.write_fd_set client result
    have hrecords : SameRecords client before.connector
        (before.connector.perform_io before.read_fd_set before.write_fd_set client result).1 := same_records_perform_io
    have hconnector : after.connector =
        (before.connector.perform_io before.read_fd_set before.write_fd_set client result).1 := by rw [← hvisit]
    rw [← hconnector] at hleaves hstays haffects hrecords
    have hkeeps : KeepsPending place before.connector after.connector := by
      by_cases hgone : (before.connector.clients client).Leaves result
      · exact .unlinks hlinked hqueued (hleaves hgone)
      · obtain ⟨_, hnodes, haction⟩ := hstays hgone
        exact .of_eq haction hnodes
    have hcom : after.com_clients.filter (· ≠ client) = before.com_clients.filter (· ≠ client) ↔
        ((before.connector.clients client).Leaves result →
          Attached before.connector.com_queue before.connector.nodes client) := by
      unfold com_clients
      by_cases hgone : (before.connector.clients client).Leaves result
      · obtain ⟨hqueue, hnodes, _⟩ := hleaves hgone
        rw [hqueue, hnodes, forall_prop_of_true hgone]
        exact hlinked.walk_remove_iff hqueued
      · obtain ⟨hqueue, hnodes, _⟩ := hstays hgone
        rw [hqueue, hnodes]
        exact iff_of_true rfl (fun hleft => absurd hleft hgone)
    refine ⟨fun hcontained => hcom.mp hcontained.com_queue, fun hcondition => ?_⟩
    refine ⟨?_, haffects.others, fun other hother hvalid => ?_, hrecords.history, hcom.mpr hcondition,
      hkeeps.walk hlinked, hfailed⟩
    · rw [← hvisit]
      exact hrunning
    · have hopen := (hinvariant.consistent.sockets.valid other).resolve_left
        (fun hnone => by rw [hnone] at hvalid; cases hvalid)
      exact haffects.open_fds _ hopen.2
        (fun hsame => hother (hinvariant.consistent.sockets.distinct other client hvalid hsame))

/-- In a run without any of the errors, every client that the pass visits can be taken off `com_queue`. -/
theorem ReachableWhere.attached {condition : State Buf → Action → Prop}
    (hcondition : ∀ state action, condition state action → state.Orderly action) (h : state.ReachableWhere condition)
    (hposition : state.selector = .pass (some client)) :
    Attached state.connector.com_queue state.connector.nodes client := by
  obtain ⟨place, stamp, hinvariant⟩ := ReachableWhere.sound hcondition h
  have hcursor : state.selector.cursor = some client := by rw [hposition]; rfl
  have hqueued := hinvariant.interest.cursor client hcursor
  obtain ⟨queued, hrepresents, hmem⟩ := (hinvariant.complete trivial).contents
  obtain ⟨front, back, rfl⟩ := List.append_of_mem ((hmem client).mpr hqueued)
  have hsegment := hrepresents.segment
  rw [Segment.append] at hsegment
  obtain ⟨_, hprev, _⟩ := hsegment
  cases front with
  | nil => exact Or.inr (Or.inl hrepresents.head)
  | cons first rest =>
    left
    rw [hprev, List.getLast?_cons]
    simp

/-- Whatever a call of `recv()` or `send()` results in, its effects stay with one client, unless
`send()` raises `SIGPIPE` or the client has no place on `com_queue` from which it can be taken. Every
client has one in a run without any of the errors. -/
theorem failures_contained (h : before.Reachable) (hstep : before.step (.visit client result) = some after) :
    (Contained before after client result ↔
      result ≠ .broken_pipe ∧ ((before.connector.clients client).Leaves result →
        Attached before.connector.com_queue before.connector.nodes client)) ∧
      (before.ReachableWhere State.Orderly → (Contained before after client result ↔ result ≠ .broken_pipe)) := by
  have hcontained := contained_iff h hstep
  refine ⟨hcontained, fun horderly => ?_⟩
  obtain ⟨_, hposition, _⟩ := visit_of_step hstep
  have hattached := ReachableWhere.attached (fun _ _ hcondition => hcondition) horderly hposition
  rw [hcontained]
  exact and_iff_left (fun _ => hattached)

/-- Two connections, and a pass that comes to the first one. -/
def two_run : List Action :=
  Action.startup ++ Action.accept_round 6 23 [] ++ Action.accept_round 7 22 [23] ++
    [.test_signal, .build_lock, .build, .select [6, 7] [], .pass_lock, .pass_first]

/-- A state that a run reaches, and the visit that follows. -/
theorem exists_visit {actions : List Action} {client : ClientPtr} {result : IoResult} {P : State BoundedBuffer → Bool}
    (hrun : ((run State.step (State.initial BoundedBuffer (.filled 0xA5)) actions).any
      fun state => (state.step (.visit client result)).isSome && P state) = true) :
    ∃ before after : State BoundedBuffer, before.Reachable ∧ before.step (.visit client result) = some after ∧
      P before = true := by
  obtain ⟨before, hreached, hboth⟩ := exists_reachesFrom_of_run hrun
  obtain ⟨hstep, hp⟩ := Bool.and_eq_true_iff.mp hboth
  obtain ⟨after, hafter⟩ := Option.isSome_iff_exists.mp hstep
  exact ⟨before, after, hreached, hafter, hp⟩

theorem failures_contained_reset : ∃ before after : State BoundedBuffer, before.com_clients = [23, 22] ∧
    Contained before after 23 .receive_failed := by
  obtain ⟨before, after, hreached, hstep, hfound⟩ := exists_visit
    (by decide +kernel : ((run State.step (State.initial BoundedBuffer (.filled 0xA5)) two_run).any
      fun state => (state.step (.visit 23 .receive_failed)).isSome &&
        decide (state.com_clients = [23, 22] ∧ state.connector.com_queue.head_node = some 23)) = true)
  obtain ⟨hclients, hhead⟩ := of_decide_eq_true hfound
  obtain ⟨hcontained, _⟩ := failures_contained hreached hstep
  exact ⟨before, after, hclients, hcontained.mpr ⟨by simp, fun _ => Or.inr (Or.inl hhead)⟩⟩

/-- The server has a reply to send on a connection that its peer has reset. -/
def reset_run : List Action :=
  Action.startup ++ Action.accept_round 6 23 [] ++ Action.round [6] [] [] (Action.complete 23 none [0, 0, 0, 4]) ++
    Action.work 0 23 false ++ [.worker_hand_back_lock 0 23, .worker_hand_back 0 23] ++
    [.test_signal, .build_lock, .build, .select [4] [6], .drain, .drain, .pass_lock, .pass_first]

theorem failures_not_contained : ¬ ∀ (before after : State BoundedBuffer) (client : ClientPtr) (result : IoResult),
    before.Reachable → before.step (.visit client result) = some after → Contained before after client result := by
  intro hcontained
  obtain ⟨before, after, hreached, hstep, _⟩ := exists_visit
    (by decide +kernel : ((run State.step (State.initial BoundedBuffer (.filled 0xA5)) reset_run).any
      fun state => (state.step (.visit 23 .broken_pipe)).isSome && true) = true)
  exact ((contained_iff hreached hstep).mp (hcontained before after 23 .broken_pipe hreached hstep)).1 rfl

end State

end ufh
