import UniversalFencingHub.Shared.CharBuffer
import UniversalFencingHub.Threads.Pending
import UniversalFencingHub.Threads.Wakeup

open transition linked_list

namespace ufh

namespace NetClient

variable {Buf : Type}

/-- The client waits for a message. -/
def Reads (client : NetClient Buf) : Prop :=
  client.current_phase = .RECV ∧ client.next_phase = .PENDING ∧ client.io_state = .READ

/-- The client has a reply to send. -/
def Writes (client : NetClient Buf) : Prop :=
  client.current_phase = .SEND ∧ (client.next_phase = .RECV ∨ client.next_phase = .CANCELED) ∧ client.io_state = .WRITE

/-- The client waits for a worker. -/
def Waits (client : NetClient Buf) : Prop := client.current_phase = .PENDING ∧ client.io_state = .NOOP

/-- `recv()` gets at least one byte of the buffer to fill, and none behind it, and no subtraction wraps. -/
structure ReadBounds (client : NetClient Buf) : Prop where
  io_offset : client.io_offset ≤ IO_BUFFER_SIZE
  no_wrap : MsgHeader.HEADER_SIZE ≤ client.io_offset → client.io_offset ≤ client.header.data_length.toNat
  positive : 1 ≤ client.req_read_size
  room : client.req_read_size ≤ IO_BUFFER_SIZE - client.io_offset

/-- `send()` gets at least one byte of the buffer to send, and none behind it, and no subtraction wraps. -/
structure WriteBounds (client : NetClient Buf) : Prop where
  io_offset : client.io_offset ≤ IO_BUFFER_SIZE
  no_wrap : client.io_offset ≤ client.header.data_length.toNat
  positive : 1 ≤ client.req_write_size
  room : client.req_write_size ≤ IO_BUFFER_SIZE - client.io_offset

/-- The I/O pass calls `receive_message` for the client. -/
def Receives (client : NetClient Buf) (read_fd_set : List Int) : Prop :=
  client.current_phase ≠ .CANCELED ∧ client.socket_fd ∈ read_fd_set

/-- The I/O pass calls `send_message` for the client. -/
def Sends (client : NetClient Buf) (read_fd_set write_fd_set : List Int) : Prop :=
  client.current_phase ≠ .CANCELED ∧ client.socket_fd ∉ read_fd_set ∧ client.socket_fd ∈ write_fd_set

end NetClient

section

variable {Buf : Type} [CharBuffer Buf] {connector : Connector Buf} {read_fd_set write_fd_set : List Int}
  {client : ClientPtr} {result : IoResult} {place : ClientPtr → Place} {stamp : ClientPtr → Nat}

theorem receive_completed_waits (h : (connector.receive_completed client).2 = true) :
    ((connector.receive_completed client).1.clients client).Waits := by
  unfold Connector.receive_completed at h ⊢
  simp only at h ⊢
  by_cases hcanceled : (connector.clients client).next_phase = .CANCELED
  · rw [if_pos hcanceled] at h
    cases h
  · rw [if_neg hcanceled] at h ⊢
    by_cases hpending : (connector.clients client).next_phase = .PENDING
    · rw [if_pos hpending]
      simp [NetClient.Waits, Connector.set_client, Connector.com_remove, hpending]
    · rw [if_neg hpending] at h
      cases h

/-- A client whose message is complete waits for a worker. -/
theorem perform_io_waits (h : (connector.perform_io read_fd_set write_fd_set client result).2 = true) :
    ((connector.perform_io read_fd_set write_fd_set client result).1.clients client).Waits := by
  unfold Connector.perform_io at h ⊢
  by_cases hcanceled : (connector.clients client).current_phase = .CANCELED
  · simp only [if_pos hcanceled] at h
    cases h
  · simp only [if_neg hcanceled] at h ⊢
    by_cases hread : (connector.clients client).socket_fd ∈ read_fd_set
    · simp only [if_pos hread] at h ⊢
      cases hcomplete : (connector.receive_message client result).2 with
      | true =>
        simp only [hcomplete, if_true] at h ⊢
        exact receive_completed_waits h
      | false => simp [hcomplete] at h
    · simp only [if_neg hread] at h
      split at h <;> cases h

/-- A queued client waits for a message, or it has a reply to send. -/
theorem Consistent.queued_phases (h : Consistent connector place stamp) (hqueued : place client = .queued) :
    (connector.clients client).Reads ∨ (connector.clients client).Writes := by
  have hsession := h.sessions.session client
  rw [hqueued] at hsession
  obtain ⟨begun, hawaits⟩ | ⟨reply, count, success_flag, howes⟩ := hsession
  · exact Or.inl ⟨hawaits.receiving.current_phase, hawaits.receiving.next_phase, hawaits.receiving.io_state⟩
  · exact Or.inr ⟨howes.replying.current_phase, howes.replying.next_phase.imp_left And.left, howes.replying.io_state⟩

theorem NetClient.Receiving.read_bounds {client : NetClient Buf} {begun : Bytes} (h : client.Receiving begun) :
    client.ReadBounds := by
  obtain ⟨hfits, hpositive⟩ := h.read_fits
  have hoffset := h.io_offset
  refine ⟨by omega, fun hlength => ?_, hpositive, by omega⟩
  cases hheader : client.have_header with
  | true =>
    have hshort := h.short hheader
    omega
  | false =>
    have hshort := h.no_header hheader
    omega

theorem NetClient.Replying.write_bounds {client : NetClient Buf} {reply : protocol.MsgType} {count : Nat}
    (h : client.Replying reply count) : client.WriteBounds := by
  have hrequest := h.req_write_size
  have hlength := h.data_length
  have hoffset := h.io_offset
  have hunsent := h.unsent
  unfold MsgHeader.HEADER_SIZE at hrequest hlength hunsent
  constructor
  · unfold NetClient.IO_BUFFER_SIZE
    omega
  · omega
  · omega
  · unfold NetClient.IO_BUFFER_SIZE
    omega

theorem close_connection_offset (connector : Connector Buf) (client : ClientPtr) :
    ((connector.close_connection client).clients client).io_offset = 0 := by
  simp only [Connector.close_connection, Connector.set_client, Function.update_self]
  rfl

theorem receive_completed_offset (connector : Connector Buf) (client : ClientPtr) :
    ((connector.receive_completed client).1.clients client).io_offset ≤ (connector.clients client).io_offset := by
  unfold Connector.receive_completed
  simp only
  split
  · rw [close_connection_offset]
    exact Nat.zero_le _
  · split
    · simp [Connector.set_client, Connector.com_remove]
    · simp [Connector.set_client]

theorem send_completed_offset (connector : Connector Buf) (client : ClientPtr) :
    ((connector.send_completed client).clients client).io_offset ≤ (connector.clients client).io_offset := by
  unfold Connector.send_completed
  simp only
  split
  · rw [close_connection_offset]
    exact Nat.zero_le _
  · split
    · simp [Connector.set_client, NetClient.clear_io_buffer]
    · simp [Connector.set_client]

theorem receive_message_offset (hbounds : (connector.clients client).ReadBounds)
    (hpossible : (connector.clients client).receive_possible result) :
    ((connector.receive_message client result).1.clients client).io_offset ≤ NetClient.IO_BUFFER_SIZE := by
  have hroom := hbounds.room
  have hoffset := hbounds.io_offset
  cases result with
  | received data =>
    have hsize := hpossible.2.2
    rw [receive_message_received]
    simp only [Function.update_self, (receive_progress _ data).1]
    omega
  | receive_failed =>
    simp only [Connector.receive_message, close_connection_offset]
    exact Nat.zero_le _
  | no_call => cases hpossible
  | sent count => cases hpossible
  | send_failed => cases hpossible
  | broken_pipe => cases hpossible

theorem send_message_offset (hbounds : (connector.clients client).prepare_send.WriteBounds)
    (hpossible : (connector.clients client).send_possible result) :
    ((connector.send_message client result).1.clients client).io_offset ≤ NetClient.IO_BUFFER_SIZE := by
  have hroom := hbounds.room
  have hoffset := hbounds.io_offset
  have hclosed : ∀ result, (∀ count, result ≠ .sent count) →
      ((connector.send_message client result).1.clients client).io_offset = 0 := by
    intro result hresult
    cases result with
    | sent count => exact absurd rfl (hresult count)
    | _ => exact close_connection_offset _ client
  cases result with
  | sent count =>
    have hsize := hpossible.2
    rw [send_message_sent]
    simp only [Function.update_self, NetClient.sent]
    omega
  | send_failed => simp only [hclosed .send_failed (fun _ hsent => by cases hsent), Nat.zero_le]
  | broken_pipe => simp only [hclosed .broken_pipe (fun _ hsent => by cases hsent), Nat.zero_le]
  | no_call => cases hpossible
  | received data => cases hpossible
  | receive_failed => cases hpossible

/-- What the I/O pass does with a client keeps the offset inside the buffer. -/
theorem perform_io_offset (hbound : (connector.clients client).io_offset ≤ NetClient.IO_BUFFER_SIZE)
    (hreceive : (connector.clients client).Receives read_fd_set → (connector.clients client).ReadBounds)
    (hsend : (connector.clients client).Sends read_fd_set write_fd_set →
      (connector.clients client).prepare_send.WriteBounds)
    (hpossible : (connector.clients client).io_possible read_fd_set write_fd_set result) :
    ((connector.perform_io read_fd_set write_fd_set client result).1.clients client).io_offset ≤
      NetClient.IO_BUFFER_SIZE := by
  unfold NetClient.io_possible at hpossible
  unfold Connector.perform_io
  by_cases hcanceled : (connector.clients client).current_phase = .CANCELED
  · simp only [if_pos hcanceled, close_connection_offset, Nat.zero_le]
  · simp only [if_neg hcanceled] at hpossible ⊢
    by_cases hread : (connector.clients client).socket_fd ∈ read_fd_set
    · simp only [if_pos hread] at hpossible ⊢
      have hreceived := receive_message_offset (hreceive ⟨hcanceled, hread⟩) hpossible
      split
      · exact (receive_completed_offset _ client).trans hreceived
      · exact hreceived
    · simp only [if_neg hread] at hpossible ⊢
      by_cases hwrite : (connector.clients client).socket_fd ∈ write_fd_set
      · simp only [if_pos hwrite] at hpossible ⊢
        have hsent := send_message_offset (hsend ⟨hcanceled, hread, hwrite⟩) hpossible
        split
        · exact (send_completed_offset _ client).trans hsent
        · exact hsent
      · simp only [if_neg hwrite]
        exact hbound

theorem read_fields_offset (fuel : Nat) (client : NetClient Buf) (field_offset : Nat) :
    (NetClient.read_fields fuel client field_offset).1.io_offset = client.io_offset := by
  induction fuel generalizing client field_offset with
  | zero => rfl
  | succ fuel ih =>
    unfold NetClient.read_fields
    split
    · split
      · rfl
      · split
        · rfl
        · dsimp only
          split
          · split
            · rfl
            · rw [ih]
          · split
            · split
              · rfl
              · rw [ih]
            · rw [ih]
    · rfl

/-- Processing a message leaves the offset as it is or sets it back. -/
theorem process_client_message_offset (client : NetClient Buf) (success_flag : Bool) :
    (client.process_client_message success_flag).client.io_offset ≤ client.io_offset := by
  have hfence : ∀ fence : Server.FenceActionMethod,
      (client.fence_action fence success_flag).client.io_offset ≤ client.io_offset := by
    intro fence
    have hread := read_fields_offset client.io_offset client MsgHeader.HEADER_SIZE
    unfold NetClient.fence_action
    split
    · next heq =>
      rw [heq] at hread
      exact hread.le
    · next heq =>
      rw [heq] at hread
      exact hread.le
    · simp only
      split
      · exact Nat.zero_le _
      · exact Nat.zero_le _
  unfold NetClient.process_client_message
  split
  · exact Nat.zero_le _
  · split
    · exact le_rfl
    · split
      · exact hfence _
      · exact le_rfl

/-- A queued client asks the kernel for bytes inside its buffer only. -/
theorem Consistent.queued_bounds (h : Consistent connector place stamp) (hqueued : place client = .queued) :
    ((connector.clients client).Reads → (connector.clients client).ReadBounds) ∧
      ((connector.clients client).Writes → (connector.clients client).prepare_send.WriteBounds) := by
  have hsession := h.sessions.session client
  rw [hqueued] at hsession
  obtain ⟨begun, hawaits⟩ | ⟨reply, count, success_flag, howes⟩ := hsession
  · refine ⟨fun _ => hawaits.receiving.read_bounds, fun hwrites => ?_⟩
    have hphase := hawaits.receiving.current_phase
    rw [hwrites.1] at hphase
    cases hphase
  · refine ⟨fun hreads => ?_, fun _ => howes.replying.prepare_send.1.write_bounds⟩
    have hphase := howes.replying.current_phase
    rw [hreads.1] at hphase
    cases hphase

end

theorem SelectorPosition.Next.completes {first second : SelectorPosition} {action : Action} {client : ClientPtr}
    (h : first.Next action second) (hcompleted : second.holding = some (client, .completed)) :
    (∃ result, action = .visit client result) ∨ action.on_lists = false ∧
    first.holding = some (client, .completed) := by
  cases h with
  | completed other result next_client =>
    obtain ⟨rfl, _⟩ := Prod.mk.inj (Option.some.inj hcompleted)
    exact Or.inl ⟨result, rfl⟩
  | enqueue_locked other next_client => exact Or.inr ⟨rfl, hcompleted⟩
  | accept_locked other => cases hcompleted
  | accepted fd other => cases hcompleted
  | _ => cases hcompleted

namespace State

variable {Buf : Type} {before after state : State Buf} {place : ClientPtr → Place} {stamp : ClientPtr → Nat}
  {client : ClientPtr} {action : Action} {strict : Prop}

/-- The clients on `action_queue`, and the one that the selector is about to put there, wait for a worker. -/
structure Waiting (state : State Buf) : Prop where
  action_clients : ∀ client ∈ state.connector.action_clients, (state.connector.clients client).Waits
  completed : ∀ client, state.holding .selector = some (client, .completed) → (state.connector.clients client).Waits

section

variable [CharBuffer Buf]

/-- A step that leaves `action_queue` alone does not serve a client on it. -/
theorem served_not_pending [LawfulCharBuffer Buf] (h : Invariant strict before place stamp)
    (hact : before.act action = some after) (haction : action.uses_action_queue = false)
    (hserved : before.served_client action = some client) : place client ≠ .pending := by
  cases action with
  | accept fd =>
    obtain ⟨allocated, hallocate, rfl⟩ := Option.map_eq_some_iff.mp hserved
    have hallocate' : before.connector.client_pool.allocate = some (allocated.1, allocated.2) := hallocate
    obtain ⟨hfree, _⟩ := h.consistent.pooled.allocate hallocate' (by simp : Place.lost ≠ .free)
    simp [hfree]
  | visit other result =>
    obtain ⟨⟨hposition, _⟩, _⟩ := only_if_eq_some.mp hact
    obtain rfl := Option.some.inj hserved
    have hqueued := h.interest.cursor other (by rw [hposition]; rfl)
    simp [hqueued]
  | cleanup_com =>
    have hqueued := (h.consistent.linked.head client hserved).1
    simp [hqueued]
  | worker_process id other success_flag =>
    obtain ⟨hposition, _⟩ := only_if_eq_some.mp hact
    obtain rfl := Option.some.inj hserved
    have hheld := (h.holding _ _ _).mp (holding_worker hposition)
    simp [hheld]
  | worker_hand_back id other =>
    obtain ⟨⟨hposition, _⟩, _⟩ := only_if_eq_some.mp hact
    obtain rfl := Option.some.inj hserved
    have hheld := (h.holding _ _ _).mp (holding_worker hposition)
    simp [hheld]
  | worker_close id other =>
    obtain ⟨hposition, _⟩ := only_if_eq_some.mp hact
    obtain rfl := Option.some.inj hserved
    have hheld := (h.holding _ _ _).mp (holding_worker hposition)
    simp [hheld]
  | cleanup_action => cases haction
  | worker_take id => cases haction
  | _ => cases hserved

/-- No step of another thread serves a client that the selector holds. -/
theorem served_not_held [LawfulCharBuffer Buf] (h : Invariant strict before place stamp)
    (hact : before.act action = some after) (haction : action.by_selector = false) {role : Role}
    (hheld : place client = .held .selector role) : before.served_client action ≠ some client := by
  intro hserved
  have hother : ∀ {id : WorkerId} {position : WorkerPosition} {other : ClientPtr} {role' : Role},
      before.workers id = position → position.holding = some (other, role') → some other ≠ some client := by
    intro id position other role' hposition hholding heq
    have hplace := (h.holding _ _ _).mp ((holding_worker hposition).trans hholding)
    rw [Option.some.inj heq, hheld] at hplace
    cases hplace
  cases action with
  | worker_take id =>
    have hpending : place client = .pending := by
      obtain ⟨hrepresents, hmem⟩ := h.consistent.linked.represents_actions
      refine (hmem client).mp (List.mem_of_mem_head? ?_)
      rw [← hrepresents.head]
      exact hserved
    rw [hheld] at hpending
    cases hpending
  | worker_process id other success_flag =>
    obtain ⟨hposition, _⟩ := only_if_eq_some.mp hact
    exact hother hposition rfl hserved
  | worker_hand_back id other =>
    obtain ⟨⟨hposition, _⟩, _⟩ := only_if_eq_some.mp hact
    exact hother hposition rfl hserved
  | worker_close id other =>
    obtain ⟨hposition, _⟩ := only_if_eq_some.mp hact
    exact hother hposition rfl hserved
  | accept fd => cases haction
  | visit other result => cases haction
  | cleanup_action => cases haction
  | cleanup_com => cases haction
  | _ => cases hserved

/-- A step that leaves `action_queue` alone keeps the clients on it waiting. -/
theorem Waiting.pending [LawfulCharBuffer Buf] (h : before.Waiting) (hinvariant : Invariant strict before place stamp)
    (hact : before.act action = some after) (haction : action.uses_action_queue = false) :
    ∀ client ∈ after.connector.action_clients, (after.connector.clients client).Waits := by
  intro client hclient
  have hlinked := hinvariant.consistent.linked
  rw [(hinvariant.keeps_pending hact haction).walk hlinked] at hclient
  have hpending := (hlinked.represents_actions.2 client).mp hclient
  have hkept := act_clients hinvariant hact (fun hserved => served_not_pending hinvariant hact haction hserved hpending)
  rw [hkept]
  exact h.action_clients client hclient

/-- The clients behind the first one stay on `action_queue` as they are. -/
theorem Waiting.tail [LawfulCharBuffer Buf] (h : before.Waiting) (hinvariant : Invariant strict before place stamp)
    (hact : before.act action = some after)
    (hserved : before.served_client action = before.connector.action_queue.head_node)
    (hclients : after.connector.action_clients = before.connector.action_clients.tail) :
    ∀ client ∈ after.connector.action_clients, (after.connector.clients client).Waits := by
  intro client hclient
  obtain ⟨hrepresents, _⟩ := hinvariant.consistent.linked.represents_actions
  have hhead := hrepresents.head
  have hnodup := hrepresents.nodup
  rw [hclients] at hclient
  have hother : before.served_client action ≠ some client := by
    intro heq
    rw [hserved, hhead] at heq
    obtain ⟨rest, hrest⟩ := List.head?_eq_some_iff.mp heq
    rw [hrest] at hnodup hclient
    exact (List.nodup_cons.mp hnodup).1 hclient
  rw [act_clients hinvariant hact hother]
  exact h.action_clients client (List.mem_of_mem_tail hclient)

theorem Waiting.act_pending [LawfulCharBuffer Buf] (h : before.Waiting)
    (hinvariant : Invariant strict before place stamp)
    (hact : before.act action = some after) :
    ∀ client ∈ after.connector.action_clients, (after.connector.clients client).Waits := by
  have hclients := hinvariant.action_clients hact
  cases haction : action.uses_action_queue with
  | false => exact h.pending hinvariant hact haction
  | true =>
    cases action with
    | enqueue completed next_client target =>
      intro client hclient
      obtain ⟨⟨hposition, _⟩, _⟩ := only_if_eq_some.mp hact
      rw [act_clients hinvariant hact (by simp [served_client])]
      rw [hclients] at hclient
      obtain hclient | hclient := List.mem_append.mp hclient
      · exact h.action_clients client hclient
      · obtain rfl := List.mem_singleton.mp hclient
        exact h.completed client (by rw [State.holding, hposition]; rfl)
    | worker_take id => exact h.tail hinvariant hact rfl hclients
    | cleanup_action => exact h.tail hinvariant hact rfl hclients
    | _ => cases haction

theorem Waiting.act_completed [LawfulCharBuffer Buf] (h : before.Waiting)
    (hinvariant : Invariant strict before place stamp) (hact : before.act action = some after)
    (hcompleted : after.holding .selector = some (client, .completed)) : (after.connector.clients client).Waits := by
  cases haction : action.by_selector with
  | false =>
    have hbefore : before.holding .selector = some (client, .completed) := by
      rw [← hcompleted, State.holding, State.holding, (act_aside hact haction).selector]
    have hheld := (hinvariant.holding _ _ _).mp hbefore
    rw [act_clients hinvariant hact (served_not_held hinvariant hact haction hheld)]
    exact h.completed client hbefore
  | true =>
    obtain ⟨result, rfl⟩ | ⟨hlists, hbefore⟩ := (act_next hact haction).completes hcompleted
    · obtain ⟨⟨hposition, _⟩, rfl⟩ := only_if_eq_some.mp hact
      by_cases hpipe : result = .broken_pipe
      · simp only [State.visit, if_pos hpipe, State.holding, hposition, SelectorPosition.holding] at hcompleted
        cases hcompleted
      · rw [visit_eq hpipe] at hcompleted ⊢
        cases hdone : (before.connector.perform_io before.read_fd_set before.write_fd_set client result).2 with
        | true => exact perform_io_waits hdone
        | false =>
          simp [State.holding, hdone, SelectorPosition.holding] at hcompleted
    · have hserved : before.served_client action = none := by
        cases action with
        | visit other result => cases hlists
        | accept fd => cases hlists
        | cleanup_action => cases hlists
        | cleanup_com => cases hlists
        | worker_take id => cases hlists
        | worker_process id other success_flag => cases haction
        | worker_hand_back id other => cases hlists
        | worker_close id other => cases hlists
        | _ => rfl
      rw [act_clients hinvariant hact (fun hserves => by rw [hserved] at hserves; cases hserves)]
      exact h.completed client hbefore

theorem Reachable.waiting [LawfulCharBuffer Buf] (h : state.Reachable) : state.Waiting := by
  apply ReachesFrom.invariant_under h (fun _ hstate => Reachable.sound hstate)
  · refine fun memory => ⟨fun client hclient => ?_, nofun⟩
    cases hclient
  · rintro before action after ⟨_, _, hinvariant⟩ hbefore hstep
    obtain ⟨_, hact⟩ := step_eq_some.mp hstep
    exact ⟨hbefore.act_pending hinvariant hact, fun _ => hbefore.act_completed hinvariant hact⟩

/-- The client that the pass visits is one that reads if its descriptor is ready for reading, and one that
writes if its descriptor is ready for writing, though the descriptors of the sets may be numbers that have
been used again. -/
theorem Invariant.visit_phases (h : Invariant strict state place stamp)
    (hposition : state.selector = .pass (some client)) :
    ((state.connector.clients client).Receives state.read_fd_set → (state.connector.clients client).Reads) ∧
      ((state.connector.clients client).Sends state.read_fd_set state.write_fd_set →
        (state.connector.clients client).Writes) := by
  have hcursor : state.selector.cursor = some client := by rw [hposition]; rfl
  have hqueued := h.interest.cursor client hcursor
  obtain ⟨hread, hwrite⟩ := h.interest.fits client hqueued (Or.inr ⟨client, hcursor, le_rfl⟩)
  have hphases := h.consistent.queued_phases hqueued
  refine ⟨fun hreceives => hphases.resolve_right fun hwrites => ?_, fun hsends => hphases.resolve_left fun hreads => ?_⟩
  · have hstate := hread hreceives.2
    rw [hwrites.2.2] at hstate
    cases hstate
  · have hstate := hwrite hsends.2.2
    rw [hreads.2.2] at hstate
    cases hstate

/-- I/O goes in the right direction. The clients on `com_queue` wait for a message or have a reply to send,
those on `action_queue` wait for a worker, and the I/O pass calls `receive_message` for the first and
`send_message` for the second kind only. -/
theorem io_directions [LawfulCharBuffer Buf] (h : state.Reachable) :
    (∀ client, state.OnComQueue client →
        (state.connector.clients client).Reads ∨ (state.connector.clients client).Writes) ∧
      (∀ client ∈ state.connector.action_clients, (state.connector.clients client).Waits) ∧
      ∀ client, state.selector = .pass (some client) →
        ((state.connector.clients client).Receives state.read_fd_set → (state.connector.clients client).Reads) ∧
          ((state.connector.clients client).Sends state.read_fd_set state.write_fd_set →
            (state.connector.clients client).Writes) := by
  obtain ⟨place, stamp, hinvariant⟩ := Reachable.sound h
  refine ⟨?_, (Reachable.waiting h).action_clients, fun client hposition => hinvariant.visit_phases hposition⟩
  rintro client ⟨fuel, hmem⟩
  exact hinvariant.consistent.queued_phases (hinvariant.consistent.linked.follow_queued fuel client hmem)

/-- A connection whose descriptor is ready for reading. -/
def ready_run (rounds : List Action) : List Action :=
  Action.startup ++ Action.accept_round 6 23 [] ++ rounds ++
    [.test_signal, .build_lock, .build, .select [6] [], .pass_lock, .pass_first]

theorem io_directions_ready : ∃ state : State BoundedBuffer, state.selector = .pass (some 23) ∧
    (state.connector.clients 23).Receives state.read_fd_set ∧ (state.connector.clients 23).Reads := by
  obtain ⟨state, hreachable, hfound⟩ := exists_reachesFrom_of_run
    (by decide +kernel : ((run State.step (State.initial BoundedBuffer (.filled 0xA5)) (ready_run [])).any fun state =>
      state.selector = .pass (some 23) ∧ (state.connector.clients 23).current_phase ≠ .CANCELED ∧
        (state.connector.clients 23).socket_fd ∈ state.read_fd_set) = true)
  obtain ⟨hposition, hreceives⟩ := of_decide_eq_true hfound
  obtain ⟨_, _, hvisit⟩ := io_directions hreachable
  exact ⟨state, hposition, hreceives, (hvisit 23 hposition).1 hreceives⟩

theorem Invariant.visit_bounds (h : Invariant strict state place stamp)
    (hposition : state.selector = .pass (some client)) :
    ((state.connector.clients client).Receives state.read_fd_set → (state.connector.clients client).ReadBounds) ∧
      ((state.connector.clients client).Sends state.read_fd_set state.write_fd_set →
        (state.connector.clients client).prepare_send.WriteBounds) := by
  have hqueued := h.interest.cursor client (by rw [hposition]; rfl)
  obtain ⟨hreads, hwrites⟩ := h.visit_phases hposition
  obtain ⟨hread, hwrite⟩ := h.consistent.queued_bounds hqueued
  exact ⟨fun hreceives => hread (hreads hreceives), fun hsends => hwrite (hwrites hsends)⟩

omit [CharBuffer Buf] in
theorem take_action_offset (connector : Connector Buf) (client : ClientPtr) :
    (connector.take_action.2.clients client).io_offset = (connector.clients client).io_offset := by
  unfold Connector.take_action Connector.action_remove_first
  simp only
  split
  · next heq =>
    obtain ⟨_, rfl⟩ := Prod.mk.inj heq
    rfl
  · next taken _ heq =>
    obtain ⟨_, rfl⟩ := Prod.mk.inj heq
    by_cases hsame : client = taken
    · subst hsame
      simp [Connector.set_client]
    · simp [Connector.set_client, hsame]

/-- The client that a step serves keeps its offset inside the buffer. -/
theorem served_offset [LawfulCharBuffer Buf] (h : Invariant strict before place stamp)
    (hact : before.act action = some after) (hserved : before.served_client action = some client)
    (hbound : (before.connector.clients client).io_offset ≤ NetClient.IO_BUFFER_SIZE) :
    (after.connector.clients client).io_offset ≤ NetClient.IO_BUFFER_SIZE := by
  have hclosed : ∀ connector : Connector Buf,
      ((connector.close_connection client).clients client).io_offset ≤ NetClient.IO_BUFFER_SIZE := by
    intro connector
    rw [close_connection_offset]
    exact Nat.zero_le _
  cases action with
  | accept fd =>
    obtain ⟨_, rfl⟩ := only_if_eq_some.mp hact
    obtain ⟨allocated, hallocate, rfl⟩ := Option.map_eq_some_iff.mp hserved
    simp only [State.accept, Connector.accept, hallocate, Function.update_self]
    exact Nat.zero_le _
  | visit other result =>
    obtain ⟨⟨hposition, hpossible⟩, rfl⟩ := only_if_eq_some.mp hact
    obtain rfl := Option.some.inj hserved
    obtain ⟨hreceive, hsend⟩ := h.visit_bounds hposition
    by_cases hpipe : result = .broken_pipe
    · simp only [State.visit, if_pos hpipe]
      exact hbound
    · rw [visit_eq hpipe]
      exact perform_io_offset hbound hreceive hsend hpossible
  | cleanup_action =>
    obtain ⟨_, rfl⟩ := only_if_eq_some.mp hact
    obtain ⟨hnone, _⟩ | ⟨other, hhead, _, hfirst, _⟩ := h.consistent.action_remove_first .selector
    · rw [served_client, hnone] at hserved
      cases hserved
    · obtain rfl := Option.some.inj (hhead.symm.trans hserved)
      rw [cleanup_action_eq hfirst]
      exact hclosed _
  | cleanup_com =>
    obtain ⟨_, rfl⟩ := only_if_eq_some.mp hact
    obtain ⟨hnone, _⟩ | ⟨other, hhead, _, hfirst, _⟩ := h.consistent.com_remove_first .selector
    · rw [served_client, hnone] at hserved
      cases hserved
    · obtain rfl := Option.some.inj (hhead.symm.trans hserved)
      rw [cleanup_com_eq hfirst]
      exact hclosed _
  | worker_take id =>
    obtain ⟨_, rfl⟩ := only_if_eq_some.mp hact
    rw [take_connector, take_action_offset]
    exact hbound
  | worker_process id other success_flag =>
    obtain ⟨_, rfl⟩ := only_if_eq_some.mp hact
    obtain rfl := Option.some.inj hserved
    have hprocessed := process_client_message_offset (before.connector.clients other) success_flag
    rw [process_connector, process_eq]
    simp only [Function.update_self]
    exact hprocessed.trans hbound
  | worker_hand_back id other =>
    obtain ⟨_, rfl⟩ := only_if_eq_some.mp hact
    obtain rfl := Option.some.inj hserved
    cases hsignal : before.signal_flag with
    | true =>
      rw [hand_back_eq_close hsignal]
      exact hclosed _
    | false =>
      rw [hand_back_connector hsignal]
      exact hbound
  | worker_close id other =>
    obtain ⟨_, rfl⟩ := only_if_eq_some.mp hact
    obtain rfl := Option.some.inj hserved
    exact hclosed _
  | _ => cases hserved

/-- The sizes passed to `recv()` and `send()` are positive and end inside the buffer, and no offset ever
leaves it. -/
theorem io_bounds [LawfulCharBuffer Buf] (h : state.Reachable) :
    (∀ client, (state.connector.clients client).io_offset ≤ NetClient.IO_BUFFER_SIZE) ∧
      ∀ client, state.selector = .pass (some client) →
        ((state.connector.clients client).Receives state.read_fd_set → (state.connector.clients client).ReadBounds) ∧
          ((state.connector.clients client).Sends state.read_fd_set state.write_fd_set →
            (state.connector.clients client).prepare_send.WriteBounds) := by
  obtain ⟨_, _, hinvariant⟩ := Reachable.sound h
  refine ⟨?_, fun client hposition => hinvariant.visit_bounds hposition⟩
  apply ReachesFrom.invariant_under h (fun _ hstate => Reachable.sound hstate)
  · exact fun memory client => Nat.zero_le _
  · rintro before action after ⟨_, _, hinvariant⟩ hbefore hstep client
    obtain ⟨_, hact⟩ := step_eq_some.mp hstep
    by_cases hserved : before.served_client action = some client
    · exact served_offset hinvariant hact hserved (hbefore client)
    · rw [act_clients hinvariant hact hserved]
      exact hbefore client

theorem io_bounds_ready : ∃ state : State BoundedBuffer, (state.connector.clients 23).io_offset = 3 ∧
    (state.connector.clients 23).ReadBounds := by
  obtain ⟨state, hreachable, hfound⟩ := exists_reachesFrom_of_run
    (by decide +kernel : ((run State.step (State.initial BoundedBuffer (.filled 0xA5))
      (ready_run (Action.round [6] [] [] [.visit 23 (.received [0, 0, 0])]))).any fun state =>
        state.selector = .pass (some 23) ∧ (state.connector.clients 23).io_offset = 3 ∧
          (state.connector.clients 23).current_phase ≠ .CANCELED ∧
            (state.connector.clients 23).socket_fd ∈ state.read_fd_set) = true)
  obtain ⟨hposition, hoffset, hreceives⟩ := of_decide_eq_true hfound
  obtain ⟨_, hvisit⟩ := io_bounds hreachable
  exact ⟨state, hoffset, (hvisit 23 hposition).1 hreceives⟩

end

end State

end ufh
