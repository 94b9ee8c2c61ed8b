import UniversalFencingHub.ServerConnector.Consistent

open ufh.CharBuffer framing

namespace ufh

theorem NetClient.Received.of_same {Buf : Type} [CharBuffer Buf] {client after : NetClient Buf} {message : Message}
    (h : client.Received message) (hsame : NetClient.SameBuffers after client)
    (hphase : after.current_phase = .PENDING ∨ after.current_phase = .EXECUTING)
    (hheader : after.header = client.header)
    (hbuffer : after.io_offset = client.io_offset ∧ after.io_buffer = client.io_buffer) :
    after.Received message := by
  obtain ⟨hoffset, hbuffer⟩ := hbuffer
  refine ⟨h.clean.of_same hsame ?_, hphase, ?_, ?_, ?_, ?_, ?_⟩
  · rw [hbuffer]
    exact h.clean.buffer_length
  · rw [hheader]
    exact h.msg_type
  · rw [hheader]
    exact h.data_length
  · rw [hoffset]
    exact h.io_offset
  · rw [hoffset, hbuffer]
    exact h.buffered
  · rw [hoffset]
    exact h.bounds

theorem HoldsMessage.of_received {Buf : Type} [CharBuffer Buf] {client after : NetClient Buf} {record : History}
    {earlier : List Message} {message : Message} (h : HoldsMessage client record earlier message)
    (hreceived : after.Received message) (hfd : after.socket_fd = client.socket_fd) :
    HoldsMessage after record earlier message :=
  ⟨hreceived, hfd ▸ h.socket, h.remainder, h.recorded, h.messages, h.echoes, h.dispatched, h.dialogue⟩

theorem receive_kept {Buf : Type} (client : NetClient Buf) (data : Bytes) :
    (client.receive data).1.next_phase = client.next_phase ∧ (client.receive data).1.io_state = client.io_state ∧
      (client.receive data).1.socket_fd = client.socket_fd ∧
      NetClient.SameBuffers (client.receive data).1 client := by
  unfold NetClient.receive
  simp only
  split
  · exact ⟨rfl, rfl, rfl, rfl, rfl, rfl, rfl⟩
  · split
    · exact ⟨rfl, rfl, rfl, rfl, rfl, rfl, rfl⟩
    · exact ⟨rfl, rfl, rfl, rfl, rfl, rfl, rfl⟩

theorem sent_kept {Buf : Type} (object : NetClient Buf) (count : Nat) :
    (object.sent count).1.next_phase = object.next_phase ∧ (object.sent count).1.socket_fd = object.socket_fd ∧
      NetClient.SameBuffers (object.sent count).1 object :=
  ⟨rfl, rfl, rfl, rfl, rfl, rfl⟩

/-- A step that leaves both queues as they are. -/
def SameQueues {Buf : Type} (before after : Connector Buf) : Prop :=
  after.com_queue = before.com_queue ∧ after.nodes = before.nodes ∧ after.action_queue = before.action_queue

/-- A step that takes a client off `com_queue`. -/
def Unlinks {Buf : Type} (client : ClientPtr) (before after : Connector Buf) : Prop :=
  after.com_queue = (before.com_queue.remove before.nodes client).1 ∧
    after.nodes = (before.com_queue.remove before.nodes client).2 ∧ after.action_queue = before.action_queue

section

variable {Buf : Type} [CharBuffer Buf] {connector : Connector Buf} {place : ClientPtr → Place}
  {stamp : ClientPtr → Nat} {client : ClientPtr}

theorem receive_message_received (data : Bytes) :
    connector.receive_message client (.received data) =
      ({ connector with
          clients := Function.update connector.clients client ((connector.clients client).receive data).1
          history := Function.update connector.history (connector.connection client)
            (Connector.received_record (connector.record client) (connector.clients client)
              ((connector.clients client).receive data).1 data ((connector.clients client).receive data).2) },
        ((connector.clients client).receive data).2) := rfl

/-- Bytes received for a queued client that waits for a message. -/
theorem Consistent.receive (h : Consistent connector place stamp) (hqueued : place client = .queued)
    {begun data : Bytes} (hawaits : AwaitsMessage (connector.clients client) (connector.record client) begun)
    (hsocket : 0 ≤ (connector.clients client).socket_fd)
    (hsize : data.length ≤ (connector.clients client).req_read_size) :
    ((connector.receive_message client (.received data)).2 = false →
      Consistent (connector.receive_message client (.received data)).1 place stamp ∧
        SameQueues connector (connector.receive_message client (.received data)).1) ∧
      ((connector.receive_message client (.received data)).2 = true →
        ((connector.receive_message client (.received data)).1.receive_completed client).2 = true ∧
        Consistent ((connector.receive_message client (.received data)).1.receive_completed client).1
          (Function.update place client (.held .selector .completed)) stamp ∧
        Unlinks client connector ((connector.receive_message client
            (.received data)).1.receive_completed client).1) := by
  have hfree : place client ≠ .free := by simp [hqueued]
  have hplace : Function.update place client .queued = place := by rw [← hqueued, Function.update_eq_self]
  obtain ⟨hmore, hdone⟩ := hawaits.receive hsocket hsize
  obtain ⟨hnextPhase, hioState, hfd, hsame⟩ := receive_kept (connector.clients client) data
  have hcapacities := (h.sessions.capacities client).of_same hsame
  have hnext : ((connector.clients client).receive data).1.next_phase = .PENDING :=
    hnextPhase.trans hawaits.receiving.next_phase
  obtain ⟨hrecorded, _⟩ := hawaits.recorded_receive hsize
  rw [receive_message_received]
  generalize (connector.clients client).receive data = result at *
  obtain ⟨object, recv_complete⟩ := result
  simp only at *
  constructor
  · intro hcomplete
    subst hcomplete
    refine ⟨?_, rfl, rfl, rfl⟩
    rw [← hplace]
    exact h.change rfl rfl ⟨rfl, rfl⟩ rfl rfl (by rw [hplace]; exact h.linked) hfree (by simp) hfd
      ⟨rfl, rfl⟩ hcapacities
      hrecorded (Or.inl ⟨begun ++ data, hmore rfl⟩)
  · intro hcomplete
    subst hcomplete
    obtain ⟨message, hholds⟩ := hdone rfl
    have hcanceled : ¬ object.next_phase = .CANCELED := by
      rw [hnext]
      simp
    simp only [Connector.receive_completed, Connector.set_client, Function.update_self, if_neg hcanceled, if_pos hnext,
      Connector.com_remove, Function.update_idem]
    have hreceived : NetClient.Received { object with current_phase := object.next_phase, io_state := .NOOP } message :=
      hholds.received.of_same ⟨rfl, rfl, rfl, rfl⟩ (Or.inl hnext) rfl ⟨rfl, rfl⟩
    have hsession : Session (.held .selector .completed)
        { object with current_phase := object.next_phase, io_state := .NOOP } _ :=
      ⟨_, message, hholds.of_received hreceived rfl⟩
    refine ⟨trivial, ?_, rfl, rfl, rfl⟩
    exact h.change rfl rfl ⟨rfl, rfl⟩ rfl rfl (h.linked.com_remove hqueued .selector .completed) hfree (by simp) hfd
      ⟨rfl, rfl⟩ (hcapacities.of_same ⟨rfl, rfl, rfl, rfl⟩) hrecorded hsession

theorem send_message_sent (count : Nat) :
    connector.send_message client (.sent count) =
      ({ connector with
          clients := Function.update connector.clients client
            ((connector.clients client).prepare_send.sent count).1
          history := Function.update connector.history (connector.connection client)
            (sent_record (connector.record client) ((connector.clients client).prepare_send.outgoing count)) },
        ((connector.clients client).prepare_send.sent count).2) := by
  simp only [Connector.send_message, Connector.set_client, Connector.set_record, Connector.record, Function.update_idem,
    sent_record]

/-- Bytes sent for a queued client that owes a reply. -/
theorem Consistent.send [LawfulCharBuffer Buf] (h : Consistent connector place stamp) (hqueued : place client = .queued)
    {reply : protocol.MsgType} {written count : Nat} {success_flag : Bool}
    (howes : OwesReply (connector.clients client) (connector.record client) reply written success_flag)
    (hsize : count ≤ (connector.clients client).prepare_send.req_write_size) :
    ((connector.send_message client (.sent count)).2 = false →
      Consistent (connector.send_message client (.sent count)).1 place stamp ∧
        SameQueues connector (connector.send_message client (.sent count)).1) ∧
      ((connector.send_message client (.sent count)).2 = true →
        (Consistent ((connector.send_message client (.sent count)).1.send_completed client) place stamp ∧
          SameQueues connector ((connector.send_message client (.sent count)).1.send_completed client)) ∨
        (Consistent ((connector.send_message client (.sent count)).1.send_completed client)
            (Function.update place client .free) stamp ∧
          Unlinks client connector ((connector.send_message client (.sent count)).1.send_completed client))) := by
  have hfree : place client ≠ .free := by simp [hqueued]
  have hplace : Function.update place client .queued = place := by rw [← hqueued, Function.update_eq_self]
  obtain ⟨hrecorded, hmore, hdone⟩ := howes.send hsize
  obtain ⟨hpreparedNext, hpreparedFd, hpreparedSame⟩ := prepare_send_kept (connector.clients client)
  obtain ⟨hsentNext, hsentFd, hsentSame⟩ := sent_kept (connector.clients client).prepare_send count
  have hcapacities := ((h.sessions.capacities client).of_same hpreparedSame).of_same hsentSame
  rw [hpreparedNext] at hsentNext
  rw [hpreparedFd] at hsentFd
  rw [send_message_sent]
  generalize (connector.clients client).prepare_send.sent count = result at *
  obtain ⟨object, send_complete⟩ := result
  simp only at *
  constructor
  · intro hcomplete
    refine ⟨?_, rfl, rfl, rfl⟩
    rw [← hplace]
    exact h.change rfl rfl ⟨rfl, rfl⟩ rfl rfl (by rw [hplace]; exact h.linked) hfree (by simp) hsentFd ⟨rfl, rfl⟩
      hcapacities hrecorded (Or.inr ⟨reply, _, success_flag, hmore hcomplete⟩)
  · intro hcomplete
    cases howes.replying.next_phase with
    | inl hrecv =>
      left
      have hnext : object.next_phase = .RECV := hsentNext.trans hrecv.1
      have hcanceled : ¬ object.next_phase = .CANCELED := by simp [hnext]
      have hawaits := hdone hcomplete hrecv.1
      simp only [Connector.send_completed, Connector.set_client, Function.update_self, if_neg hcanceled, if_pos hnext,
        Function.update_idem]
      rw [← hnext] at hawaits
      refine ⟨?_, rfl, rfl, rfl⟩
      rw [← hplace]
      exact h.change rfl rfl ⟨rfl, rfl⟩ rfl rfl (by rw [hplace]; exact h.linked) hfree (by simp) hsentFd ⟨rfl, rfl⟩
        (hcapacities.of_same ⟨rfl, rfl, rfl, rfl⟩) hrecorded (Or.inl ⟨[], hawaits⟩)
    | inr hcancel =>
      right
      have hnext : object.next_phase = .CANCELED := hsentNext.trans hcancel
      simp only [Connector.send_completed, Connector.set_client, Function.update_self, if_pos hnext,
        Function.update_idem]
      refine ⟨?_, rfl, rfl, rfl⟩
      exact h.close_changed rfl rfl ⟨rfl, rfl⟩ rfl rfl ⟨rfl, rfl, rfl⟩ hsentFd ⟨rfl, rfl⟩
        (hcapacities.of_same ⟨rfl, rfl, rfl, rfl⟩) hrecorded (Or.inl hqueued)

/-- The I/O pass on one queued client, when the descriptor sets name it for the
direction that it waits for. -/
theorem Consistent.perform_io [LawfulCharBuffer Buf] (h : Consistent connector place stamp)
    (hqueued : place client = .queued) {read_fd_set write_fd_set : List Int} {result : IoResult}
    (hread : (connector.clients client).socket_fd ∈ read_fd_set → (connector.clients client).io_state = .READ)
    (hwrite : (connector.clients client).socket_fd ∈ write_fd_set → (connector.clients client).io_state = .WRITE)
    (hpossible : (connector.clients client).io_possible read_fd_set write_fd_set result)
    (hpipe : result ≠ .broken_pipe) :
    ((connector.perform_io read_fd_set write_fd_set client result).2 = true →
      Consistent (connector.perform_io read_fd_set write_fd_set client result).1
        (Function.update place client (.held .selector .completed)) stamp ∧
      Unlinks client connector (connector.perform_io read_fd_set write_fd_set client result).1) ∧
      ((connector.perform_io read_fd_set write_fd_set client result).2 = false →
        (Consistent (connector.perform_io read_fd_set write_fd_set client result).1 place stamp ∧
          SameQueues connector (connector.perform_io read_fd_set write_fd_set client result).1) ∨
        (Consistent (connector.perform_io read_fd_set write_fd_set client result).1
            (Function.update place client .free) stamp ∧
          Unlinks client connector (connector.perform_io read_fd_set write_fd_set client result).1)) := by
  have hclosed : Consistent (connector.close_connection client) (Function.update place client .free) stamp ∧
      Unlinks client connector (connector.close_connection client) :=
    ⟨h.close_connection (Or.inl hqueued), rfl, rfl, rfl⟩
  have hsession := h.sessions.session client
  rw [hqueued] at hsession
  unfold NetClient.io_possible at hpossible
  unfold Connector.perform_io
  by_cases hcanceled : (connector.clients client).current_phase = .CANCELED
  · simp only [if_pos hcanceled]
    exact ⟨nofun, fun _ => Or.inr hclosed⟩
  · simp only [if_neg hcanceled] at hpossible ⊢
    by_cases hreadable : (connector.clients client).socket_fd ∈ read_fd_set
    · simp only [if_pos hreadable] at hpossible ⊢
      cases hsession with
      | inr howes =>
        obtain ⟨_, _, _, howes⟩ := howes
        have hio := howes.replying.io_state
        rw [hread hreadable] at hio
        cases hio
      | inl hawaits =>
        obtain ⟨begun, hawaits⟩ := hawaits
        cases result with
        | received data =>
          obtain ⟨hmore, hdone⟩ := h.receive hqueued hawaits hpossible.1 hpossible.2.2
          cases hcomplete : (connector.receive_message client (.received data)).2 with
          | false =>
            simp only [Bool.false_eq_true, if_false]
            exact ⟨nofun, fun _ => Or.inl (hmore hcomplete)⟩
          | true =>
            obtain ⟨hpending, hconsistent⟩ := hdone hcomplete
            simp only [if_true]
            exact ⟨fun _ => hconsistent, fun hfalse => by simp [hpending] at hfalse⟩
        | receive_failed => exact ⟨nofun, fun _ => Or.inr hclosed⟩
        | no_call => cases hpossible
        | sent count => cases hpossible
        | send_failed => cases hpossible
        | broken_pipe => cases hpossible
    · simp only [if_neg hreadable] at hpossible ⊢
      by_cases hwritable : (connector.clients client).socket_fd ∈ write_fd_set
      · simp only [if_pos hwritable] at hpossible ⊢
        cases hsession with
        | inl hawaits =>
          obtain ⟨_, hawaits⟩ := hawaits
          have hio := hawaits.receiving.io_state
          rw [hwrite hwritable] at hio
          cases hio
        | inr howes =>
          obtain ⟨reply, written, success_flag, howes⟩ := howes
          obtain ⟨hpreparedNext, hpreparedFd, hpreparedSame⟩ := prepare_send_kept (connector.clients client)
          cases result with
          | sent count =>
            obtain ⟨hmore, hdone⟩ := h.send hqueued howes hpossible.2
            cases hcomplete : (connector.send_message client (.sent count)).2 with
            | false =>
              simp only [Bool.false_eq_true, if_false]
              exact ⟨nofun, fun _ => Or.inl (hmore hcomplete)⟩
            | true =>
              simp only [if_true]
              exact ⟨nofun, fun _ => hdone hcomplete⟩
          | send_failed =>
            refine ⟨nofun, fun _ => Or.inr ⟨?_, rfl, rfl, rfl⟩⟩
            exact h.close_changed rfl (Function.update_eq_self _ _).symm ⟨rfl, rfl⟩ rfl rfl ⟨rfl, rfl, rfl⟩ hpreparedFd
              ⟨rfl, rfl⟩ ((h.sessions.capacities client).of_same hpreparedSame) (h.sessions.recorded _) (Or.inl hqueued)
          | broken_pipe => exact absurd rfl hpipe
          | no_call => cases hpossible
          | received data => cases hpossible
          | receive_failed => cases hpossible
      · simp only [if_neg hwritable]
        exact ⟨nofun, fun _ => Or.inl ⟨h, rfl, rfl, rfl⟩⟩

end

end ufh
