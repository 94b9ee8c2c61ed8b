import UniversalFencingHub.ServerConnector.PerformIo

namespace ufh

namespace NetClient

variable {Buf : Type} {client : NetClient Buf}

/-- The number of bytes that `send_message` sends for a message: the announced length, at least a header
and at most the buffer. -/
def frame_length (client : NetClient Buf) : Nat :=
  max MsgHeader.HEADER_SIZE (min client.header.data_length.toNat IO_BUFFER_SIZE)

/-- The header that `send_message` sends. -/
def frame_header (client : NetClient Buf) : MsgHeader :=
  { client.header with data_length := client.frame_length.toUInt16 }

/-- The bytes that `send_message` sends for a message. -/
def frame (client : NetClient Buf) : Bytes :=
  (client.frame_header.serialize client.io_buffer).take client.frame_length

theorem frame_length_bounds (client : NetClient Buf) :
    MsgHeader.HEADER_SIZE ≤ client.frame_length ∧ client.frame_length ≤ IO_BUFFER_SIZE := by
  unfold frame_length MsgHeader.HEADER_SIZE IO_BUFFER_SIZE
  omega

theorem frame_header_length (client : NetClient Buf) : client.frame_header.data_length.toNat = client.frame_length := by
  obtain ⟨_, hlarge⟩ := client.frame_length_bounds
  unfold IO_BUFFER_SIZE at hlarge
  exact Nat.mod_eq_of_lt (by omega)

theorem frame_eq (hbuffer : client.io_buffer.length = IO_BUFFER_SIZE) :
    client.frame.length = client.frame_length ∧ MsgHeader.deserialize client.frame = client.frame_header := by
  obtain ⟨hleast, hmost⟩ := client.frame_length_bounds
  have hroom : MsgHeader.HEADER_SIZE ≤ client.io_buffer.length := hbuffer ▸ hleast.trans hmost
  have hserialized := client.frame_header.serialize_eq hroom
  have hwire : client.frame_header.wire.length = MsgHeader.HEADER_SIZE := MsgHeader.length_wire _
  constructor
  · rw [frame, hserialized, List.length_take, List.length_append, List.length_drop, hwire]
    omega
  · rw [frame, hserialized, List.take_append, List.take_of_length_le (by omega), MsgHeader.deserialize_append hwire,
      MsgHeader.deserialize_wire]

/-- What `send_message` prepares before the first byte. -/
theorem prepare_send_frame (hheader : client.have_header = false) :
    client.prepare_send =
      { client with
        header := client.frame_header
        io_buffer := client.frame_header.serialize client.io_buffer
        have_header := true } := by
  have hprepared : (if client.header.data_length.toNat < MsgHeader.HEADER_SIZE then
        { client.header with data_length := MsgHeader.HEADER_SIZE.toUInt16 }
      else if client.header.data_length.toNat > IO_BUFFER_SIZE then
        { client.header with data_length := IO_BUFFER_SIZE.toUInt16 }
      else client.header) = client.frame_header := by
    have hsmall : MsgHeader.HEADER_SIZE ≤ IO_BUFFER_SIZE := by decide
    unfold frame_header frame_length
    split
    · next hshort => rw [Nat.max_eq_left (by omega)]
    · split
      · next hlong => rw [Nat.min_eq_right (by omega), Nat.max_eq_right hsmall]
      · rw [Nat.min_eq_left (by omega), Nat.max_eq_right (by omega), Nat.toUInt16_eq, UInt16.ofNat_toNat]
  unfold prepare_send
  rw [if_neg (by rw [hheader]; decide)]
  simp only [hprepared]

theorem prepare_send_prepared (hheader : client.have_header = true) : client.prepare_send = client := if_pos hheader

end NetClient

section

variable {Buf : Type} [CharBuffer Buf]

/-- The states of the connector while a message is sent for a client, with the bytes that have been
transmitted. Between two calls of `send_message` anything happens that does not concern the client. -/
inductive Sending (start : Connector Buf) (client : ClientPtr) : Connector Buf → Bytes → Prop where
  | start : Sending start client start []
  | send {connector : Connector Buf} {transmitted : Bytes} (count : Nat)
      (h : Sending start client connector transmitted)
      (hpossible : (connector.clients client).send_possible (.sent count)) :
      Sending start client (connector.send_message client (.sent count)).1
        (transmitted ++ (connector.clients client).prepare_send.outgoing count)
  | other {connector : Connector Buf} {transmitted : Bytes} (after : Connector Buf)
      (h : Sending start client connector transmitted) (hclient : after.clients client = connector.clients client) :
      Sending start client after transmitted

variable {start connector : Connector Buf} {client : ClientPtr} {transmitted : Bytes} {count : Nat}

/-- What holds between two calls of `send_message`. -/
structure SentSoFar (start connector : Connector Buf) (client : ClientPtr) (transmitted : Bytes) : Prop where
  prepared : (connector.clients client).prepare_send =
    { (start.clients client).prepare_send with io_offset := transmitted.length }
  bytes : transmitted = (start.clients client).frame.take transmitted.length
  within : transmitted.length ≤ (start.clients client).frame_length

omit [CharBuffer Buf] in
/-- The request is what is left of the message. -/
theorem SentSoFar.req_write_size (h : SentSoFar start connector client transmitted)
    (hheader : (start.clients client).have_header = false) :
    (connector.clients client).prepare_send.req_write_size =
      (start.clients client).frame_length - transmitted.length := by
  obtain ⟨_, hlarge⟩ := (start.clients client).frame_length_bounds
  have hwithin := h.within
  rw [h.prepared, NetClient.prepare_send_frame hheader]
  simp only [NetClient.req_write_size, NetClient.frame_header_length, size_subtract, if_pos hwithin]
  unfold NetClient.IO_BUFFER_SIZE at hlarge ⊢
  omega

omit [CharBuffer Buf] in
/-- A call of `send_message` transmits the next bytes of the message. -/
theorem SentSoFar.outgoing (h : SentSoFar start connector client transmitted)
    (hheader : (start.clients client).have_header = false)
    (hcount : count ≤ (start.clients client).frame_length - transmitted.length) :
    (connector.clients client).prepare_send.outgoing count =
      ((start.clients client).frame.drop transmitted.length).take count := by
  rw [h.prepared, NetClient.prepare_send_frame hheader]
  simp only [NetClient.outgoing, NetClient.frame]
  rw [List.drop_take, List.take_take, Nat.min_eq_left hcount]

theorem SentSoFar.send (h : SentSoFar start connector client transmitted)
    (hbuffer : (start.clients client).io_buffer.length = NetClient.IO_BUFFER_SIZE)
    (hheader : (start.clients client).have_header = false)
    (hpossible : (connector.clients client).send_possible (.sent count)) :
    SentSoFar start (connector.send_message client (.sent count)).1 client
        (transmitted ++ (connector.clients client).prepare_send.outgoing count) ∧
      ((connector.send_message client (.sent count)).2 = true ↔
        transmitted ++ (connector.clients client).prepare_send.outgoing count = (start.clients client).frame) := by
  have hcount : count ≤ (start.clients client).frame_length - transmitted.length :=
    h.req_write_size hheader ▸ hpossible.2
  have hwithin := h.within
  obtain ⟨hlength, _⟩ := NetClient.frame_eq hbuffer
  have htransmitted : transmitted ++ (connector.clients client).prepare_send.outgoing count =
      (start.clients client).frame.take (transmitted.length + count) := by
    rw [h.outgoing hheader hcount, List.take_add, ← h.bytes]
  have hsent : (transmitted ++ (connector.clients client).prepare_send.outgoing count).length =
      transmitted.length + count := by
    rw [htransmitted, List.length_take]
    omega
  have hobject : (connector.send_message client (.sent count)).1.clients client =
      { (start.clients client).prepare_send with io_offset := transmitted.length + count } := by
    rw [send_message_sent]
    simp only [Function.update_self, NetClient.sent, h.prepared]
  have hprepared : (start.clients client).prepare_send.have_header = true := by
    rw [NetClient.prepare_send_frame hheader]
  refine ⟨⟨?_, ?_, by omega⟩, ?_⟩
  · rw [hobject, hsent]
    exact NetClient.prepare_send_prepared hprepared
  · rw [hsent]
    exact htransmitted
  · have hcomplete : (connector.send_message client (.sent count)).2 = true ↔
        (start.clients client).frame_length ≤ transmitted.length + count := by
      rw [send_message_sent, h.prepared, NetClient.prepare_send_frame hheader]
      simp only [NetClient.sent, NetClient.frame_header_length, ge_iff_le, decide_eq_true_eq]
    rw [hcomplete, htransmitted, List.take_eq_self_iff, hlength]

theorem Sending.sent_so_far (h : Sending start client connector transmitted)
    (hbuffer : (start.clients client).io_buffer.length = NetClient.IO_BUFFER_SIZE)
    (hoffset : (start.clients client).io_offset = 0) (hheader : (start.clients client).have_header = false) :
    SentSoFar start connector client transmitted := by
  induction h with
  | start =>
    refine ⟨?_, rfl, Nat.zero_le _⟩
    rw [NetClient.prepare_send_frame hheader, List.length_nil, ← hoffset]
  | send count _ hpossible ih => exact (ih.send hbuffer hheader hpossible).1
  | other after _ hclient ih => exact ⟨by rw [hclient]; exact ih.prepared, ih.bytes, ih.within⟩

theorem send_failed_eq (connector : Connector Buf) (client : ClientPtr) :
    connector.send_message client .send_failed =
      ((connector.set_client client (connector.clients client).prepare_send).close_connection client, false) := rfl

theorem close_connection_socket (connector : Connector Buf) (client : ClientPtr) :
    ((connector.close_connection client).clients client).socket_fd = sys.FD_NONE ∧
      (0 ≤ (connector.clients client).socket_fd →
        (connector.clients client).socket_fd ∉ (connector.close_connection client).open_fds) := by
  constructor
  · simp only [Connector.close_connection, Connector.set_client, Function.update_self]
    rfl
  · intro hopen
    simp only [Connector.close_connection, Connector.set_client, Connector.set_record, sys.close_fd, if_pos hopen]
    simp

/-- The calls of `send_message` for a message transmit its first bytes at all times, with the header in
front. A call returns `true` exactly when it has transmitted the last byte, and an error closes the
connection. -/
theorem send_exact (hbuffer : (start.clients client).io_buffer.length = NetClient.IO_BUFFER_SIZE)
    (hoffset : (start.clients client).io_offset = 0) (hheader : (start.clients client).have_header = false)
    (h : Sending start client connector transmitted) :
    ((start.clients client).frame.length = (start.clients client).frame_length ∧
        (MsgHeader.deserialize (start.clients client).frame).data_length.toNat = (start.clients client).frame_length) ∧
      transmitted <+: (start.clients client).frame ∧
      (connector.clients client).prepare_send.req_write_size =
        (start.clients client).frame_length - transmitted.length ∧
      (∀ count, (connector.clients client).send_possible (.sent count) →
        ((connector.send_message client (.sent count)).2 = true ↔
          transmitted ++ (connector.clients client).prepare_send.outgoing count = (start.clients client).frame)) ∧
      (connector.send_message client .send_failed).2 = false ∧
      ((connector.send_message client .send_failed).1.clients client).socket_fd = sys.FD_NONE ∧
      (0 ≤ (connector.clients client).socket_fd →
        (connector.clients client).socket_fd ∉ (connector.send_message client .send_failed).1.open_fds) := by
  obtain ⟨hlength, hdecoded⟩ := NetClient.frame_eq hbuffer
  have hsofar := h.sent_so_far hbuffer hoffset hheader
  refine ⟨⟨hlength, ?_⟩, ?_, hsofar.req_write_size hheader, fun count hpossible => ?_, rfl, ?_, fun hopen => ?_⟩
  · rw [hdecoded, NetClient.frame_header_length]
  · rw [hsofar.bytes]
    exact List.take_prefix _ _
  · exact (hsofar.send hbuffer hheader hpossible).2
  · rw [send_failed_eq]
    exact (close_connection_socket _ client).1
  · have hsocket : ((connector.set_client client (connector.clients client).prepare_send).clients client).socket_fd =
        (connector.clients client).socket_fd := by
      simp only [Connector.set_client, Function.update_self]
      exact (prepare_send_kept _).2.1
    have hclosed := (close_connection_socket
      (connector.set_client client (connector.clients client).prepare_send) client).2
    rw [hsocket] at hclosed
    rw [send_failed_eq]
    exact hclosed hopen

/-- A connector with a reply to send. -/
def reply_connector : Connector BoundedBuffer :=
  (Connector.new BoundedBuffer (.filled 0xA5)).set_client 0
    { NetClient.new BoundedBuffer (zero_memory NetClient.IO_BUFFER_SIZE) with
      socket_fd := 5
      header := { msg_type := protocol.MsgType.FENCE_FAIL.value, data_length := MsgHeader.HEADER_SIZE.toUInt16 } }

theorem send_exact_split : ((reply_connector.send_message 0 (.sent 3)).1.send_message 0 (.sent 1)).2 = true := by
  have hsending : Sending reply_connector 0 (reply_connector.send_message 0 (.sent 3)).1 _ :=
    .send 3 .start (by decide +kernel)
  obtain ⟨_, _, _, hcomplete, _⟩ := send_exact (length_zero_memory _) rfl rfl hsending
  exact (hcomplete 1 (by decide +kernel)).mpr (by decide +kernel)

end

end ufh
