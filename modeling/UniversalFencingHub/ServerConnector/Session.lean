import UniversalFencingHub.ServerConnector.Message

open ufh.CharBuffer framing

namespace ufh

namespace NetClient

/-- The buffers have the sizes that the constructor gives them, and no request
has been parsed into them. -/
structure Clean {Buf : Type} [CharBuffer Buf] (client : NetClient Buf) : Prop where
  capacities : client.Capacities
  buffer_length : client.io_buffer.length = IO_BUFFER_SIZE
  nodename : contents client.nodename = []
  secret : contents client.secret = []

/-- Two clients with the same text buffers. -/
def SameBuffers {Buf : Type} (after before : NetClient Buf) : Prop :=
  after.key_buffer = before.key_buffer ∧ after.value_buffer = before.value_buffer ∧
    after.nodename = before.nodename ∧ after.secret = before.secret

theorem Capacities.of_same {Buf : Type} [CharBuffer Buf] {after before : NetClient Buf} (h : before.Capacities)
    (hsame : SameBuffers after before) : after.Capacities := by
  obtain ⟨hkey, hvalue, hnodename, hsecret⟩ := hsame
  exact ⟨hkey ▸ h.key_buffer, hvalue ▸ h.value_buffer, hnodename ▸ h.nodename, hsecret ▸ h.secret⟩

theorem Clean.of_same {Buf : Type} [CharBuffer Buf] {after before : NetClient Buf} (h : before.Clean)
    (hsame : SameBuffers after before) (hlength : after.io_buffer.length = IO_BUFFER_SIZE) : after.Clean :=
  ⟨h.capacities.of_same hsame, hlength, hsame.2.2.1 ▸ h.nodename, hsame.2.2.2 ▸ h.secret⟩

/-- The client waits for the rest of a message of which the bytes `begun` have
arrived. -/
structure Receiving {Buf : Type} [CharBuffer Buf] (client : NetClient Buf) (begun : Bytes) : Prop where
  clean : client.Clean
  current_phase : client.current_phase = .RECV
  next_phase : client.next_phase = .PENDING
  io_state : client.io_state = .READ
  io_offset : client.io_offset = begun.length
  buffered : client.io_buffer.take client.io_offset = begun
  incomplete : next_message begun = none
  header : client.have_header = true → MsgHeader.HEADER_SIZE ≤ begun.length ∧ client.header = decode_header begun
  no_header : client.have_header = false → begun.length < MsgHeader.HEADER_SIZE

/-- The client holds a complete message that has not been processed. -/
structure Received {Buf : Type} [CharBuffer Buf] (client : NetClient Buf) (message : Message) : Prop where
  clean : client.Clean
  current_phase : client.current_phase = .PENDING ∨ client.current_phase = .EXECUTING
  msg_type : client.header.msg_type = message.msg_type
  data_length : client.header.data_length = message.data_length
  io_offset : client.io_offset = message.io_offset
  buffered : client.io_buffer.take client.io_offset = message.contents
  bounds : MsgHeader.HEADER_SIZE ≤ client.io_offset ∧ client.io_offset ≤ IO_BUFFER_SIZE

/-- The client owes its peer the rest of a reply header of which `count` bytes
have been sent. -/
structure Replying {Buf : Type} [CharBuffer Buf] (client : NetClient Buf) (reply : protocol.MsgType) (count : Nat) :
    Prop where
  capacities : client.Capacities
  buffer_length : client.io_buffer.length = IO_BUFFER_SIZE
  current_phase : client.current_phase = .SEND
  next_phase : client.next_phase = .RECV ∧ client.Clean ∨ client.next_phase = .CANCELED
  io_state : client.io_state = .WRITE
  header : client.header = { msg_type := reply.value, data_length := MsgHeader.HEADER_SIZE.toUInt16 }
  io_offset : client.io_offset = count
  unsent : count < MsgHeader.HEADER_SIZE
  prepared : client.have_header = true → client.io_buffer.take MsgHeader.HEADER_SIZE = client.header.wire
  unprepared : client.have_header = false → count = 0

theorem Receiving.short {Buf : Type} [CharBuffer Buf] {client : NetClient Buf} {begun : Bytes}
    (h : client.Receiving begun) (hheader : client.have_header = true) :
    begun.length < client.header.data_length.toNat := by
  obtain ⟨hlength, hdecode⟩ := h.header hheader
  have hincomplete := h.incomplete
  simp only [next_message, ← hdecode] at hincomplete
  split at hincomplete
  · cases hincomplete
  · next hshort =>
    have hsize := message_size_decode begun
    rw [← hdecode] at hsize
    omega

/-- The size requested from the kernel ends at most where the header, or the
message, ends. -/
theorem Receiving.req_read_size {Buf : Type} [CharBuffer Buf] {client : NetClient Buf} {begun : Bytes}
    (h : client.Receiving begun) :
    client.req_read_size =
      (if client.have_header then client.header.data_length.toNat else MsgHeader.HEADER_SIZE) - begun.length := by
  have hoffset := h.io_offset
  unfold NetClient.req_read_size size_subtract
  cases hheader : client.have_header with
  | false =>
    have hshort := h.no_header hheader
    rw [if_pos (by omega), if_pos (by omega), hoffset]
    simp
  | true =>
    have hlength := (h.header hheader).1
    have hshort := h.short hheader
    rw [if_neg (by omega), if_pos (by omega), hoffset]
    simp

theorem Receiving.read_fits {Buf : Type} [CharBuffer Buf] {client : NetClient Buf} {begun : Bytes}
    (h : client.Receiving begun) :
    begun.length + client.req_read_size ≤ IO_BUFFER_SIZE ∧ 0 < client.req_read_size := by
  have hrequest := h.req_read_size
  cases hheader : client.have_header with
  | false =>
    have hshort := h.no_header hheader
    simp only [hheader, Bool.false_eq_true, if_false] at hrequest
    unfold MsgHeader.HEADER_SIZE at hshort hrequest
    unfold IO_BUFFER_SIZE
    omega
  | true =>
    have hshort := h.short hheader
    have hle := decode_header_length_le begun
    rw [← (h.header hheader).2] at hle
    simp only [hheader, if_true] at hrequest
    omega

/-- The buffer after a positive result of `recv()`. -/
theorem Receiving.stored {Buf : Type} [CharBuffer Buf] {client : NetClient Buf} {begun data : Bytes}
    (h : client.Receiving begun) (hsize : data.length ≤ client.req_read_size) :
    (store client.io_buffer client.io_offset data).take (client.io_offset + data.length) = begun ++ data ∧
      (store client.io_buffer client.io_offset data).length = IO_BUFFER_SIZE := by
  have hfits := h.read_fits
  have hoffset := h.io_offset
  have hlength := h.clean.buffer_length
  constructor
  · rw [take_store (by omega), h.buffered]
  · rw [length_store (by omega), hlength]

/-- Received bytes continue the message in the buffer. -/
theorem Receiving.receive {Buf : Type} [CharBuffer Buf] {client : NetClient Buf} {begun data : Bytes}
    (h : client.Receiving begun) (hsize : data.length ≤ client.req_read_size) :
    ((client.receive data).2 = false → (client.receive data).1.Receiving (begun ++ data)) ∧
      ((client.receive data).2 = true → ∃ message, next_message (begun ++ data) = some (message, []) ∧
        { (client.receive data).1 with current_phase := (client.receive data).1.next_phase }.Received message) := by
  obtain ⟨hstored, hstoredLength⟩ := h.stored hsize
  have hfits := h.read_fits
  have hrequest := h.req_read_size
  have hoffset := h.io_offset
  have hnext := h.next_phase
  have hclean := h.clean
  have hlength : (begun ++ data).length = client.io_offset + data.length := by rw [List.length_append, hoffset]
  have hsizeEq := message_size_decode (begun ++ data)
  cases hheader : client.have_header with
  | true =>
    obtain ⟨hbegun, hdecode⟩ := h.header hheader
    have hshort := h.short hheader
    have hsame := decode_header_append data hbegun
    simp only [hheader, if_true] at hrequest
    have hafter : client.receive data = ({ client with
        io_buffer := store client.io_buffer client.io_offset data
        io_offset := client.io_offset + data.length },
        decide (client.io_offset + data.length ≥ client.header.data_length.toNat)) := by
      simp only [NetClient.receive, hheader, if_true]
    rw [hafter]
    simp only [decide_eq_false_iff_not, decide_eq_true_eq]
    constructor
    · intro hmore
      refine ⟨hclean.of_same ⟨rfl, rfl, rfl, rfl⟩ hstoredLength, h.current_phase, hnext, h.io_state,
        hlength.symm, hstored, next_message_of_short ?_, fun _ => ⟨?_, ?_⟩, fun hfalse => ?_⟩
      · rw [hsizeEq, hsame, ← hdecode]
        omega
      · omega
      · rw [hsame, hdecode]
      · simp [hheader] at hfalse
    · intro hdone
      refine ⟨_, next_message_of_exact ?_, ⟨hclean.of_same ⟨rfl, rfl, rfl, rfl⟩ hstoredLength, ?_, ?_,
        ?_, hlength.symm, hstored, ?_, ?_⟩⟩
      · rw [hsizeEq, hsame, ← hdecode]
        omega
      · exact Or.inl hnext
      · rw [hsame, hdecode]
      · rw [hsame, hdecode]
      · change MsgHeader.HEADER_SIZE ≤ client.io_offset + data.length
        omega
      · change client.io_offset + data.length ≤ IO_BUFFER_SIZE
        omega
  | false =>
    have hshort := h.no_header hheader
    simp only [hheader, Bool.false_eq_true, if_false] at hrequest
    by_cases hfour : client.io_offset + data.length ≥ MsgHeader.HEADER_SIZE
    · have hdecode : decode_header (store client.io_buffer client.io_offset data) = decode_header (begun ++ data) := by
        rw [← hstored, decode_header_take hfour (by omega)]
      have hafter : client.receive data = ({ client with
          io_buffer := store client.io_buffer client.io_offset data
          io_offset := client.io_offset + data.length
          header := decode_header (begun ++ data)
          have_header := true },
          decide ((decode_header (begun ++ data)).data_length.toNat ≤ MsgHeader.HEADER_SIZE)) := by
        simp only [NetClient.receive, hheader, Bool.false_eq_true, if_false, if_pos hfour, hdecode]
      rw [hafter]
      simp only [decide_eq_false_iff_not, decide_eq_true_eq]
      constructor
      · intro hmore
        refine ⟨hclean.of_same ⟨rfl, rfl, rfl, rfl⟩ hstoredLength, h.current_phase, hnext,
          h.io_state, hlength.symm, hstored, next_message_of_short ?_, fun _ => ⟨?_, rfl⟩, fun hfalse => ?_⟩
        · omega
        · omega
        · cases hfalse
      · intro hdone
        refine ⟨_, next_message_of_exact ?_, ⟨hclean.of_same ⟨rfl, rfl, rfl, rfl⟩ hstoredLength, ?_,
          rfl, rfl, hlength.symm, hstored, ?_, ?_⟩⟩
        · omega
        · exact Or.inl hnext
        · exact hfour
        · change client.io_offset + data.length ≤ IO_BUFFER_SIZE
          omega
    · have hafter : client.receive data = ({ client with
          io_buffer := store client.io_buffer client.io_offset data
          io_offset := client.io_offset + data.length }, false) := by
        simp only [NetClient.receive, hheader, Bool.false_eq_true, if_false, if_neg hfour]
      rw [hafter]
      constructor
      · intro _
        refine ⟨hclean.of_same ⟨rfl, rfl, rfl, rfl⟩ hstoredLength, h.current_phase, hnext,
          h.io_state, hlength.symm, hstored, next_message_of_short ?_, fun htrue => ?_, fun _ => ?_⟩
        · omega
        · simp [hheader] at htrue
        · omega
      · intro hfalse
        cases hfalse

theorem Receiving.of_clean {Buf : Type} [CharBuffer Buf] {client : NetClient Buf} (h : client.Clean)
    (hphase : client.current_phase = .RECV) (hnext : client.next_phase = .PENDING) (hio : client.io_state = .READ)
    (hheader : client.have_header = false) (hoffset : client.io_offset = 0) : client.Receiving [] where
  clean := h
  current_phase := hphase
  next_phase := hnext
  io_state := hio
  io_offset := hoffset
  buffered := by rw [hoffset, List.take_zero]
  incomplete := rfl
  header htrue := by simp [hheader] at htrue
  no_header _ := by decide

theorem Replying.data_length {Buf : Type} [CharBuffer Buf] {client : NetClient Buf} {reply : protocol.MsgType}
    {count : Nat} (h : client.Replying reply count) : client.header.data_length.toNat = MsgHeader.HEADER_SIZE := by
  rw [h.header]
  rfl

/-- Preparing to send puts the reply header into the buffer. -/
theorem Replying.prepare_send {Buf : Type} [CharBuffer Buf] {client : NetClient Buf} {reply : protocol.MsgType}
    {count : Nat} (h : client.Replying reply count) :
    client.prepare_send.Replying reply count ∧ client.prepare_send.have_header = true := by
  cases hheader : client.have_header with
  | true =>
    have hsame : client.prepare_send = client := by simp only [NetClient.prepare_send, hheader, if_true]
    rw [hsame]
    exact ⟨h, hheader⟩
  | false =>
    have hlength := h.data_length
    have hafter : client.prepare_send = { client with
        io_buffer := client.header.serialize client.io_buffer
        have_header := true } := by
      have hsmall : ¬ client.header.data_length.toNat < MsgHeader.HEADER_SIZE := by omega
      have hlarge : ¬ client.header.data_length.toNat > IO_BUFFER_SIZE := by
        unfold IO_BUFFER_SIZE
        unfold MsgHeader.HEADER_SIZE at hlength
        omega
      simp only [NetClient.prepare_send, hheader, Bool.false_eq_true, if_false, if_neg hsmall, if_neg hlarge]
    have hbuffer := h.buffer_length
    have hserialize : client.header.serialize client.io_buffer =
        client.header.wire ++ client.io_buffer.drop MsgHeader.HEADER_SIZE := by
      apply MsgHeader.serialize_eq
      rw [hbuffer]
      decide
    have hserialLength : (client.header.serialize client.io_buffer).length = IO_BUFFER_SIZE := by
      rw [hserialize, List.length_append, List.length_drop, hbuffer, MsgHeader.length_wire]
      rfl
    rw [hafter]
    refine ⟨⟨h.capacities.of_same ⟨rfl, rfl, rfl, rfl⟩, hserialLength, h.current_phase, ?_, h.io_state, h.header,
      h.io_offset, h.unsent, fun _ => ?_, fun hfalse => ?_⟩, rfl⟩
    · cases h.next_phase with
      | inl hrecv => exact Or.inl ⟨hrecv.1, hrecv.2.of_same ⟨rfl, rfl, rfl, rfl⟩ hserialLength⟩
      | inr hcanceled => exact Or.inr hcanceled
    · change (client.header.serialize client.io_buffer).take MsgHeader.HEADER_SIZE = client.header.wire
      rw [hserialize]
      exact List.take_left' rfl
    · cases hfalse

theorem Replying.req_write_size {Buf : Type} [CharBuffer Buf] {client : NetClient Buf} {reply : protocol.MsgType}
    {count : Nat} (h : client.Replying reply count) :
    client.req_write_size = MsgHeader.HEADER_SIZE - count := by
  have hlength := h.data_length
  have hunsent := h.unsent
  unfold NetClient.req_write_size size_subtract
  rw [hlength, h.io_offset, if_pos (by omega)]
  unfold MsgHeader.HEADER_SIZE IO_BUFFER_SIZE at *
  omega

/-- The bytes handed to the kernel are the next ones of the reply header. -/
theorem Replying.outgoing {Buf : Type} [CharBuffer Buf] {client : NetClient Buf} {reply : protocol.MsgType}
    {count write_size : Nat} (h : client.Replying reply count) (hprepared : client.have_header = true)
    (hsize : write_size ≤ client.req_write_size) :
    client.outgoing write_size = (client.header.wire.drop count).take write_size := by
  have hrequest := h.req_write_size
  have hbuffered := h.prepared hprepared
  unfold NetClient.outgoing
  rw [h.io_offset, ← hbuffered, List.drop_take, List.take_take]
  congr 1
  omega

/-- After the last byte of a reply the client either waits for the next message
or is to be closed. -/
theorem Replying.sent {Buf : Type} [CharBuffer Buf] {client : NetClient Buf} {reply : protocol.MsgType}
    {count write_size : Nat} (h : client.Replying reply count) (hprepared : client.have_header = true)
    (hsize : write_size ≤ client.req_write_size) :
    ((client.sent write_size).2 = false → (client.sent write_size).1.Replying reply (count + write_size)) ∧
      ((client.sent write_size).2 = true → count + write_size = MsgHeader.HEADER_SIZE) := by
  have hrequest := h.req_write_size
  have hlength := h.data_length
  have hoffset := h.io_offset
  simp only [NetClient.sent, decide_eq_false_iff_not, decide_eq_true_eq]
  constructor
  · intro hmore
    refine ⟨h.capacities.of_same ⟨rfl, rfl, rfl, rfl⟩, h.buffer_length, h.current_phase, ?_, h.io_state, h.header, ?_,
      ?_, h.prepared, fun hfalse => ?_⟩
    · cases h.next_phase with
      | inl hrecv => exact Or.inl ⟨hrecv.1, hrecv.2.of_same ⟨rfl, rfl, rfl, rfl⟩ h.buffer_length⟩
      | inr hcanceled => exact Or.inr hcanceled
    · change client.io_offset + write_size = count + write_size
      omega
    · omega
    · simp [hprepared] at hfalse
  · intro hdone
    have hunsent := h.unsent
    omega

/-- The client that has sent an echo reply waits for the next message. -/
theorem Clean.next_message {Buf : Type} [CharBuffer Buf] {client : NetClient Buf} (h : client.Clean)
    (hphase : client.current_phase = .RECV) :
    { client.clear_io_buffer with next_phase := .PENDING, io_state := .READ }.Receiving [] :=
  .of_clean (h.of_same ⟨rfl, rfl, rfl, rfl⟩ (length_zero_memory _)) hphase rfl rfl rfl rfl

/-- The reply to a fence request. -/
def fence_reply (success_flag : Bool) : protocol.MsgType :=
  if success_flag then .FENCE_SUCCESS else .FENCE_FAIL

/-- A processed client is left as the response to its message demands. -/
def Answers {Buf : Type} [CharBuffer Buf] (processed : Processed Buf) (success_flag : Bool) : Response → Prop
  | .echo =>
    processed.client.Replying .ECHO_REPLY 0 ∧ processed.client.next_phase = .RECV ∧ processed.call = none ∧
      processed.outcome = .ok ()
  | .fence method nodename _ =>
    processed.client.Replying (fence_reply success_flag) 0 ∧ processed.client.next_phase = .CANCELED ∧
      processed.call = some { function := method.plugin_function, nodename } ∧ processed.outcome = .ok ()
  | .hang_up =>
    processed.client.current_phase ≠ .RECV ∧ processed.client.current_phase ≠ .SEND ∧ processed.call = none ∧
      processed.outcome = .ok ()
  | .abandon => processed.call = none ∧ processed.outcome = .error .RangeException

private theorem fence_method_cases (msg_type : UInt16) :
    fence_method msg_type = none ∨
      msg_type ≠ protocol.MsgType.ECHO_REQUEST.value ∧ msg_type ≠ protocol.MsgType.VERSION_REQUEST.value := by
  unfold fence_method
  by_cases hecho : msg_type = protocol.MsgType.ECHO_REQUEST.value
  · left
    subst hecho
    decide
  · by_cases hversion : msg_type = protocol.MsgType.VERSION_REQUEST.value
    · left
      subst hversion
      decide
    · exact Or.inr ⟨hecho, hversion⟩

/-- Processing a received message answers it. -/
theorem Received.process {Buf : Type} [CharBuffer Buf] [LawfulCharBuffer Buf] {client : NetClient Buf}
    {message : Message} (h : client.Received message) (success_flag : Bool) :
    Answers (process_client_message success_flag client) success_flag message.response ∧
      (process_client_message success_flag client).client.socket_fd = client.socket_fd ∧
      (process_client_message success_flag client).client.Capacities := by
  have hclean := h.clean
  have hlength := hclean.buffer_length
  have hbounds := h.bounds
  have hphase : client.current_phase ≠ .RECV ∧ client.current_phase ≠ .SEND := by
    cases h.current_phase with
    | inl hpending => rw [hpending]; decide
    | inr hexecuting => rw [hexecuting]; decide
  have hcanceled : Phase.CANCELED ≠ .RECV ∧ Phase.CANCELED ≠ .SEND := by decide
  unfold process_client_message Message.response
  rw [h.msg_type]
  by_cases hecho : message.msg_type = protocol.MsgType.ECHO_REQUEST.value
  · rw [if_pos hecho, if_pos hecho]
    have hreset : Clean { client.clear_io_buffer with
        header := { msg_type := protocol.MsgType.ECHO_REPLY.value, data_length := MsgHeader.HEADER_SIZE.toUInt16 }
        current_phase := .SEND
        next_phase := .RECV
        io_state := .WRITE } := hclean.of_same ⟨rfl, rfl, rfl, rfl⟩ (length_zero_memory _)
    refine ⟨⟨⟨hreset.capacities, hreset.buffer_length, rfl, Or.inl ⟨rfl, hreset⟩, rfl, rfl, rfl, by decide,
      fun hfalse => ?_, fun _ => rfl⟩, rfl, rfl, rfl⟩, rfl, hreset.capacities⟩
    cases hfalse
  · rw [if_neg hecho, if_neg hecho]
    cases fence_method_cases message.msg_type with
    | inl hnone =>
      rw [hnone]
      by_cases hversion : message.msg_type = protocol.MsgType.VERSION_REQUEST.value
      · rw [if_pos hversion]
        exact ⟨⟨hphase.1, hphase.2, rfl, rfl⟩, rfl, hclean.capacities⟩
      · rw [if_neg hversion]
        exact ⟨⟨hcanceled.1, hcanceled.2, rfl, rfl⟩, rfl, hclean.capacities.of_same ⟨rfl, rfl, rfl, rfl⟩⟩
    | inr hother =>
      rw [if_neg hother.2]
      cases hmethod : fence_method message.msg_type with
      | none => exact ⟨⟨hcanceled.1, hcanceled.2, rfl, rfl⟩, rfl, hclean.capacities.of_same ⟨rfl, rfl, rfl, rfl⟩⟩
      | some method =>
        have hpayload : client.payload_from MsgHeader.HEADER_SIZE = message.contents.drop MsgHeader.HEADER_SIZE := by
          rw [NetClient.payload_from, h.buffered]
        obtain ⟨parsed, hsame, hparsed, _, haction⟩ := fence_action_spec method success_flag client (by omega)
          (by unfold FIELD_SIZE; unfold IO_BUFFER_SIZE at hbounds; omega) hclean.capacities hclean.nodename
          hclean.secret
        rw [hpayload] at haction
        obtain ⟨key_buffer, value_buffer, nodename, secret, rfl⟩ := hsame
        simp only [haction]
        cases protocol.parse_request (message.contents.drop MsgHeader.HEADER_SIZE) with
        | malformed => exact ⟨⟨hcanceled.1, hcanceled.2, rfl, rfl⟩, rfl, hparsed.of_same ⟨rfl, rfl, rfl, rfl⟩⟩
        | raises => exact ⟨⟨rfl, rfl⟩, rfl, hparsed⟩
        | no_nodename => exact ⟨⟨hphase.1, hphase.2, rfl, rfl⟩, rfl, hparsed.of_same ⟨rfl, rfl, rfl, rfl⟩⟩
        | fence node _ =>
          refine ⟨⟨⟨hparsed.of_same ⟨rfl, rfl, rfl, rfl⟩, length_zero_memory _, rfl, Or.inr rfl, rfl, rfl, rfl,
            by decide, fun hfalse => ?_, fun _ => rfl⟩, rfl, rfl, rfl⟩, rfl, hparsed.of_same ⟨rfl, rfl, rfl, rfl⟩⟩
          cases hfalse

/-- The arguments with which the method of class `Server` is called are those of the request. -/
theorem Received.fence_arguments_eq {Buf : Type} [CharBuffer Buf] [LawfulCharBuffer Buf] {client : NetClient Buf}
    {message : Message} (h : client.Received message) (success_flag : Bool) :
    client.fence_arguments success_flag = message.response.arguments := by
  have hclean := h.clean
  have hlength := hclean.buffer_length
  have hbounds := h.bounds
  unfold NetClient.fence_arguments process_client_message Message.response
  rw [h.msg_type]
  by_cases hecho : message.msg_type = protocol.MsgType.ECHO_REQUEST.value
  · rw [if_pos hecho, if_pos hecho]
    rfl
  · rw [if_neg hecho, if_neg hecho]
    by_cases hversion : message.msg_type = protocol.MsgType.VERSION_REQUEST.value
    · rw [if_pos hversion, hversion]
      rfl
    · rw [if_neg hversion]
      cases fence_method message.msg_type with
      | none => rfl
      | some method =>
        have hpayload : client.payload_from MsgHeader.HEADER_SIZE = message.contents.drop MsgHeader.HEADER_SIZE := by
          rw [NetClient.payload_from, h.buffered]
        obtain ⟨parsed, _, _, hvalues, haction⟩ := fence_action_spec method success_flag client (by omega)
          (by unfold FIELD_SIZE; unfold IO_BUFFER_SIZE at hbounds; omega) hclean.capacities hclean.nodename
          hclean.secret
        rw [hpayload] at haction hvalues
        simp only [haction]
        cases hparse : protocol.parse_request (message.contents.drop MsgHeader.HEADER_SIZE) with
        | malformed => rfl
        | raises => rfl
        | no_nodename => rfl
        | fence nodename secret =>
          obtain ⟨hnodename, hsecret⟩ := hvalues nodename secret hparse
          exact congrArg some (Prod.ext hnodename hsecret)

end NetClient

end ufh
