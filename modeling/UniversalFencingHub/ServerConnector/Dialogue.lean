import UniversalFencingHub.ServerConnector.Connector
import UniversalFencingHub.ServerConnector.Session

open framing

namespace ufh

/-- The bytes of a reply, as they are sent. -/
def reply_events (reply : protocol.MsgType) : List Event :=
  ({ msg_type := reply.value, data_length := MsgHeader.HEADER_SIZE.toUInt16 } : MsgHeader).wire.map .sent

/-- What follows a message: the plugin call and the reply that its response
consists of. `success_flag` is the result of the plugin call. -/
def Response.events (success_flag : Bool) : Response → List Event
  | .echo => reply_events .ECHO_REPLY
  | .fence method nodename _ =>
    .call { function := method.plugin_function, nodename } success_flag ::
      reply_events (NetClient.fence_reply success_flag)
  | .hang_up => []
  | .abandon => []

/-- The sequential specification of one connection: every message is followed
by its response, and the first message that is not an echo request is the last. -/
def dialogue (success_flag : Bool) : List Message → List Event
  | [] => []
  | message :: rest =>
    .message message :: (message.response.events success_flag ++
      if message.response = .echo then dialogue success_flag rest else [])

/-- The stream positions at which consecutive messages start. -/
def message_starts : Nat → List Message → List Nat
  | _, [] => []
  | position, message :: rest => position :: message_starts (position + message.io_offset) rest

/-- The stream positions at which a header is complete: the start of every
message, and of the incomplete one if its header has arrived. -/
def header_positions (received : Bytes) : List Nat :=
  message_starts 0 (messages next_message received) ++
    if MsgHeader.HEADER_SIZE ≤ (remainder next_message received).length then
      [received.length - (remainder next_message received).length]
    else []

/-- What holds of every connection at every time. -/
structure Recorded (record : History) : Prop where
  messages : record.messages = messages next_message record.received
  headers : record.headers = header_positions record.received
  echoes : ∀ message ∈ record.messages.dropLast, message.response = .echo
  finished : (∃ message ∈ record.messages, message.response ≠ .echo) → remainder next_message record.received = []
  dispatched : record.dispatched <+: record.messages.map Message.msg_type
  dialogue : ∃ success_flag, record.dialogue <+: dialogue success_flag record.messages

theorem dialogue_append_of_echo {success_flag : Bool} {earlier : List Message} (later : List Message)
    (h : ∀ message ∈ earlier, message.response = .echo) :
    dialogue success_flag (earlier ++ later) = dialogue success_flag earlier ++ dialogue success_flag later := by
  induction earlier with
  | nil => rfl
  | cons message rest ih =>
    have hmessage := h message (by simp)
    have hrest := ih (fun m hm => h m (by simp [hm]))
    simp only [List.cons_append, dialogue, hmessage, if_true, hrest, List.append_assoc]

/-- A dialogue of echo requests does not depend on a plugin. -/
theorem dialogue_of_echo {success_flag success_flag' : Bool} {messages : List Message}
    (h : ∀ message ∈ messages, message.response = .echo) :
    dialogue success_flag messages = dialogue success_flag' messages := by
  induction messages with
  | nil => rfl
  | cons message rest ih =>
    have hmessage := h message (by simp)
    have hrest := ih (fun m hm => h m (by simp [hm]))
    simp only [dialogue, hmessage, if_true, hrest, Response.events]

theorem dialogue_singleton (success_flag : Bool) (message : Message) :
    dialogue success_flag [message] = .message message :: message.response.events success_flag := by
  simp [dialogue]

theorem message_starts_append (position : Nat) (earlier later : List Message) :
    message_starts position (earlier ++ later) = message_starts position earlier ++
      message_starts (position + (earlier.map Message.io_offset).sum) later := by
  induction earlier generalizing position with
  | nil => simp [message_starts]
  | cons message rest ih => simp [message_starts, ih, Nat.add_assoc]

/-- The messages and the remainder together are the stream. -/
theorem received_length (received : Bytes) :
    ((messages next_message received).map Message.io_offset).sum + (remainder next_message received).length =
      received.length := by
  induction hlength : received.length using Nat.strong_induction_on generalizing received with
  | _ length ih =>
    cases hmessage : next_message received with
    | none =>
      obtain ⟨hnone, hrest⟩ := messages_of_none hmessage
      simp [hnone, hrest, hlength]
    | some result =>
      obtain ⟨message, rest⟩ := result
      obtain ⟨hle, _, _, hoffset, _, hrest⟩ := next_message_some hmessage
      have hshort := next_message_incremental.shorter received message rest hmessage
      have hsum := ih rest.length (by omega) rest rfl
      have hrestLength := congrArg List.length hrest
      obtain ⟨hmessages, hremainder⟩ := next_message_incremental.messages_of_some hmessage
      rw [List.length_drop] at hrestLength
      rw [hmessages, hremainder, List.map_cons, List.sum_cons]
      omega

/-- The positions after more bytes of an incomplete message have arrived. -/
theorem header_positions_append {received begun data : Bytes} (hbegun : remainder next_message received = begun)
    (hmessage : next_message (begun ++ data) = none ∨ ∃ message, next_message (begun ++ data) = some (message, [])) :
    header_positions (received ++ data) = header_positions received ++
      if begun.length < MsgHeader.HEADER_SIZE ∧ MsgHeader.HEADER_SIZE ≤ (begun ++ data).length then
        [(received ++ data).length - (begun ++ data).length]
      else [] := by
  obtain ⟨hmessages, hremainder⟩ := next_message_incremental.messages_append received data
  rw [hbegun] at hmessages hremainder
  have htotal := received_length received
  rw [hbegun] at htotal
  have hposition : (received ++ data).length - (begun ++ data).length = received.length - begun.length := by
    simp only [List.length_append]
    omega
  unfold header_positions
  rw [hmessages, hremainder, hbegun, hposition]
  cases hmessage with
  | inl hnone =>
    obtain ⟨hnoMessages, hrest⟩ := messages_of_none hnone
    rw [hnoMessages, hrest, List.append_nil, hposition]
    by_cases hheader : MsgHeader.HEADER_SIZE ≤ begun.length
    · have hlonger : MsgHeader.HEADER_SIZE ≤ (begun ++ data).length := by
        rw [List.length_append]
        omega
      rw [if_pos hheader, if_pos hlonger, if_neg (by omega), List.append_nil]
    · rw [if_neg hheader, List.append_nil]
      by_cases hlonger : MsgHeader.HEADER_SIZE ≤ (begun ++ data).length
      · rw [if_pos hlonger, if_pos ⟨by omega, hlonger⟩]
      · rw [if_neg hlonger, if_neg (fun h => hlonger h.2)]
  | inr hsome =>
    obtain ⟨message, hsome⟩ := hsome
    obtain ⟨hone, hrest⟩ := next_message_incremental.messages_of_some hsome
    obtain ⟨hle, _, _, _, _, _⟩ := next_message_some hsome
    have hbounds := (message_size_bounds (NetClient.decode_header (begun ++ data))).1
    have hnil : messages next_message [] = [] ∧ remainder next_message [] = [] := messages_of_none rfl
    have hstart : 0 + ((messages next_message received).map Message.io_offset).sum =
        received.length - begun.length := by omega
    rw [hone, hrest, hnil.1, hnil.2, message_starts_append, hstart]
    simp only [message_starts, List.length_nil]
    rw [if_neg (by decide : ¬ MsgHeader.HEADER_SIZE ≤ 0), List.append_nil]
    by_cases hheader : MsgHeader.HEADER_SIZE ≤ begun.length
    · rw [if_pos hheader, if_neg (by omega), List.append_nil]
    · rw [if_neg hheader, if_pos ⟨by omega, by omega⟩, List.append_nil]

/-- The client waits for a message, and everything before it has been answered. -/
structure AwaitsMessage {Buf : Type} [CharBuffer Buf] (client : NetClient Buf) (record : History) (begun : Bytes) :
    Prop where
  receiving : client.Receiving begun
  remainder : remainder next_message record.received = begun
  recorded : Recorded record
  echoes : ∀ message ∈ record.messages, message.response = .echo
  dispatched : record.dispatched = record.messages.map Message.msg_type
  dialogue : ∀ success_flag, record.dialogue = dialogue success_flag record.messages

/-- The client holds the last message, which has not been processed. -/
structure HoldsMessage {Buf : Type} [CharBuffer Buf] (client : NetClient Buf) (record : History)
    (earlier : List Message) (message : Message) : Prop where
  received : client.Received message
  socket : 0 ≤ client.socket_fd
  remainder : remainder next_message record.received = []
  recorded : Recorded record
  messages : record.messages = earlier ++ [message]
  echoes : ∀ message ∈ earlier, message.response = .echo
  dispatched : record.dispatched = earlier.map Message.msg_type
  dialogue : ∀ success_flag, record.dialogue = dialogue success_flag earlier ++ [.message message]

/-- The client owes the end of the reply to the last message. -/
structure OwesReply {Buf : Type} [CharBuffer Buf] (client : NetClient Buf) (record : History)
    (reply : protocol.MsgType) (count : Nat) (success_flag : Bool) : Prop where
  replying : client.Replying reply count
  socket : 0 ≤ client.socket_fd
  remainder : remainder next_message record.received = []
  recorded : Recorded record
  echoes : client.next_phase = .RECV → ∀ message ∈ record.messages, message.response = .echo
  dispatched : record.dispatched = record.messages.map Message.msg_type
  dialogue : record.dialogue ++ (reply_events reply).drop count = dialogue success_flag record.messages

/-- A new connection. -/
theorem AwaitsMessage.accepted {Buf : Type} [CharBuffer Buf] {client : NetClient Buf} (socket : Int)
    (h : client.Receiving []) : AwaitsMessage client { socket } [] where
  receiving := h
  remainder := rfl
  recorded := ⟨rfl, rfl, nofun, nofun, List.nil_prefix, true, List.nil_prefix⟩
  echoes message hmessage := by cases hmessage
  dispatched := rfl
  dialogue _ := rfl

theorem receive_progress {Buf : Type} (client : NetClient Buf) (data : Bytes) :
    (client.receive data).1.io_offset = client.io_offset + data.length ∧
      (client.receive data).1.have_header =
        (client.have_header || decide (client.io_offset + data.length ≥ MsgHeader.HEADER_SIZE)) ∧
      (client.receive data).1.socket_fd = client.socket_fd := by
  unfold NetClient.receive
  cases hheader : client.have_header with
  | true => simp
  | false =>
    by_cases hfour : client.io_offset + data.length ≥ MsgHeader.HEADER_SIZE
    · simp [hfour]
    · simp [hfour]

theorem NetClient.Received.message_eq {Buf : Type} [CharBuffer Buf] {client : NetClient Buf} {message : Message}
    (h : client.Received message) : client.message = message := by
  have htype := h.msg_type
  have hlength := h.data_length
  have hoffset := h.io_offset
  have hbuffered := h.buffered
  cases message
  simp only [NetClient.message] at *
  rw [htype, hlength, hbuffered, hoffset]

/-- The record after `recv()` is the one of a stream that has grown. -/
theorem AwaitsMessage.recorded_receive {Buf : Type} [CharBuffer Buf] {client : NetClient Buf} {record : History}
    {begun data : Bytes} (h : AwaitsMessage client record begun) (hsize : data.length ≤ client.req_read_size) :
    Recorded (Connector.received_record record client (client.receive data).1 data (client.receive data).2) ∧
      framing.remainder next_message (record.received ++ data) =
        if (client.receive data).2 then [] else begun ++ data := by
  obtain ⟨hmore, hdone⟩ := h.receiving.receive hsize
  obtain ⟨hoffset, hheader, _⟩ := receive_progress client data
  obtain ⟨hmessages, hremainder⟩ := next_message_incremental.messages_append record.received data
  have hbegun := h.receiving.io_offset
  have hlength : client.io_offset + data.length = (begun ++ data).length := by rw [hbegun, List.length_append]
  have hold : client.have_header = decide (MsgHeader.HEADER_SIZE ≤ begun.length) := by
    cases hhave : client.have_header with
    | true => simpa using (h.receiving.header hhave).1
    | false => simpa using h.receiving.no_header hhave
  rw [h.remainder] at hmessages hremainder
  have hheaders : (Connector.received_record record client (client.receive data).1 data
      (client.receive data).2).headers = header_positions record.received ++
        if begun.length < MsgHeader.HEADER_SIZE ∧ MsgHeader.HEADER_SIZE ≤ (begun ++ data).length then
          [(record.received ++ data).length - (begun ++ data).length]
        else [] := by
    simp only [Connector.received_record, hheader, hoffset, hold, hlength, h.recorded.headers]
    by_cases hshort : MsgHeader.HEADER_SIZE ≤ begun.length
    · rw [if_neg (by simp [hshort]), if_neg (by omega), List.append_nil]
    · by_cases hlong : MsgHeader.HEADER_SIZE ≤ (begun ++ data).length
      · rw [if_pos (by simpa [hshort] using hlong), if_pos ⟨by omega, hlong⟩]
      · rw [if_neg (by simpa [hshort] using hlong), if_neg (fun hboth => hlong hboth.2), List.append_nil]
  cases hcomplete : (client.receive data).2 with
  | false =>
    have hincomplete := (hmore hcomplete).incomplete
    obtain ⟨hnone, hrest⟩ := messages_of_none hincomplete
    rw [hnone, List.append_nil] at hmessages
    rw [hrest] at hremainder
    rw [hcomplete] at hheaders
    refine ⟨⟨?_, ?_, h.recorded.echoes, ?_, h.recorded.dispatched, ?_⟩, hremainder⟩
    · exact h.recorded.messages.trans hmessages.symm
    · exact hheaders.trans (header_positions_append h.remainder (Or.inl hincomplete)).symm
    · rintro ⟨message, hmessage, hother⟩
      exact absurd (h.echoes message hmessage) hother
    · exact h.recorded.dialogue
  | true =>
    obtain ⟨message, hmessage, hreceived⟩ := hdone hcomplete
    obtain ⟨hone, hrest⟩ := next_message_incremental.messages_of_some hmessage
    have hnil : messages next_message [] = [] ∧ framing.remainder next_message [] = [] := messages_of_none rfl
    have hmessageEq : (client.receive data).1.message = message := hreceived.message_eq
    rw [hone, hnil.1] at hmessages
    rw [hrest, hnil.2] at hremainder
    rw [hcomplete] at hheaders
    refine ⟨⟨?_, ?_, ?_, fun _ => hremainder, ?_, true, ?_⟩, hremainder⟩
    · simp only [Connector.received_record, if_true, hmessageEq, hmessages, h.recorded.messages]
    · exact hheaders.trans (header_positions_append h.remainder (Or.inr ⟨message, hmessage⟩)).symm
    · simp only [Connector.received_record, if_true, List.dropLast_concat]
      exact h.echoes
    · simp only [Connector.received_record, if_true, h.dispatched, List.map_append]
      exact List.prefix_append _ _
    · simp only [Connector.received_record, if_true, hmessageEq, h.dialogue true]
      rw [dialogue_append_of_echo [message] h.echoes, dialogue_singleton]
      exact (List.prefix_append_right_inj _).mpr ⟨_, rfl⟩

/-- A client that waits for a message either goes on waiting after `recv()` or
holds the message. -/
theorem AwaitsMessage.receive {Buf : Type} [CharBuffer Buf] {client : NetClient Buf} {record : History}
    {begun data : Bytes} (h : AwaitsMessage client record begun) (hsocket : 0 ≤ client.socket_fd)
    (hsize : data.length ≤ client.req_read_size) :
    ((client.receive data).2 = false →
      AwaitsMessage (client.receive data).1
        (Connector.received_record record client (client.receive data).1 data false) (begun ++ data)) ∧
      ((client.receive data).2 = true → ∃ message,
        HoldsMessage { (client.receive data).1 with current_phase := (client.receive data).1.next_phase }
          (Connector.received_record record client (client.receive data).1 data true) record.messages message) := by
  obtain ⟨hmore, hdone⟩ := h.receiving.receive hsize
  obtain ⟨hrecorded, hremainder⟩ := h.recorded_receive hsize
  constructor
  · intro hcomplete
    rw [hcomplete] at hrecorded hremainder
    exact ⟨hmore hcomplete, hremainder, hrecorded, h.echoes, h.dispatched, h.dialogue⟩
  · intro hcomplete
    obtain ⟨message, _, hreceived⟩ := hdone hcomplete
    have hmessageEq : (client.receive data).1.message = message := hreceived.message_eq
    rw [hcomplete] at hrecorded hremainder
    have hfd : (client.receive data).1.socket_fd = client.socket_fd := (receive_progress client data).2.2
    refine ⟨message, hreceived, hfd ▸ hsocket, hremainder, hrecorded, ?_, h.echoes, h.dispatched,
        fun success_flag => ?_⟩
    · simp only [Connector.received_record, if_true, hmessageEq]
    · simp only [Connector.received_record, if_true, hmessageEq, h.dialogue success_flag]

/-- The record after `send()` has taken some bytes of a reply. -/
def sent_record (record : History) (data : Bytes) : History :=
  { record with dialogue := record.dialogue ++ data.map .sent }

theorem prepare_send_kept {Buf : Type} (client : NetClient Buf) :
    client.prepare_send.next_phase = client.next_phase ∧ client.prepare_send.socket_fd = client.socket_fd ∧
      NetClient.SameBuffers client.prepare_send client := by
  unfold NetClient.prepare_send
  cases client.have_header <;> exact ⟨rfl, rfl, rfl, rfl, rfl, rfl⟩

/-- The bytes that `send()` takes are the next ones of the reply. -/
theorem OwesReply.sent_events {Buf : Type} [CharBuffer Buf] {client : NetClient Buf} {record : History}
    {reply : protocol.MsgType} {count write_size : Nat} {success_flag : Bool}
    (h : OwesReply client record reply count success_flag)
    (hsize : write_size ≤ client.prepare_send.req_write_size) :
    (client.prepare_send.outgoing write_size).map Event.sent = ((reply_events reply).drop count).take write_size := by
  obtain ⟨hreplying, hprepared⟩ := h.replying.prepare_send
  rw [hreplying.outgoing hprepared hsize, hreplying.header, reply_events, List.map_take, List.map_drop]

theorem OwesReply.sent_dialogue {Buf : Type} [CharBuffer Buf] {client : NetClient Buf} {record : History}
    {reply : protocol.MsgType} {count write_size : Nat} {success_flag : Bool}
    (h : OwesReply client record reply count success_flag)
    (hsize : write_size ≤ client.prepare_send.req_write_size) :
    (sent_record record (client.prepare_send.outgoing write_size)).dialogue ++
      (reply_events reply).drop (count + write_size) = ufh.dialogue success_flag record.messages := by
  rw [← h.dialogue, sent_record, h.sent_events hsize, List.append_assoc, ← List.drop_drop, List.take_append_drop]

/-- A client that owes a reply either goes on owing it after `send()`, or the
dialogue is complete. -/
theorem OwesReply.send {Buf : Type} [CharBuffer Buf] {client : NetClient Buf} {record : History}
    {reply : protocol.MsgType} {count write_size : Nat} {success_flag : Bool}
    (h : OwesReply client record reply count success_flag)
    (hsize : write_size ≤ client.prepare_send.req_write_size) :
    Recorded (sent_record record (client.prepare_send.outgoing write_size)) ∧
      ((client.prepare_send.sent write_size).2 = false →
        OwesReply (client.prepare_send.sent write_size).1
          (sent_record record (client.prepare_send.outgoing write_size)) reply (count + write_size) success_flag) ∧
      ((client.prepare_send.sent write_size).2 = true → client.next_phase = .RECV →
        AwaitsMessage
          { { (client.prepare_send.sent write_size).1 with current_phase := .RECV }.clear_io_buffer with
            next_phase := .PENDING, io_state := .READ }
          (sent_record record (client.prepare_send.outgoing write_size)) []) := by
  obtain ⟨hreplying, hprepared⟩ := h.replying.prepare_send
  obtain ⟨hmore, hdone⟩ := hreplying.sent hprepared hsize
  have hdialogue := h.sent_dialogue hsize
  have hrecorded : Recorded (sent_record record (client.prepare_send.outgoing write_size)) :=
    ⟨h.recorded.messages, h.recorded.headers, h.recorded.echoes, h.recorded.finished, h.recorded.dispatched,
      success_flag, _, hdialogue⟩
  obtain ⟨hnextPhase, hfd, _⟩ := prepare_send_kept client
  refine ⟨hrecorded, ?_, ?_⟩
  · intro hcomplete
    have hsentFd : (client.prepare_send.sent write_size).1.socket_fd = client.socket_fd := hfd
    refine ⟨hmore hcomplete, hsentFd ▸ h.socket, h.remainder, hrecorded, ?_, h.dispatched, hdialogue⟩
    intro hnext
    exact h.echoes (hnextPhase.symm.trans hnext)
  · intro hcomplete hnext
    have hechoes := h.echoes hnext
    have hfour := hdone hcomplete
    have hclean : client.prepare_send.Clean := by
      cases hreplying.next_phase with
      | inl hrecv => exact hrecv.2
      | inr hcanceled =>
        rw [hnextPhase, hnext] at hcanceled
        cases hcanceled
    have hspoken : (reply_events reply).drop (count + write_size) = [] := by
      rw [hfour]
      rfl
    rw [hspoken, List.append_nil] at hdialogue
    refine ⟨?_, h.remainder, hrecorded, hechoes, h.dispatched, fun success_flag' => ?_⟩
    · have hsent : NetClient.Clean { (client.prepare_send.sent write_size).1 with current_phase := .RECV } :=
        hclean.of_same ⟨rfl, rfl, rfl, rfl⟩ hclean.buffer_length
      exact hsent.next_message rfl
    · rw [hdialogue]
      exact dialogue_of_echo hechoes

/-- The record after a message has been processed. -/
def processed_record (record : History) (message : Message) (call : Option PluginCall)
    (success_flag : Bool) : History :=
  { record with
    dispatched := record.dispatched ++ [message.msg_type]
    dialogue := record.dialogue ++ (call.map (Event.call · success_flag)).toList }

/-- What processing the last message of a connection leads to, by its response. -/
def Continues {Buf : Type} [CharBuffer Buf] (processed : NetClient.Processed Buf) (record : History)
    (success_flag : Bool) : Response → Prop
  | .echo => processed.outcome = .ok () ∧ OwesReply processed.client record .ECHO_REPLY 0 success_flag
  | .fence _ _ _ =>
    processed.outcome = .ok () ∧
      OwesReply processed.client record (NetClient.fence_reply success_flag) 0 success_flag
  | .hang_up =>
    processed.outcome = .ok () ∧ processed.client.current_phase ≠ .RECV ∧ processed.client.current_phase ≠ .SEND
  | .abandon => processed.outcome = .error .RangeException

theorem HoldsMessage.process {Buf : Type} [CharBuffer Buf] [LawfulCharBuffer Buf] {client : NetClient Buf}
    {record : History} {earlier : List Message} {message : Message}
    (h : HoldsMessage client record earlier message) (success_flag : Bool) :
    Recorded (processed_record record message (client.process_client_message success_flag).call success_flag) ∧
      Continues (client.process_client_message success_flag)
        (processed_record record message (client.process_client_message success_flag).call success_flag) success_flag
        message.response := by
  obtain ⟨hanswers, hfd, _⟩ := h.received.process success_flag
  have hsocket := hfd ▸ h.socket
  have hdispatched : record.dispatched ++ [message.msg_type] = record.messages.map Message.msg_type := by
    rw [h.dispatched, h.messages, List.map_append]
    rfl
  have hfull : ufh.dialogue success_flag record.messages =
      record.dialogue ++ message.response.events success_flag := by
    rw [h.messages, dialogue_append_of_echo [message] h.echoes, dialogue_singleton, h.dialogue success_flag]
    simp
  generalize client.process_client_message success_flag = processed at hanswers hsocket ⊢
  have hbegins : ∀ later, (processed_record record message processed.call success_flag).dialogue ++ later =
      record.dialogue ++ message.response.events success_flag →
      Recorded (processed_record record message processed.call success_flag) := by
    intro later hlater
    refine ⟨h.recorded.messages, h.recorded.headers, h.recorded.echoes, h.recorded.finished, ?_, success_flag, later,
      hlater.trans hfull.symm⟩
    simp only [processed_record, hdispatched, List.prefix_refl]
  cases hresponse : message.response with
  | echo =>
    rw [hresponse] at hanswers hbegins hfull
    obtain ⟨hreplying, hnext, hcall, houtcome⟩ := hanswers
    have hspoken : (processed_record record message processed.call success_flag).dialogue ++
        (reply_events .ECHO_REPLY).drop 0 = record.dialogue ++ Response.events success_flag .echo := by
      simp [processed_record, hcall, Response.events]
    refine ⟨hbegins _ hspoken, houtcome, hreplying, hsocket, h.remainder, hbegins _ hspoken, fun _ => ?_, hdispatched,
      hspoken.trans hfull.symm⟩
    intro other hother
    simp only [processed_record, h.messages, List.mem_append, List.mem_singleton] at hother
    rcases hother with hother | rfl
    · exact h.echoes other hother
    · exact hresponse
  | fence method nodename secret =>
    rw [hresponse] at hanswers hbegins hfull
    obtain ⟨hreplying, hnext, hcall, houtcome⟩ := hanswers
    have hspoken : (processed_record record message processed.call success_flag).dialogue ++
        (reply_events (NetClient.fence_reply success_flag)).drop 0 =
          record.dialogue ++ Response.events success_flag (.fence method nodename secret) := by
      simp [processed_record, hcall, Response.events]
    refine ⟨hbegins _ hspoken, houtcome, hreplying, hsocket, h.remainder, hbegins _ hspoken,
        fun hrecv => ?_, hdispatched,
      hspoken.trans hfull.symm⟩
    rw [hnext] at hrecv
    cases hrecv
  | hang_up =>
    rw [hresponse] at hanswers hbegins
    obtain ⟨hrecv, hsend, hcall, houtcome⟩ := hanswers
    refine ⟨hbegins [] ?_, houtcome, hrecv, hsend⟩
    simp [processed_record, hcall, Response.events]
  | abandon =>
    rw [hresponse] at hanswers hbegins
    obtain ⟨hcall, houtcome⟩ := hanswers
    refine ⟨hbegins [] ?_, houtcome⟩
    simp [processed_record, hcall, Response.events]

end ufh
