import UniversalFencingHub.Library.Framing
import UniversalFencingHub.ServerConnector.Request

open ufh.CharBuffer framing

namespace ufh

/-- A completely received message, as it is left in the fields of its client. -/
structure Message where
  msg_type : UInt16
  data_length : UInt16
  io_offset : Nat
  contents : Bytes
  deriving DecidableEq

/-- The size of a message: its length field, cut to the buffer size and raised
to the header size. -/
def message_size (header : MsgHeader) : Nat :=
  max MsgHeader.HEADER_SIZE (min NetClient.IO_BUFFER_SIZE header.data_length.toNat)

/-- The message at the front of a byte stream, and the bytes that follow it. -/
def next_message (stream : Bytes) : Option (Message × Bytes) :=
  let header := NetClient.decode_header stream
  if MsgHeader.HEADER_SIZE ≤ stream.length ∧ message_size header ≤ stream.length then
    some ({ msg_type := header.msg_type
            data_length := header.data_length
            io_offset := message_size header
            contents := stream.take (message_size header) },
      stream.drop (message_size header))
  else none

/-- What the server does in response to a message. -/
inductive Response where
  | echo
  | fence (method : Server.FenceActionMethod) (nodename secret : Bytes)
  | hang_up
  | abandon
  deriving DecidableEq

/-- The response to a message. A request whose values do not fit their buffers
is abandoned: neither answered nor closed. -/
def Message.response (message : Message) : Response :=
  if message.msg_type = protocol.MsgType.ECHO_REQUEST.value then .echo
  else
    match NetClient.fence_method message.msg_type with
    | none => .hang_up
    | some method =>
      match protocol.parse_request (message.contents.drop MsgHeader.HEADER_SIZE) with
      | .fence nodename secret => .fence method nodename secret
      | .raises => .abandon
      | .malformed => .hang_up
      | .no_nodename => .hang_up

/-- The node name and the secret of a request for fencing. -/
def Response.arguments : Response → Option (Bytes × Bytes)
  | .fence _ nodename secret => some (nodename, secret)
  | _ => none

theorem decode_header_append {front : Bytes} (back : Bytes) (h : MsgHeader.HEADER_SIZE ≤ front.length) :
    NetClient.decode_header (front ++ back) = NetClient.decode_header front := by
  have hsplit : front = front.take MsgHeader.HEADER_SIZE ++ front.drop MsgHeader.HEADER_SIZE := by simp
  have hlength : (front.take MsgHeader.HEADER_SIZE).length = MsgHeader.HEADER_SIZE := by simp [h]
  unfold NetClient.decode_header
  rw [hsplit, List.append_assoc, MsgHeader.deserialize_append hlength, MsgHeader.deserialize_append hlength]

theorem decode_header_take {stream : Bytes} {count : Nat} (hcount : MsgHeader.HEADER_SIZE ≤ count)
    (hlength : count ≤ stream.length) :
    NetClient.decode_header (stream.take count) = NetClient.decode_header stream := by
  have hsplit := decode_header_append (stream.drop count) (by simpa [hlength] using hcount :
    MsgHeader.HEADER_SIZE ≤ (stream.take count).length)
  rwa [List.take_append_drop, eq_comm] at hsplit

/-- A decoded length never exceeds the buffer. -/
theorem decode_header_length_le (io_buffer : Bytes) :
    (NetClient.decode_header io_buffer).data_length.toNat ≤ NetClient.IO_BUFFER_SIZE := by
  unfold NetClient.decode_header
  by_cases hlong : (MsgHeader.deserialize io_buffer).data_length.toNat > NetClient.IO_BUFFER_SIZE
  · simp only [if_pos hlong]
    decide
  · simp only [if_neg hlong]
    omega

theorem message_size_decode (io_buffer : Bytes) :
    message_size (NetClient.decode_header io_buffer) =
      max MsgHeader.HEADER_SIZE (NetClient.decode_header io_buffer).data_length.toNat := by
  have hle := decode_header_length_le io_buffer
  unfold message_size
  rw [Nat.min_eq_right hle]

theorem message_size_bounds (header : MsgHeader) :
    MsgHeader.HEADER_SIZE ≤ message_size header ∧ message_size header ≤ NetClient.IO_BUFFER_SIZE := by
  unfold message_size MsgHeader.HEADER_SIZE NetClient.IO_BUFFER_SIZE
  omega

theorem next_message_some {stream rest : Bytes} {message : Message} (h : next_message stream = some (message, rest)) :
    message_size (NetClient.decode_header stream) ≤ stream.length ∧
      message.msg_type = (NetClient.decode_header stream).msg_type ∧
      message.data_length = (NetClient.decode_header stream).data_length ∧
      message.io_offset = message_size (NetClient.decode_header stream) ∧
      message.contents = stream.take message.io_offset ∧ rest = stream.drop message.io_offset := by
  simp only [next_message] at h
  split at h
  · next hsize =>
    obtain ⟨rfl, rfl⟩ := Prod.mk.inj (Option.some.inj h)
    exact ⟨hsize.2, rfl, rfl, rfl, rfl, rfl⟩
  · cases h

theorem next_message_of_short {stream : Bytes} (h : stream.length < message_size (NetClient.decode_header stream)) :
    next_message stream = none := by
  simp only [next_message]
  rw [if_neg (by omega)]

/-- A stream of exactly the announced size is one message. -/
theorem next_message_of_exact {stream : Bytes} (h : stream.length = message_size (NetClient.decode_header stream)) :
    next_message stream =
      some ({ msg_type := (NetClient.decode_header stream).msg_type
              data_length := (NetClient.decode_header stream).data_length
              io_offset := stream.length
              contents := stream }, []) := by
  have hbounds := message_size_bounds (NetClient.decode_header stream)
  simp only [next_message]
  rw [if_pos (by omega), ← h, List.take_length, List.drop_length]

theorem next_message_incremental : Incremental next_message where
  shorter := by
    intro stream message rest h
    obtain ⟨hle, _, _, hoffset, _, rfl⟩ := next_message_some h
    have hpositive := (message_size_bounds (NetClient.decode_header stream)).1
    unfold MsgHeader.HEADER_SIZE at hpositive
    rw [List.length_drop, hoffset]
    omega
  stable := by
    intro stream message rest more h
    simp only [next_message] at h
    split at h
    · next hsize =>
      obtain ⟨rfl, rfl⟩ := Prod.mk.inj (Option.some.inj h)
      simp only [next_message, decode_header_append more hsize.1]
      rw [if_pos (by rw [List.length_append]; omega), List.take_append_of_le_length hsize.2,
        List.drop_append_of_le_length hsize.2]
    · cases h

end ufh
