import UniversalFencingHub.Client.Reply

open looping

namespace ufh

namespace client

/-- The header at the start of a stream. -/
def stream_header (stream : Bytes) : MsgHeader := MsgHeader.deserialize (stream.take MsgHeader.HEADER_SIZE)

/-- The number of bytes of a stream that `receive_message` takes. -/
def stream_message_length (stream : Bytes) : Nat :=
  max MsgHeader.HEADER_SIZE (min (stream_header stream).data_length.toNat ClientConnector.IO_BUFFER_SIZE)

/-- The number of bytes that `receive_message` requests after it has received some bytes of a stream. -/
def stream_request (stream : Bytes) (received : Nat) : Nat :=
  if received < MsgHeader.HEADER_SIZE then MsgHeader.HEADER_SIZE - received
  else stream_message_length stream - received

/-- The number of bytes that have been received before a call of `recv()`, if each call has up to the
given number of bytes ready. -/
def stream_position (stream : Bytes) (split : Nat → Nat) : Nat → Nat
  | 0 => 0
  | call + 1 =>
    stream_position stream split call + min (split call) (stream_request stream (stream_position stream split call))

/-- A system in which the calls of `recv()` from a given one on return a stream piece by piece. -/
def System.streaming (system : System) (stream : Bytes) (split : Nat → Nat) (first : Nat) : System :=
  { system with
    recv := fun call =>
      some ((stream.drop (stream_position stream split (call - first))).take (split (call - first))) }

namespace ClientConnector

variable {system : System} {stream : Bytes} {split : Nat → Nat} {connector : ClientConnector} {reception : Reception}
  {fuel : Nat}

/-- What `receive_message` has made of a stream so far. -/
structure Streamed (connector : ClientConnector) (stream : Bytes) (split : Nat → Nat)
    (reception : Reception) : Prop where
  socket_fd : 0 ≤ reception.connector.socket_fd
  calls : connector.calls ≤ reception.connector.calls
  io_offset : reception.io_offset = stream_position stream split (reception.connector.calls - connector.calls)
  within : reception.io_offset ≤ stream_message_length stream
  io_buffer : reception.connector.io_buffer =
    stream.take reception.io_offset ++ zero_memory (IO_BUFFER_SIZE - reception.io_offset)
  received : reception.connector.received = connector.received ++ stream.take reception.io_offset
  have_header : reception.have_header = true ↔ MsgHeader.HEADER_SIZE ≤ reception.io_offset
  header : MsgHeader.HEADER_SIZE ≤ reception.io_offset → reception.connector.header = stream_header stream
  receive_length : reception.receive_length =
    if reception.io_offset < MsgHeader.HEADER_SIZE then MsgHeader.HEADER_SIZE
    else min (stream_header stream).data_length.toNat IO_BUFFER_SIZE

theorem stream_message_length_le : stream_message_length stream ≤ IO_BUFFER_SIZE := by
  have hsmall : MsgHeader.HEADER_SIZE ≤ IO_BUFFER_SIZE := by decide
  exact Nat.max_le.mpr ⟨hsmall, Nat.min_le_right ..⟩

/-- The header can be decoded as soon as its bytes stand in the buffer. -/
theorem deserialize_stream {count : Nat} (rest : Bytes) (hheader : MsgHeader.HEADER_SIZE ≤ count)
    (hlong : MsgHeader.HEADER_SIZE ≤ stream.length) :
    MsgHeader.deserialize (stream.take count ++ rest) = stream_header stream := by
  have hsplit : stream.take count = stream.take MsgHeader.HEADER_SIZE ++
      (stream.drop MsgHeader.HEADER_SIZE).take (count - MsgHeader.HEADER_SIZE) := by
    rw [← List.take_add, Nat.add_sub_cancel' hheader]
  have hfront : (stream.take MsgHeader.HEADER_SIZE).length = MsgHeader.HEADER_SIZE := by
    rw [List.length_take, Nat.min_eq_left hlong]
  rw [hsplit, List.append_assoc]
  exact MsgHeader.deserialize_append hfront

/-- Storing the next bytes of a stream behind the ones that have been received. -/
theorem store_stream {offset count : Nat} (hlong : offset + count ≤ stream.length) :
    ufh.store (stream.take offset ++ zero_memory (IO_BUFFER_SIZE - offset)) offset ((stream.drop offset).take count) =
      stream.take (offset + count) ++ zero_memory (IO_BUFFER_SIZE - (offset + count)) := by
  have hfront : (stream.take offset).length = offset := by
    rw [List.length_take]
    omega
  have hdata : ((stream.drop offset).take count).length = count := by
    rw [List.length_take, List.length_drop]
    omega
  have hbehind : (stream.take offset ++ zero_memory (IO_BUFFER_SIZE - offset)).drop (offset + count) =
      zero_memory (IO_BUFFER_SIZE - (offset + count)) := by
    rw [List.drop_append, hfront, List.drop_eq_nil_of_le (by omega), List.nil_append, Nat.add_sub_cancel_left,
      zero_memory, List.drop_replicate, Nat.sub_sub]
    rfl
  rw [ufh.store, hdata, hbehind, List.take_append_of_le_length hfront.ge, List.take_take, Nat.min_self,
    ← List.take_add]

theorem Streamed.start (hopen : 0 ≤ connector.socket_fd) :
    Streamed connector stream split
      { connector := { connector with header := MsgHeader.clear, io_buffer := zero_memory IO_BUFFER_SIZE } } where
  socket_fd := hopen
  calls := le_rfl
  io_offset := by rw [Nat.sub_self]; rfl
  within := Nat.zero_le _
  io_buffer := rfl
  received := (List.append_nil _).symm
  have_header := by simp [MsgHeader.HEADER_SIZE]
  header := fun hheader => absurd (show MsgHeader.HEADER_SIZE ≤ 0 from hheader) (by decide)
  receive_length := rfl

theorem receive_round_some {data : Bytes} (hmore : reception.io_offset < reception.receive_length)
    (hrecv : reception.connector.recv system (reception.receive_length - reception.io_offset) = some data)
    (hdata : data ≠ []) :
    receive_round system reception = .inl (Reception.store
      { reception with connector := { reception.connector with calls := reception.connector.calls + 1 } } data) := by
  unfold receive_round
  simp only [if_pos hmore, hrecv]

/-- What is requested of a stream. -/
theorem Streamed.request (h : Streamed connector stream split reception)
    (hmore : reception.io_offset < reception.receive_length) :
    reception.receive_length - reception.io_offset = stream_request stream reception.io_offset ∧
      reception.io_offset + stream_request stream reception.io_offset ≤ stream_message_length stream := by
  have hlength := h.receive_length
  have hwithin := h.within
  have hleast : MsgHeader.HEADER_SIZE ≤ stream_message_length stream := Nat.le_max_left ..
  have hdefinition : stream_message_length stream =
      max MsgHeader.HEADER_SIZE (min (stream_header stream).data_length.toNat IO_BUFFER_SIZE) := rfl
  unfold stream_request
  split
  · next hbelow =>
    rw [if_pos hbelow] at hlength
    omega
  · next habove =>
    rw [if_neg habove] at hlength
    omega

/-- The state after more bytes of a stream have been stored. -/
theorem Streamed.store {count : Nat} (h : Streamed connector stream split reception)
    (hheader : MsgHeader.HEADER_SIZE ≤ stream.length) (hlong : stream_message_length stream ≤ stream.length)
    (hmore : reception.io_offset < reception.receive_length)
    (hcount : count = min (split (reception.connector.calls - connector.calls))
      (stream_request stream reception.io_offset)) :
    Streamed connector stream split (Reception.store
      { reception with connector := { reception.connector with calls := reception.connector.calls + 1 } }
      ((stream.drop reception.io_offset).take count)) := by
  obtain ⟨hrequest, hroom⟩ := h.request hmore
  obtain ⟨hopen, hcalls, hoffset, hwithin, hbuffer, hreceived, hhave, hdecoded, hlength⟩ := h
  have hsize : stream_message_length stream ≤ IO_BUFFER_SIZE := stream_message_length_le
  have hdata : ((stream.drop reception.io_offset).take count).length = count := by
    rw [List.length_take, List.length_drop]
    omega
  have hcalls' : connector.calls ≤ reception.connector.calls + 1 := by omega
  have hposition : reception.io_offset + count =
      stream_position stream split (reception.connector.calls + 1 - connector.calls) := by
    rw [Nat.sub_add_comm hcalls, stream_position, ← hoffset, hcount]
  have hstored := store_stream (show reception.io_offset + count ≤ stream.length by omega)
  have hreceived' : reception.connector.received ++ (stream.drop reception.io_offset).take count =
      connector.received ++ stream.take (reception.io_offset + count) := by
    rw [hreceived, List.append_assoc, ← List.take_add]
  unfold Reception.store
  simp only [hbuffer, hstored, hdata, hreceived']
  split
  · next hcomplete =>
    obtain ⟨hnone, hfour⟩ := hcomplete
    rw [deserialize_stream _ hfour hheader]
    exact ⟨hopen, hcalls', hposition, by simp only; omega, rfl, rfl, iff_of_true rfl hfour, fun _ => rfl,
      (if_neg (Nat.not_lt.mpr hfour)).symm⟩
  · next hincomplete =>
    have hsame : MsgHeader.HEADER_SIZE ≤ reception.io_offset + count ↔ MsgHeader.HEADER_SIZE ≤ reception.io_offset := by
      refine ⟨fun hfour => hhave.mp ?_, fun hfour => by omega⟩
      by_contra hnone
      exact hincomplete ⟨Bool.not_eq_true _ ▸ hnone, hfour⟩
    refine ⟨hopen, hcalls', hposition, by simp only; omega, rfl, rfl, hhave.trans hsame.symm,
      fun hfour => hdecoded (hsame.mp hfour), ?_⟩
    simp only [hlength, ← Nat.not_le, hsame]

/-- A round of the loop receives at least one more byte of the stream. -/
theorem Streamed.round (h : Streamed connector stream split reception) (hheader : MsgHeader.HEADER_SIZE ≤ stream.length)
    (hlong : stream_message_length stream ≤ stream.length) (hsplit : ∀ call, 0 < split call)
    (hmore : reception.io_offset < reception.receive_length) :
    ∃ next, receive_round (system.streaming stream split connector.calls) reception = .inl next ∧
      Streamed connector stream split next ∧ reception.io_offset < next.io_offset := by
  obtain ⟨hrequest, hroom⟩ := h.request hmore
  obtain ⟨count, hcount⟩ : ∃ count, count = min (split (reception.connector.calls - connector.calls))
      (stream_request stream reception.io_offset) := ⟨_, rfl⟩
  have hpositive : 0 < count := by
    have hready := hsplit (reception.connector.calls - connector.calls)
    omega
  have hrecv : reception.connector.recv (system.streaming stream split connector.calls)
      (reception.receive_length - reception.io_offset) = some ((stream.drop reception.io_offset).take count) := by
    rw [recv_open h.socket_fd, hrequest]
    simp only [System.streaming, Option.map_some, ← h.io_offset, List.take_take]
    rw [hcount, Nat.min_comm]
  have hdata : ((stream.drop reception.io_offset).take count).length = count := by
    rw [List.length_take, List.length_drop]
    omega
  have hnonempty : (stream.drop reception.io_offset).take count ≠ [] := by
    intro hempty
    rw [hempty, List.length_nil] at hdata
    omega
  refine ⟨_, receive_round_some hmore hrecv hnonempty, h.store hheader hlong hmore hcount, ?_⟩
  unfold Reception.store
  simp only [hdata]
  split
  · simp only
    omega
  · simp only
    omega

/-- The loop ends with a whole message. -/
theorem Streamed.ends (system : System) (h : Streamed connector stream split reception)
    (hheader : MsgHeader.HEADER_SIZE ≤ stream.length)
    (hlong : stream_message_length stream ≤ stream.length) (hsplit : ∀ call, 0 < split call) :
    ∃ last, Ends (receive_round (system.streaming stream split connector.calls)) reception last ∧
      Streamed connector stream split last ∧ last.io_offset = stream_message_length stream := by
  induction hrest : stream_message_length stream - reception.io_offset using Nat.strong_induction_on
    generalizing reception with
  | _ rest ih =>
    by_cases hmore : reception.io_offset < reception.receive_length
    · obtain ⟨next, hround, hnext, hadvance⟩ := h.round hheader hlong hsplit hmore
      have hroom := h.request hmore
      obtain ⟨last, hends, hlast⟩ := ih _ (by omega) hnext rfl
      exact ⟨last, (ends_next hround).mpr hends, hlast⟩
    · refine ⟨reception, .finish (if_neg hmore), h, ?_⟩
      have hlength := h.receive_length
      have hwithin := h.within
      have hdefinition : stream_message_length stream =
          max MsgHeader.HEADER_SIZE (min (stream_header stream).data_length.toNat IO_BUFFER_SIZE) := rfl
      split at hlength
      · omega
      · omega

/-- What is requested of `recv()` ends inside the buffer. -/
theorem receive_within {reception : Reception} (hreaches : Reaches (receive_round system)
      { connector := { connector with header := MsgHeader.clear, io_buffer := zero_memory IO_BUFFER_SIZE } }
      reception) :
    reception.connector.io_buffer.length = IO_BUFFER_SIZE ∧ reception.receive_length ≤ IO_BUFFER_SIZE := by
  have hkept : ReceiveKept
      { connector with header := MsgHeader.clear, io_buffer := zero_memory IO_BUFFER_SIZE } reception := by
    induction hreaches with
    | refl => exact initial_receive_kept (length_zero_memory _)
    | tail _ hround ih => exact ih.round hround
  exact ⟨hkept.size, hkept.length⟩

/-- `receive_message` takes one message off a stream, whatever pieces `recv()` returns it in. It raises an
exception exactly when the message is longer than the buffer, it stores nothing behind the buffer, and what
the header and the buffer contained before makes no difference. -/
theorem receive_exact (system : System) (stream : Bytes) (split : Nat → Nat) (hopen : 0 ≤ connector.socket_fd)
    (hheader : MsgHeader.HEADER_SIZE ≤ stream.length)
    (hlong : min (stream_header stream).data_length.toNat IO_BUFFER_SIZE ≤ stream.length)
    (hsplit : ∀ call, 0 < split call) :
    (∃ fuel after, connector.receive_message (system.streaming stream split connector.calls) fuel =
        some (after, if IO_BUFFER_SIZE < (stream_header stream).data_length.toNat then .error (.OsException .IO_ERROR)
          else .ok ()) ∧
      after.header = stream_header stream ∧
      after.io_buffer = stream.take (stream_message_length stream) ++
        zero_memory (IO_BUFFER_SIZE - stream_message_length stream) ∧
      after.received = connector.received ++ stream.take (stream_message_length stream)) ∧
    (∀ system reception, Reaches (receive_round system)
        { connector := { connector with header := MsgHeader.clear, io_buffer := zero_memory IO_BUFFER_SIZE } }
        reception →
      reception.connector.io_buffer.length = IO_BUFFER_SIZE ∧ reception.receive_length ≤ IO_BUFFER_SIZE) ∧
    ∀ system fuel header io_buffer,
      { connector with header, io_buffer }.receive_message system fuel = connector.receive_message system fuel := by
  refine ⟨?_, fun _ _ hreaches => receive_within hreaches, fun _ _ _ _ => rfl⟩
  have hlength : stream_message_length stream ≤ stream.length := Nat.max_le.mpr ⟨hheader, hlong⟩
  obtain ⟨last, ⟨fuel, hrun⟩, hlast, hend⟩ := (Streamed.start hopen).ends system hheader hlength hsplit
  have hfour : MsgHeader.HEADER_SIZE ≤ last.io_offset := hend ▸ Nat.le_max_left ..
  have hdecoded := hlast.header hfour
  have hbuffer := hlast.io_buffer
  have hreceived := hlast.received
  rw [hend] at hbuffer hreceived
  refine ⟨fuel, last.connector, ?_, hdecoded, hbuffer, hreceived⟩
  have hexceeds : (last.have_header = false ∨ last.io_offset < last.connector.header.data_length.toNat) ↔
      IO_BUFFER_SIZE < (stream_header stream).data_length.toNat := by
    have hdefinition : stream_message_length stream =
        max MsgHeader.HEADER_SIZE (min (stream_header stream).data_length.toNat IO_BUFFER_SIZE) := rfl
    have hsmall : MsgHeader.HEADER_SIZE ≤ IO_BUFFER_SIZE := by decide
    rw [hlast.have_header.mpr hfour, hdecoded]
    simp only [Bool.true_eq_false, false_or]
    omega
  unfold receive_message
  simp only [clear_io_buffer, hrun]
  by_cases hlonger : IO_BUFFER_SIZE < (stream_header stream).data_length.toNat
  · rw [if_pos (hexceeds.mpr hlonger), if_pos hlonger]
  · rw [if_neg (fun h => hlonger (hexceeds.mp h)), if_neg hlonger]

/-- A message whose length is smaller than its header, byte by byte. -/
theorem receive_exact_header_only : ∃ fuel after,
    connected.receive_message ((replying []).streaming [0, 0xA0, 0, 2, 7] (fun _ => 1) 0) fuel = some (after, .ok ()) ∧
      after.received = [0, 0xA0, 0, 2] := by
  obtain ⟨⟨fuel, after, hrun, _, _, hreceived⟩, _⟩ := receive_exact (replying []) [0, 0xA0, 0, 2, 7]
    (fun _ => 1) (by decide : 0 ≤ connected.socket_fd) (by decide) (by decide) (fun _ => Nat.one_pos)
  exact ⟨fuel, after, hrun, hreceived⟩

end ClientConnector

end client

end ufh
