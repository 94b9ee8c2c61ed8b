import UniversalFencingHub.Properties.Connections

open framing transition

namespace ufh

/-- A frame as a peer sends it: a header that announces the true length of the frame, and a
payload. -/
structure Frame where
  msg_type : UInt16
  payload : Bytes
  fits : MsgHeader.HEADER_SIZE + payload.length ≤ 65535

namespace Frame

def size (frame : Frame) : Nat := MsgHeader.HEADER_SIZE + frame.payload.length

def header (frame : Frame) : MsgHeader := { msg_type := frame.msg_type, data_length := frame.size.toUInt16 }

def wire (frame : Frame) : Bytes := frame.header.wire ++ frame.payload

/-- The bytes of consecutive frames. -/
def stream (frames : List Frame) : Bytes := (frames.map wire).flatten

/-- The stream positions of the headers of consecutive frames. -/
def starts : List Frame → List Nat
  | [] => []
  | frame :: rest => 0 :: (starts rest).map (· + frame.size)

/-- The messages and the decoded headers of a connection are those of the frames. -/
structure Framed (frames : List Frame) (types : List UInt16) (headers : List Nat) : Prop where
  types : types <+: frames.map msg_type
  headers : headers ⊆ starts frames

/-- Every frame fits the receive buffer. Of the last one, which nothing follows, a part may be
left over: any part if the frame ends the connection, else less than a header. -/
def FitsBuffer : List Frame → Prop
  | [] => True
  | [last] => last.msg_type = protocol.MsgType.ECHO_REQUEST.value →
      last.size < NetClient.IO_BUFFER_SIZE + MsgHeader.HEADER_SIZE
  | frame :: next :: rest => frame.size ≤ NetClient.IO_BUFFER_SIZE ∧ FitsBuffer (next :: rest)

variable {frame : Frame} {frames : List Frame} {received more : Bytes}

theorem length_wire (frame : Frame) : frame.wire.length = frame.size := by
  rw [wire, List.length_append, MsgHeader.length_wire, size, MsgHeader.HEADER_SIZE]

theorem size_ge (frame : Frame) : MsgHeader.HEADER_SIZE ≤ frame.size := Nat.le_add_right _ _

theorem header_length (frame : Frame) : frame.header.data_length.toNat = frame.size := by
  have hfits := frame.fits
  simp only [header, size]
  rw [Nat.toUInt16_eq, UInt16.toNat_ofNat', Nat.mod_eq_of_lt (by omega)]

/-- The header that is decoded from the first bytes of a frame. -/
theorem decode_header_wire (h : received <+: frame.wire ++ more) (hheader : MsgHeader.HEADER_SIZE ≤ received.length) :
    (NetClient.decode_header received).msg_type = frame.msg_type ∧
      message_size (NetClient.decode_header received) = min NetClient.IO_BUFFER_SIZE frame.size := by
  obtain ⟨later, hlater⟩ := h
  have hsize := frame.size_ge
  have hdecoded : NetClient.decode_header received = NetClient.decode_header frame.header.wire := by
    rw [← decode_header_append later hheader, hlater, wire, List.append_assoc]
    exact decode_header_append _ (by rw [MsgHeader.length_wire, MsgHeader.HEADER_SIZE])
  have hlength := frame.header_length
  rw [hdecoded]
  unfold NetClient.decode_header message_size
  rw [MsgHeader.deserialize_wire]
  have hcut : NetClient.IO_BUFFER_SIZE.toUInt16.toNat = NetClient.IO_BUFFER_SIZE := by decide
  have hlarge : MsgHeader.HEADER_SIZE ≤ NetClient.IO_BUFFER_SIZE := by decide
  by_cases hlong : frame.header.data_length.toNat > NetClient.IO_BUFFER_SIZE
  · simp only [if_pos hlong]
    refine ⟨rfl, ?_⟩
    rw [hcut]
    omega
  · simp only [if_neg hlong]
    refine ⟨rfl, ?_⟩
    rw [hlength]
    omega

end Frame

/-- What a server can have read: the requests before the last one are echo requests, and after any
other request nothing is read. -/
structure Readable (received : Bytes) : Prop where
  echoes : ∀ message ∈ (messages next_message received).dropLast, message.response = .echo
  finished : (∃ message ∈ messages next_message received, message.response ≠ .echo) →
    remainder next_message received = []

theorem Recorded.readable {record : History} (h : Recorded record) : Readable record.received := by
  obtain ⟨hmessages, _, hechoes, hfinished, _, _⟩ := h
  rw [hmessages] at hechoes hfinished
  exact ⟨hechoes, hfinished⟩

theorem Message.response_eq_echo_iff (message : Message) :
    message.response = .echo ↔ message.msg_type = protocol.MsgType.ECHO_REQUEST.value := by
  unfold Message.response
  split
  · next hecho => exact ⟨fun _ => hecho, fun _ => rfl⟩
  · next hother =>
    refine ⟨fun hresponse => ?_, fun hecho => absurd hecho hother⟩
    split at hresponse
    · cases hresponse
    · split at hresponse <;> cases hresponse

theorem message_starts_add (position offset : Nat) (messages : List Message) :
    message_starts (position + offset) messages = (message_starts position messages).map (· + offset) := by
  induction messages generalizing position with
  | nil => rfl
  | cons message rest ih =>
    simp only [message_starts, List.map_cons, List.cons.injEq, true_and]
    rw [← ih, Nat.add_right_comm]

/-- The header positions behind the first message are those of the rest of the stream. -/
theorem header_positions_of_some {received rest : Bytes} {message : Message}
    (h : next_message received = some (message, rest)) :
    header_positions received = 0 :: (header_positions rest).map (· + message.io_offset) := by
  obtain ⟨hmessages, hremainder⟩ := next_message_incremental.messages_of_some h
  obtain ⟨hle, _, _, hoffset, _, hrest⟩ := next_message_some h
  have hlength := congrArg List.length hrest
  have htotal := received_length rest
  rw [List.length_drop] at hlength
  unfold header_positions
  rw [hmessages, hremainder, message_starts, message_starts_add, List.map_append, List.cons_append]
  congr 2
  by_cases hheader : MsgHeader.HEADER_SIZE ≤ (remainder next_message rest).length
  · rw [if_pos hheader, if_pos hheader, List.map_singleton]
    congr 1
    omega
  · rw [if_neg hheader, if_neg hheader, List.map_nil]

theorem header_positions_of_none {received : Bytes} (h : next_message received = none) :
    header_positions received ⊆ [0] := by
  obtain ⟨hmessages, hremainder⟩ := messages_of_none h
  unfold header_positions
  rw [hmessages, hremainder, Nat.sub_self]
  split <;> simp [message_starts]

theorem header_positions_of_short {received : Bytes} (h : received.length < MsgHeader.HEADER_SIZE) :
    messages next_message received = [] ∧ header_positions received = [] := by
  have hnone : next_message received = none := by
    simp only [next_message]
    rw [if_neg (by omega)]
  obtain ⟨hmessages, hremainder⟩ := messages_of_none hnone
  unfold header_positions
  rw [hmessages, hremainder, if_neg (by omega)]
  exact ⟨rfl, rfl⟩

/-- What follows the first message can be read as well. -/
theorem Readable.rest {received rest : Bytes} {message : Message} (h : Readable received)
    (hmessage : next_message received = some (message, rest)) : Readable rest := by
  obtain ⟨hmessages, hremainder⟩ := next_message_incremental.messages_of_some hmessage
  obtain ⟨hechoes, hfinished⟩ := h
  rw [hmessages, hremainder] at hfinished
  refine ⟨fun other hother => ?_, ?_⟩
  · apply hechoes other
    rw [hmessages]
    cases hrest : messages next_message rest with
    | nil => simp [hrest] at hother
    | cons second others =>
      rw [hrest] at hother
      exact List.mem_cons_of_mem _ hother
  · rintro ⟨other, hother, hresponse⟩
    exact hfinished ⟨other, List.mem_cons_of_mem _ hother, hresponse⟩

/-- After a request that is no echo request, nothing is read. -/
theorem Readable.last {received rest : Bytes} {message : Message} (h : Readable received)
    (hmessage : next_message received = some (message, rest)) (hother : message.response ≠ .echo) : rest = [] := by
  obtain ⟨hmessages, hremainder⟩ := next_message_incremental.messages_of_some hmessage
  have hnone : messages next_message rest = [] := by
    cases hrest : messages next_message rest with
    | nil => rfl
    | cons second others =>
      refine absurd (h.echoes message ?_) hother
      rw [hmessages, hrest]
      exact List.mem_cons_self ..
  have hfinished := h.finished ⟨message, by simp [hmessages], hother⟩
  have hcontents := next_message_incremental.messages_contents next_message_contents rest
  rw [hremainder] at hfinished
  rw [hnone, hfinished] at hcontents
  exact hcontents.symm

/-- An echo request before a stream that can be read. -/
theorem Readable.cons {received rest : Bytes} {message : Message} (h : Readable rest)
    (hmessage : next_message received = some (message, rest)) (hecho : message.response = .echo) :
    Readable received := by
  obtain ⟨hmessages, hremainder⟩ := next_message_incremental.messages_of_some hmessage
  constructor
  · intro other hother
    rw [hmessages] at hother
    cases hrest : messages next_message rest with
    | nil => simp [hrest] at hother
    | cons second others =>
      rw [hrest, List.dropLast_cons_cons, List.mem_cons] at hother
      cases hother with
      | inl heq => rw [heq, hecho]
      | inr hmem => exact h.echoes other (by rwa [hrest])
  · rintro ⟨other, hother, hresponse⟩
    rw [hmessages, List.mem_cons] at hother
    rw [hremainder]
    cases hother with
    | inl heq => exact absurd (heq ▸ hecho) hresponse
    | inr hmem => exact h.finished ⟨other, hmem, hresponse⟩

/-- Four bytes of a stream are taken for a header. -/
theorem Readable.header {received : Bytes} (h : received.length = MsgHeader.HEADER_SIZE) :
    Readable received ∧ 0 ∈ header_positions received := by
  cases hmessage : next_message received with
  | none =>
    obtain ⟨hmessages, hremainder⟩ := messages_of_none hmessage
    refine ⟨⟨by simp [hmessages], by simp [hmessages]⟩, ?_⟩
    unfold header_positions
    rw [hmessages, hremainder, if_pos (by omega), Nat.sub_self]
    exact List.mem_cons_self ..
  | some result =>
    obtain ⟨message, rest⟩ := result
    obtain ⟨hmessages, hremainder⟩ := next_message_incremental.messages_of_some hmessage
    obtain ⟨_, _, _, hoffset, _, hrest⟩ := next_message_some hmessage
    have hbounds := (message_size_bounds (NetClient.decode_header received)).1
    have hempty : rest = [] := by
      rw [hrest, List.drop_eq_nil_iff]
      omega
    have hend : next_message rest = none := by rw [hempty]; rfl
    obtain ⟨hnone, hnothing⟩ := messages_of_none hend
    refine ⟨⟨?_, fun _ => ?_⟩, ?_⟩
    · simp [hmessages, hnone]
    · rw [hremainder, hnothing, hempty]
    · rw [header_positions_of_some hmessage]
      exact List.mem_cons_self ..

namespace Frame

variable {frame : Frame} {frames : List Frame} {received rest more : Bytes} {message : Message}

/-- The first message of a stream is the first frame, as far as the buffer reaches. -/
theorem first_message (h : received <+: frame.wire ++ more) (hmessage : next_message received = some (message, rest)) :
    message.msg_type = frame.msg_type ∧ message.io_offset = min NetClient.IO_BUFFER_SIZE frame.size ∧
      rest = received.drop (min NetClient.IO_BUFFER_SIZE frame.size) := by
  obtain ⟨hle, htype, _, hoffset, _, hrest⟩ := next_message_some hmessage
  have hbounds := (message_size_bounds (NetClient.decode_header received)).1
  obtain ⟨hdecoded, hsize⟩ := decode_header_wire h (by omega)
  rw [hsize] at hoffset
  exact ⟨htype.trans hdecoded, hoffset, by rw [hrest, hoffset]⟩

theorem Framed.nil (frames : List Frame) : Framed frames [] [] :=
  ⟨List.nil_prefix, List.nil_subset _⟩

theorem Framed.cons {types : List UInt16} {headers : List Nat} (h : Framed frames types headers) (frame : Frame) :
    Framed (frame :: frames) (frame.msg_type :: types) (0 :: headers.map (· + frame.size)) := by
  constructor
  · rw [List.map_cons, List.prefix_cons_inj]
    exact h.types
  · exact List.cons_subset_cons _ (List.map_subset _ h.headers)

/-- Whatever the server has read of frames that fit the buffer, its messages and headers are
those of the frames. -/
theorem FitsBuffer.framed (hfits : FitsBuffer frames)
    (hechoes : ∀ frame ∈ frames.dropLast, frame.msg_type = protocol.MsgType.ECHO_REQUEST.value)
    (hreceived : received <+: stream frames) (hreadable : Readable received) :
    Framed frames ((messages next_message received).map Message.msg_type) (header_positions received) := by
  induction frames generalizing received with
  | nil =>
    have hempty : received = [] := List.prefix_nil.mp hreceived
    rw [hempty]
    exact .nil []
  | cons frame frames ih =>
    have hwire : received <+: frame.wire ++ stream frames := hreceived
    cases hmessage : next_message received with
    | none =>
      rw [(messages_of_none hmessage).1]
      exact ⟨List.nil_prefix, List.Subset.trans (header_positions_of_none hmessage)
        (List.cons_subset_cons _ (List.nil_subset _))⟩
    | some result =>
      obtain ⟨message, rest⟩ := result
      obtain ⟨htype, hoffset, hrest⟩ := first_message hwire hmessage
      rw [(next_message_incremental.messages_of_some hmessage).1, header_positions_of_some hmessage,
          List.map_cons, htype]
      cases frames with
      | nil =>
        have hlength := hwire.length_le
        rw [stream, List.map_nil, List.flatten_nil, List.append_nil, length_wire] at hlength
        have hshort : rest.length < MsgHeader.HEADER_SIZE := by
          by_cases hecho : frame.msg_type = protocol.MsgType.ECHO_REQUEST.value
          · have hsize := hfits hecho
            rw [hrest, List.length_drop]
            unfold MsgHeader.HEADER_SIZE at hsize ⊢
            omega
          · have hother : message.response ≠ .echo := by rwa [ne_eq, message.response_eq_echo_iff, htype]
            rw [hreadable.last hmessage hother]
            decide
        obtain ⟨hmessages, hpositions⟩ := header_positions_of_short hshort
        rw [hmessages, hpositions]
        exact (Framed.nil []).cons frame
      | cons next frames =>
        obtain ⟨hsize, hfits⟩ := hfits
        rw [Nat.min_eq_right hsize] at hoffset hrest
        rw [hoffset]
        have hnext : rest <+: stream (next :: frames) := by
          have hdropped := hwire.drop frame.size
          rwa [← length_wire, List.drop_left, length_wire, ← hrest] at hdropped
        refine (ih hfits (fun other hother => ?_) hnext (hreadable.rest hmessage)).cons frame
        exact hechoes other (List.mem_cons_of_mem _ hother)

/-- The frame at the front of a stream is received, as far as the buffer reaches. -/
theorem receives_first (hreceived : received <+: frame.wire ++ more)
    (hlength : min NetClient.IO_BUFFER_SIZE frame.size ≤ received.length) :
    ∃ message, next_message received = some (message, received.drop (min NetClient.IO_BUFFER_SIZE frame.size)) ∧
      message.msg_type = frame.msg_type ∧ message.io_offset = min NetClient.IO_BUFFER_SIZE frame.size := by
  have hsize := frame.size_ge
  have hlarge : MsgHeader.HEADER_SIZE ≤ NetClient.IO_BUFFER_SIZE := by decide
  obtain ⟨htype, hmessage⟩ := decode_header_wire hreceived (by omega)
  simp only [next_message]
  rw [if_pos (by omega), hmessage]
  exact ⟨_, rfl, htype, rfl⟩

/-- A frame that is too long for the buffer is cut, and the first bytes that are left of it are
taken for a header. -/
theorem cut_frame (hecho : frame.msg_type = protocol.MsgType.ECHO_REQUEST.value)
    (hlong : NetClient.IO_BUFFER_SIZE < frame.size)
    (hreceived : received <+: frame.wire ++ more)
    (hlength : received.length = NetClient.IO_BUFFER_SIZE + MsgHeader.HEADER_SIZE) :
    Readable received ∧ NetClient.IO_BUFFER_SIZE ∈ header_positions received := by
  obtain ⟨message, hmessage, htype, hoffset⟩ := receives_first hreceived (by omega)
  rw [Nat.min_eq_left (by omega)] at hmessage hoffset
  have hrest : (received.drop NetClient.IO_BUFFER_SIZE).length = MsgHeader.HEADER_SIZE := by
    rw [List.length_drop]
    omega
  obtain ⟨hreadable, hheader⟩ := Readable.header hrest
  refine ⟨hreadable.cons hmessage ((message.response_eq_echo_iff).mpr (htype.trans hecho)), ?_⟩
  rw [header_positions_of_some hmessage, hoffset]
  exact List.mem_cons_of_mem _ (List.mem_map.mpr ⟨0, hheader, Nat.zero_add _⟩)

theorem not_mem_starts {position : Nat} (hpositive : 0 < position) (hposition : position < frame.size) :
    position ∉ starts (frame :: frames) := by
  simp only [starts, List.mem_cons, List.mem_map, not_or, not_exists, not_and]
  exact ⟨by omega, fun start _ => by omega⟩

/-- Of frames that do not fit the buffer, the server may take bytes of a payload for a header. -/
theorem payload_taken_for_header (hfits : ¬ FitsBuffer frames)
    (hechoes : ∀ frame ∈ frames.dropLast, frame.msg_type = protocol.MsgType.ECHO_REQUEST.value) :
    ∃ received, received <+: stream frames ∧ Readable received ∧ ¬ header_positions received ⊆ starts frames := by
  induction frames with
  | nil => exact absurd trivial hfits
  | cons frame frames ih =>
    have hcut : frame.msg_type = protocol.MsgType.ECHO_REQUEST.value → NetClient.IO_BUFFER_SIZE < frame.size →
        NetClient.IO_BUFFER_SIZE + MsgHeader.HEADER_SIZE ≤ (stream (frame :: frames)).length →
        ∃ received, received <+: stream (frame :: frames) ∧ Readable received ∧
          ¬ header_positions received ⊆ starts (frame :: frames) := by
      intro hecho hlong hlength
      have htaken := List.take_prefix (NetClient.IO_BUFFER_SIZE + MsgHeader.HEADER_SIZE) (stream (frame :: frames))
      obtain ⟨hreadable, hheader⟩ := cut_frame hecho hlong htaken (List.length_take_of_le hlength)
      refine ⟨_, htaken, hreadable, fun hsubset => ?_⟩
      exact not_mem_starts (by decide) hlong (hsubset hheader)
    have htotal : (stream (frame :: frames)).length = frame.size + (stream frames).length := by
      rw [stream, List.map_cons, List.flatten_cons, List.length_append, length_wire, stream]
    cases frames with
    | nil =>
      simp only [FitsBuffer, Classical.not_imp, Nat.not_lt] at hfits
      obtain ⟨hecho, hlong⟩ := hfits
      refine hcut hecho ?_ (by omega)
      exact Nat.lt_of_lt_of_le (by decide) hlong
    | cons next frames =>
      have hecho := hechoes frame (List.mem_cons_self ..)
      by_cases hsize : frame.size ≤ NetClient.IO_BUFFER_SIZE
      · obtain ⟨received, hreceived, hreadable, houtside⟩ := ih (fun hrest => hfits ⟨hsize, hrest⟩)
          (fun other hother => hechoes other (List.mem_cons_of_mem _ hother))
        have hwhole : frame.wire ++ received <+: stream (frame :: next :: frames) :=
          (List.prefix_append_right_inj _).mpr hreceived
        obtain ⟨message, hmessage, htype, hoffset⟩ := receives_first hwhole
          (by rw [List.length_append, length_wire]; omega)
        rw [Nat.min_eq_right hsize] at hmessage hoffset
        rw [← length_wire, List.drop_left] at hmessage
        refine ⟨_, hwhole, hreadable.cons hmessage ((message.response_eq_echo_iff).mpr (htype.trans hecho)), ?_⟩
        intro hsubset
        refine houtside fun position hposition => ?_
        rw [header_positions_of_some hmessage, hoffset] at hsubset
        have hshifted := hsubset (List.mem_cons_of_mem _ (List.mem_map.mpr ⟨position, hposition, rfl⟩))
        have hpositive := frame.size_ge
        simp only [starts, List.mem_cons, List.mem_map] at hshifted ⊢
        cases hshifted with
        | inl hzero =>
          unfold MsgHeader.HEADER_SIZE at hpositive
          omega
        | inr hmem =>
          obtain ⟨start, hstart, heq⟩ := hmem
          rwa [← Nat.add_right_cancel heq]
      · refine hcut hecho (by omega) ?_
        have hnext : next.size ≤ (stream (next :: frames)).length := by
          rw [stream, List.map_cons, List.flatten_cons, List.length_append, length_wire]
          exact Nat.le_add_right _ _
        have hleast := next.size_ge
        omega

end Frame

namespace State

/-- As long as the frames of a connection fit the receive buffer, the server dispatches one
message for each of them, in their order, and decodes no header but theirs. They have to fit:
otherwise there are bytes of a payload that the server may read as a header. -/
theorem frames_delimit_messages {Buf : Type} [CharBuffer Buf] [LawfulCharBuffer Buf] {frames : List Frame}
    (hechoes : ∀ frame ∈ frames.dropLast, frame.msg_type = protocol.MsgType.ECHO_REQUEST.value) :
    (Frame.FitsBuffer frames → ∀ state : State Buf, state.Reachable → ∀ connection,
      (state.connector.history connection).received <+: Frame.stream frames →
      Frame.Framed frames (state.connector.history connection).dispatched
        (state.connector.history connection).headers) ∧
    (Frame.FitsBuffer frames ↔ ∀ received, received <+: Frame.stream frames → Readable received →
      Frame.Framed frames ((messages next_message received).map Message.msg_type) (header_positions received)) := by
  refine ⟨fun hfits state hreachable connection hreceived => ?_, fun hfits received => hfits.framed hechoes,
      fun hframed => ?_⟩
  · have hrecorded := Reachable.recorded hreachable connection
    obtain ⟨htypes, hheaders⟩ := hfits.framed hechoes hreceived hrecorded.readable
    rw [← hrecorded.messages] at htypes
    rw [← hrecorded.headers] at hheaders
    exact ⟨hrecorded.dispatched.trans htypes, hheaders⟩
  · by_contra hfits
    obtain ⟨received, hreceived, hreadable, houtside⟩ := Frame.payload_taken_for_header hfits hechoes
    exact houtside (hframed received hreceived hreadable).headers

/-- Two echo requests and a request for fencing, each with a payload. -/
def echo_frames : List Frame :=
  [⟨protocol.MsgType.ECHO_REQUEST.value, [1, 2], by decide +kernel⟩,
    ⟨protocol.MsgType.ECHO_REQUEST.value, [3], by decide +kernel⟩,
    ⟨protocol.MsgType.FENCE_OFF.value, [0, 1, 0x3D], by decide +kernel⟩]

/-- The server answers the echo requests, and it has received half of the header that follows. -/
def echo_frames_run : List Action :=
  Action.startup ++ Action.accept_round 6 23 [] ++ Action.round [6] [] [] [.visit 23 (.received [0, 0, 0, 6])] ++
    Action.round [6] [] [] (Action.complete 23 none [1, 2]) ++ Action.work 0 23 false ++
    [.worker_hand_back_lock 0 23, .worker_hand_back 0 23] ++
    Action.round [4] [6] [.drain, .drain] [.visit 23 (.sent 4)] ++
    Action.round [6] [] [] [.visit 23 (.received [0, 0, 0, 5])] ++
    Action.round [6] [] [] (Action.complete 23 none [3]) ++ Action.work 1 23 false ++
    [.worker_hand_back_lock 1 23, .worker_hand_back 1 23] ++
    Action.round [4] [6] [.drain, .drain] [.visit 23 (.sent 4)] ++
    Action.round [6] [] [] [.visit 23 (.received [0, 0x81])]

theorem frames_delimit_messages_echo : ∃ state : State BoundedBuffer,
    (state.connector.history 0).dispatched = [0, 0] ∧ (state.connector.history 0).headers = [0, 6] ∧
      Frame.Framed echo_frames (state.connector.history 0).dispatched (state.connector.history 0).headers := by
  obtain ⟨state, hreachable, hfound⟩ := exists_reachesFrom_of_run
    (by decide +kernel : ((run State.step (State.initial BoundedBuffer (.filled 0xA5)) echo_frames_run).any fun state =>
      (state.connector.history 0).received = [0, 0, 0, 6, 1, 2, 0, 0, 0, 5, 3, 0, 0x81] ∧
        (state.connector.history 0).dispatched = [0, 0] ∧ (state.connector.history 0).headers = [0, 6]) = true)
  simp only [Bool.decide_and, Bool.and_eq_true, decide_eq_true_eq] at hfound
  obtain ⟨hreceived, hdispatched, hheaders⟩ := hfound
  have hfits : Frame.FitsBuffer echo_frames := ⟨by decide, by decide, fun _ => by decide⟩
  refine ⟨state, hdispatched, hheaders, (frames_delimit_messages (by decide)).1 hfits state hreachable 0 ?_⟩
  rw [hreceived]
  decide

/-- The last bytes of an echo request of 1040 bytes: a request for fencing. -/
def hidden_request : Bytes := [0, 0x81, 0, 16, 0, 10] ++ protocol.NODENAME ++ [protocol.SPLIT_BYTE, 0x78]

/-- A connection that sends one echo request. -/
def hidden_request_run : List Action :=
  Action.startup ++ Action.accept_round 6 23 [] ++ Action.round [6] [] [] [.visit 23 (.received [0, 0, 0x4, 0x10])] ++
    Action.round [6] [] [] (Action.complete 23 none (zero_memory 1020)) ++ Action.work 0 23 false ++
    [.worker_hand_back_lock 0 23, .worker_hand_back 0 23] ++
    Action.round [4] [6] [.drain, .drain] [.visit 23 (.sent 4)] ++
    Action.round [6] [] [] [.visit 23 (.received (hidden_request.take 4))] ++
    Action.round [6] [] [] (Action.complete 23 none (hidden_request.drop 4)) ++ Action.work 1 23 true

/-- The payload of an echo request makes the server call the plugin. -/
theorem payload_dispatched : ¬ ∀ (state : State BoundedBuffer) (connection : Nat) (frames : List Frame),
    state.Reachable → (∀ frame ∈ frames.dropLast, frame.msg_type = protocol.MsgType.ECHO_REQUEST.value) →
      (state.connector.history connection).received <+: Frame.stream frames →
      Frame.Framed frames (state.connector.history connection).dispatched
        (state.connector.history connection).headers := by
  intro hall
  obtain ⟨state, hreachable, hfound⟩ := exists_reachesFrom_of_run
    (by decide +kernel : ((run State.step (State.initial BoundedBuffer (.filled 0xA5)) hidden_request_run).any
      fun state => (state.connector.history 0).received = [0, 0, 0x4, 0x10] ++ zero_memory 1020 ++ hidden_request ∧
        (state.connector.history 0).dispatched = [0, 0x81] ∧
        (state.connector.history 0).dialogue.countP Event.is_call = 1) = true)
  simp only [Bool.decide_and, Bool.and_eq_true, decide_eq_true_eq] at hfound
  obtain ⟨hreceived, hdispatched, _⟩ := hfound
  have hframed := hall state 0 [⟨0, zero_memory 1020 ++ hidden_request, by decide +kernel⟩] hreachable (by simp)
    (by rw [hreceived]; decide +kernel)
  have hlength := hframed.types.length_le
  rw [hdispatched] at hlength
  exact absurd hlength (by decide)

end State

end ufh
