import UniversalFencingHub.Client.Request
import UniversalFencingHub.Properties.MessageFraming
import UniversalFencingHub.Properties.RequestGrammar

open framing transition ufh.CharBuffer

namespace ufh

namespace Server

/-- The type of the message that asks for a method. -/
def FenceActionMethod.msg_type : FenceActionMethod → protocol.MsgType
  | .fence_action_off => .FENCE_OFF
  | .fence_action_on => .FENCE_ON
  | .fence_action_reboot => .FENCE_REBOOT

theorem fence_method_msg_type (method : FenceActionMethod) :
    method.msg_type.value ≠ protocol.MsgType.ECHO_REQUEST.value ∧
      NetClient.fence_method method.msg_type.value = some method := by
  cases method with
  | _ => decide

end Server

namespace client

section

variable {Buf : Type} [CharBuffer Buf]

/-- A node name and a secret that a fencing request can carry: C strings that keep to the limits. -/
structure Admissible (nodename secret : Buf) : Prop where
  named : contents nodename ≠ []
  nodename_length : (contents nodename).length ≤ 255
  nodename_text : 0 ∉ contents nodename
  secret_length : (contents secret).length ≤ 64
  secret_text : 0 ∉ contents secret

/-- The field that carries a value. -/
def param_field (key value : Bytes) : Bytes := key ++ protocol.SPLIT_BYTE :: value

theorem request_param_eq [LawfulCharBuffer Buf] (key : Bytes) {value : Buf} (htext : 0 ∉ contents value) :
    ClientConnector.request_param key value = param_field key (contents value) := by
  have hsplit : ClientConnector.c_str (contents (protocol.KEY_VALUE_SPLIT_SEQ : Buf)) = [protocol.SPLIT_BYTE] := by
    rw [protocol.KEY_VALUE_SPLIT_SEQ, LawfulCharBuffer.contents_from_c_str]
    rfl
  have hvalue : ClientConnector.c_str (contents value) = contents value := before_first_of_not_mem htext
  rw [ClientConnector.request_param, hsplit, hvalue, param_field, List.append_assoc, List.singleton_append]

theorem field_key_param {key : Bytes} (value : Bytes) (hkey : protocol.SPLIT_BYTE ∉ key) :
    protocol.field_key (param_field key value) = key :=
  before_first_append value hkey

theorem field_value_param {key : Bytes} (value : Bytes) (hkey : protocol.SPLIT_BYTE ∉ key) :
    protocol.field_value (param_field key value) = value := by
  have hbefore : before_first protocol.SPLIT_BYTE (param_field key value) = key := before_first_append value hkey
  have hdrop := drop_length_before_first protocol.SPLIT_BYTE (param_field key value)
  rw [hbefore, param_field, ← List.drop_drop, List.drop_left] at hdrop
  exact hdrop.symm

/-- The payload of a request asks for fencing the node. -/
theorem parse_request_fields [LawfulCharBuffer Buf] {nodename secret : Buf} (h : Admissible nodename secret) :
    protocol.parse_request (protocol.encode_fields (request_fields nodename secret)) =
      .fence (contents nodename) (contents secret) := by
  obtain ⟨hnamed, hnodename, htext, hsecret, htext'⟩ := h
  have hkey : protocol.SPLIT_BYTE ∉ protocol.NODENAME := by decide
  have hkey' : protocol.SPLIT_BYTE ∉ protocol.SECRET := by decide
  have hother : protocol.SECRET ≠ protocol.NODENAME := by decide
  have hfields : request_fields nodename secret =
      [param_field protocol.NODENAME (contents nodename), param_field protocol.SECRET (contents secret)] := by
    rw [request_fields, request_param_eq _ htext, request_param_eq _ htext']
  have hname : contents nodename = protocol.value_of protocol.NODENAME (request_fields nodename secret) := by
    rw [hfields, protocol.value_of, List.filter_cons_of_pos (by simp [field_key_param, hkey]),
      List.filter_cons_of_neg (by simp [field_key_param, hkey', hother])]
    exact (field_value_param _ hkey).symm
  have hpass : contents secret = protocol.value_of protocol.SECRET (request_fields nodename secret) := by
    rw [hfields, protocol.value_of, List.filter_cons_of_neg (by simp [field_key_param, hkey, hother.symm]),
      List.filter_cons_of_pos (by simp [field_key_param, hkey'])]
    exact (field_value_param _ hkey').symm
  refine protocol.parse_request_fence.mpr ⟨_, rfl, ⟨?_, ?_, ?_, ?_, ?_⟩, hname, hpass⟩
  · exact (request_fields_fit hnodename hsecret).1
  · simp [hfields, param_field]
  · simp only [hfields, List.forall_mem_cons, List.not_mem_nil, false_implies, implies_true, and_true,
      field_value_param _ hkey, field_key_param _ hkey']
    exact ⟨fun _ => hnodename, fun heq => absurd heq hother⟩
  · simp only [hfields, List.forall_mem_cons, List.not_mem_nil, false_implies, implies_true, and_true,
      field_value_param _ hkey', field_key_param _ hkey]
    exact ⟨fun heq => absurd heq hother.symm, fun _ => hsecret⟩
  · rw [← hname]
    exact hnamed

/-- The frame of a request. -/
def request_frame [LawfulCharBuffer Buf] (method : Server.FenceActionMethod) {nodename secret : Buf}
    (h : Admissible nodename secret) : Frame where
  msg_type := method.msg_type.value
  payload := protocol.encode_fields (request_fields nodename secret)
  fits := by
    have hlength := (request_fields_fit h.nodename_length h.secret_length).2
    unfold ClientConnector.IO_BUFFER_SIZE at hlength
    unfold MsgHeader.HEADER_SIZE at hlength ⊢
    omega

/-- The server takes a request for what it is. -/
theorem request_frame_message [LawfulCharBuffer Buf] (method : Server.FenceActionMethod) {nodename secret : Buf}
    (h : Admissible nodename secret) :
    (request_frame method h).size ≤ NetClient.IO_BUFFER_SIZE ∧
      ∃ message, next_message (request_frame method h).wire = some (message, []) ∧
        message.response = .fence method (contents nodename) (contents secret) := by
  have hfits := (request_fields_fit h.nodename_length h.secret_length).2
  have hsize : (request_frame method h).size ≤ NetClient.IO_BUFFER_SIZE := by
    unfold Frame.size NetClient.IO_BUFFER_SIZE MsgHeader.HEADER_SIZE
    unfold ClientConnector.IO_BUFFER_SIZE MsgHeader.HEADER_SIZE at hfits
    simp only [request_frame]
    omega
  have hwire : (request_frame method h).wire <+: (request_frame method h).wire ++ [] := List.prefix_append _ _
  have hlength := (request_frame method h).length_wire
  obtain ⟨message, hmessage, htype, _⟩ := Frame.receives_first hwire (by omega)
  rw [List.drop_eq_nil_of_le (by omega)] at hmessage
  have hcontents := next_message_contents _ _ _ hmessage
  rw [List.append_nil] at hcontents
  have hpayload : message.contents.drop MsgHeader.HEADER_SIZE =
      protocol.encode_fields (request_fields nodename secret) := by
    have hheader : MsgHeader.HEADER_SIZE = (request_frame method h).header.wire.length := rfl
    rw [hcontents, Frame.wire, hheader, List.drop_left]
    rfl
  obtain ⟨hecho, hmethod⟩ := Server.fence_method_msg_type method
  refine ⟨hsize, message, hmessage, ?_⟩
  unfold Message.response
  rw [htype, hpayload, parse_request_fields h]
  simp only [request_frame, hmethod]
  rw [if_neg hecho]

/-- An object whose socket has just been connected. -/
structure ClientConnector.Fresh (connector : ClientConnector) : Prop where
  io_buffer : connector.io_buffer.length = ClientConnector.IO_BUFFER_SIZE
  sent : connector.sent = []
  received : connector.received = []

/-- The call of the client that asks for a method. -/
def ClientConnector.fence_action (system : System) (fuel : Nat) (connector : ClientConnector) :
    Server.FenceActionMethod → Buf → Buf → Running Bool
  | .fence_action_off => connector.fence_action_off system fuel
  | .fence_action_on => connector.fence_action_on system fuel
  | .fence_action_reboot => connector.fence_action_reboot system fuel

theorem ClientConnector.fence_action_eq (system : System) (fuel : Nat) (connector : ClientConnector)
    (method : Server.FenceActionMethod) (nodename secret : Buf) :
    connector.fence_action system fuel method nodename secret =
      connector.fence_action_impl system fuel method.msg_type nodename secret := by
  cases method with
  | _ => rfl

/-- The object in the course of `fence_action_impl`: before the request is sent, in every round of
the loop that sends it, and in every round of the loop that receives the reply. -/
inductive ClientConnector.Course (system : System) (connector : ClientConnector) (msg_type : protocol.MsgType)
    (nodename secret : Buf) : ClientConnector → Prop
  | start : Course system connector msg_type nodename secret connector
  | sending {prepared : ClientConnector} {state : Nat × ClientConnector}
      (hwrite : { connector with header := connector.header.set_msg_type msg_type }.write_request nodename secret =
        .ok prepared)
      (hround : looping.Reaches (send_round system prepared.message_length)
        (0, { prepared with io_buffer := prepared.header.serialize prepared.io_buffer }) state) :
      Course system connector msg_type nodename secret state.2
  | receiving {prepared sent : ClientConnector} {fuel : Nat} {reception : Reception}
      (hwrite : { connector with header := connector.header.set_msg_type msg_type }.write_request nodename secret =
        .ok prepared)
      (hsend : prepared.send_message system fuel = some (sent, .ok ()))
      (hround : looping.Reaches (receive_round system)
        { connector := { sent with header := MsgHeader.clear }.clear_io_buffer } reception) :
      Course system connector msg_type nodename secret reception.connector

section

variable [LawfulCharBuffer Buf] {system : System} {connector object prepared : ClientConnector} {fuel : Nat}
  {method : Server.FenceActionMethod} {nodename secret : Buf}

/-- The bytes that are sent for a message whose payload has been written into the buffer. -/
theorem take_serialize (header : MsgHeader) {buffer payload : Bytes}
    (hroom : MsgHeader.HEADER_SIZE + payload.length ≤ buffer.length) :
    (header.serialize (store buffer MsgHeader.HEADER_SIZE payload)).take (MsgHeader.HEADER_SIZE + payload.length) =
      header.wire ++ payload := by
  have hregion := protocol.region_store payload (show MsgHeader.HEADER_SIZE ≤ buffer.length by omega)
  have hlength := length_store hroom
  have hwire : header.wire.length = MsgHeader.HEADER_SIZE := rfl
  rw [protocol.region, List.drop_take, Nat.add_sub_cancel_left] at hregion
  rw [header.serialize_eq (by omega), List.take_append, hwire, Nat.add_sub_cancel_left, hregion,
    List.take_of_length_le (by omega)]

/-- The object with which `send_message` is called: what it sends is the frame of the request. -/
theorem prepared_request (hfresh : connector.Fresh) (h : Admissible nodename secret)
    (hwrite : { connector with header := connector.header.set_msg_type method.msg_type }.write_request nodename secret =
      .ok prepared) :
    prepared.sent = [] ∧ prepared.received = [] ∧ prepared.io_buffer.length = ClientConnector.IO_BUFFER_SIZE ∧
      prepared.message_length = (request_frame method h).size ∧
      (prepared.header.serialize prepared.io_buffer).take prepared.message_length = (request_frame method h).wire := by
  have hfits := request_fields_fit h.nodename_length h.secret_length
  have hlength := (request_frame method h).header_length
  have hsize := (request_frame_message method h).1
  have hleast := (request_frame method h).size_ge
  have hbuffer := hfresh.io_buffer
  have hroom : (request_frame method h).size ≤ connector.io_buffer.length := hbuffer.symm ▸ hsize
  obtain rfl := Except.ok.inj (hwrite.symm.trans (write_request_ok hfresh.io_buffer hfits))
  have hmessage : ClientConnector.message_length
      { connector with
        io_buffer := store connector.io_buffer MsgHeader.HEADER_SIZE
          (protocol.encode_fields (request_fields nodename secret))
        header := (request_frame method h).header } = (request_frame method h).size := by
    unfold ClientConnector.message_length
    rw [hlength, Nat.max_eq_right hleast]
    exact Nat.min_eq_left hsize
  refine ⟨hfresh.sent, hfresh.received, (length_store hroom).trans hbuffer, hmessage, ?_⟩
  exact (congrArg (fun count => List.take count _) hmessage).trans (take_serialize _ hroom)

/-- In the course of its call, the client sends the frame of the request and nothing else. -/
theorem course_sent (hfresh : connector.Fresh) (h : Admissible nodename secret)
    (hcourse : connector.Course system method.msg_type nodename secret object) :
    object.sent <+: (request_frame method h).wire := by
  cases hcourse with
  | start =>
    rw [hfresh.sent]
    exact List.nil_prefix
  | sending hwrite hround =>
    obtain ⟨hsent, _, _, _, hmessage⟩ := prepared_request hfresh h hwrite
    have hkept := looping.Reaches.invariant (fun _ _ => ClientConnector.SendKept.round)
      ⟨Nat.zero_le _, rfl, rfl, rfl, (List.append_nil _).symm⟩ hround
    rw [hkept.sent, hsent, List.nil_append, ← hmessage]
    exact List.take_prefix_take_left hkept.offset
  | receiving hwrite hsend hround =>
    obtain ⟨hsent, _, _, _, hmessage⟩ := prepared_request hfresh h hwrite
    have hsize : (zero_memory ClientConnector.IO_BUFFER_SIZE).length = ClientConnector.IO_BUFFER_SIZE :=
      length_zero_memory _
    have hkept := looping.Reaches.invariant (fun _ _ => ClientConnector.ReceiveKept.round)
      (ClientConnector.initial_receive_kept hsize) hround
    obtain ⟨_, _, _, hwhole, _⟩ := ClientConnector.send_message_spec hsend
    rw [hsent, List.nil_append, hmessage] at hwhole
    rw [hkept.sent.trans hwhole]

omit [CharBuffer Buf] [LawfulCharBuffer Buf] in
theorem next_eq_ok {T U : Type} {first : Running T} {rest : ClientConnector → T → Running U} {value : U}
    (h : first.next rest = some (object, .ok value)) :
    ∃ connector result, first = some (connector, .ok result) ∧ rest connector result = some (object, .ok value) := by
  unfold Running.next at h
  split at h
  · cases h
  · cases h
  · exact ⟨_, _, rfl, h⟩

/-- When the call returns, the request has been sent, and the received bytes start with the header of
a reply that says what is returned. -/
theorem fence_action_returns (hfresh : connector.Fresh) (h : Admissible nodename secret) {result : Bool}
    (hrun : connector.fence_action system fuel method nodename secret = some (object, .ok result)) :
    object.sent = (request_frame method h).wire ∧ MsgHeader.HEADER_SIZE ≤ object.received.length ∧
      (MsgHeader.deserialize object.received).msg_type = (NetClient.fence_reply result).value := by
  rw [ClientConnector.fence_action_eq] at hrun
  unfold ClientConnector.fence_action_impl at hrun
  simp only at hrun
  split at hrun
  · cases hrun
  · split at hrun
    · next prepared hwrite =>
      obtain ⟨hsent, hreceived, _, _, hmessage⟩ := prepared_request hfresh h hwrite
      obtain ⟨sent, _, hsend, hrun⟩ := next_eq_ok hrun
      obtain ⟨received, _, hreceive, hrun⟩ := next_eq_ok hrun
      obtain ⟨_, hnothing, _, hwhole, _⟩ := ClientConnector.send_message_spec hsend
      obtain ⟨message, htaken, hkept, hlong, hdecoded, _⟩ := ClientConnector.receive_message_spec hreceive
      rw [hsent, List.nil_append, hmessage] at hwhole
      rw [hnothing, hreceived, List.nil_append] at htaken
      have hreply : received = object ∧ received.header.msg_type = (NetClient.fence_reply result).value := by
        split at hrun
        · next htype =>
          cases hrun
          exact ⟨rfl, eq_of_beq htype⟩
        · split at hrun
          · next htype =>
            cases hrun
            exact ⟨rfl, eq_of_beq htype⟩
          · cases hrun
      obtain ⟨rfl, htype⟩ := hreply
      rw [htaken]
      rw [hdecoded] at htype
      exact ⟨hkept.trans hwhole, hlong, htype⟩
    · cases hrun

end

end

end client

/-- The plugin call that an event stands for, and what it has returned. -/
def Event.plugin_call : Event → Option (PluginCall × Bool)
  | .call made success_flag => some (made, success_flag)
  | _ => none

/-- The byte that an event sends to the peer. -/
def Event.sent_byte : Event → Option UInt8
  | .sent byte => some byte
  | _ => none

/-- The plugin calls made for a connection. -/
def History.calls (record : History) : List (PluginCall × Bool) := record.dialogue.filterMap Event.plugin_call

/-- The bytes sent on a connection. -/
def History.sent (record : History) : Bytes := record.dialogue.filterMap Event.sent_byte

section

variable {record : History} {stream : Bytes} {message : Message} {method : Server.FenceActionMethod}
  {nodename secret : Bytes}

theorem reply_events_sent (reply : protocol.MsgType) :
    (reply_events reply).filterMap Event.plugin_call = [] ∧
      (reply_events reply).filterMap Event.sent_byte =
        ({ msg_type := reply.value, data_length := MsgHeader.HEADER_SIZE.toUInt16 } : MsgHeader).wire := by
  rw [reply_events, List.filterMap_map, List.filterMap_map]
  exact ⟨List.filterMap_eq_nil_iff.mpr (fun byte _ => by rfl), List.filterMap_some⟩

/-- What has been said so far of a request, the plugin call and the reply. -/
theorem dialogue_cases {said replies : List Event} {call : PluginCall} {success_flag : Bool}
    (h : said <+: .message message :: .call call success_flag :: replies)
    (hsilent : replies.filterMap Event.plugin_call = []) :
    said.filterMap Event.plugin_call = [] ∧ said.filterMap Event.sent_byte = [] ∨
      said.filterMap Event.plugin_call = [(call, success_flag)] ∧
        said.filterMap Event.sent_byte <+: replies.filterMap Event.sent_byte := by
  cases said with
  | nil => exact Or.inl ⟨rfl, rfl⟩
  | cons first said =>
    obtain ⟨rfl, hcalled⟩ := List.cons_prefix_cons.mp h
    clear h
    cases said with
    | nil => exact Or.inl ⟨rfl, rfl⟩
    | cons second said =>
      obtain ⟨rfl, hreplied⟩ := List.cons_prefix_cons.mp hcalled
      have hnone : said.filterMap Event.plugin_call = [] := by
        have hbegins := hreplied.filterMap Event.plugin_call
        rw [hsilent] at hbegins
        exact List.prefix_nil.mp hbegins
      refine Or.inr ⟨?_, hreplied.filterMap Event.sent_byte⟩
      change (call, success_flag) :: said.filterMap Event.plugin_call = _
      rw [hnone]

theorem fence_reply_injective : ∀ success_flag success_flag' : Bool,
    (NetClient.fence_reply success_flag).value = (NetClient.fence_reply success_flag').value →
      success_flag = success_flag' := by
  decide

/-- On a connection that receives a single request, the plugin is called at most once and as
requested, and a reply is sent only after the call, with its result. -/
theorem Recorded.single_request (h : Recorded record) (hstream : next_message stream = some (message, []))
    (hreceived : record.received <+: stream) (hresponse : message.response = .fence method nodename secret) :
    record.calls = [] ∧ record.sent = [] ∨ ∃ success_flag,
      record.calls = [({ function := method.plugin_function, nodename }, success_flag)] ∧
        record.sent <+: ({ msg_type := (NetClient.fence_reply success_flag).value
                           data_length := MsgHeader.HEADER_SIZE.toUInt16 } : MsgHeader).wire := by
  have hmessages := next_message_incremental.messages_prefix hreceived
  have hend : framing.messages next_message [] = [] := (messages_of_none (by rfl)).1
  rw [(next_message_incremental.messages_of_some hstream).1, hend, ← h.messages] at hmessages
  obtain ⟨success_flag, hdialogue⟩ := h.dialogue
  obtain ⟨hsilent, hsent⟩ := reply_events_sent (NetClient.fence_reply success_flag)
  obtain hnone | ⟨rest, hone, hrest⟩ := List.prefix_cons_iff.mp hmessages
  · rw [hnone] at hdialogue
    have hnothing : record.dialogue = [] := List.prefix_nil.mp hdialogue
    exact Or.inl (by simp [History.calls, History.sent, hnothing])
  · rw [hone, List.prefix_nil.mp hrest, dialogue_singleton, hresponse] at hdialogue
    obtain hnothing | hanswered := dialogue_cases hdialogue hsilent
    · exact Or.inl hnothing
    · rw [hsent] at hanswered
      exact Or.inr ⟨success_flag, hanswered⟩

end

namespace State

open client

variable {Buf : Type} [CharBuffer Buf] [LawfulCharBuffer Buf]

/-- While a client asks for fencing on a connection of its own, the server makes one plugin call at
most for the connection: the requested function, with the given node name. The client returns
nothing but the result of this call. -/
theorem fencing_faithful {state : State Buf} {system : System} {connector : ClientConnector} {nodename secret : Buf}
    (hreachable : state.Reachable) (connection : Nat) (hfresh : connector.Fresh)
    (hadmissible : Admissible nodename secret)
    (method : Server.FenceActionMethod) :
    (∀ object, connector.Course system method.msg_type nodename secret object →
      (state.connector.history connection).received <+: object.sent →
      (state.connector.history connection).calls = [] ∨ ∃ success_flag, (state.connector.history connection).calls =
        [({ function := method.plugin_function, nodename := contents nodename }, success_flag)]) ∧
    ∀ fuel object success_flag,
      connector.fence_action system fuel method nodename secret = some (object, .ok success_flag) →
      (state.connector.history connection).received <+: object.sent →
      object.received <+: (state.connector.history connection).sent →
      (state.connector.history connection).calls =
        [({ function := method.plugin_function, nodename := contents nodename }, success_flag)] := by
  have hrecorded := Reachable.recorded hreachable connection
  obtain ⟨_, message, hstream, hresponse⟩ := request_frame_message method hadmissible
  constructor
  · intro object hcourse hreceived
    have hrequest := hreceived.trans (course_sent hfresh hadmissible hcourse)
    obtain ⟨hnone, _⟩ | ⟨success_flag, hone, _⟩ := hrecorded.single_request hstream hrequest hresponse
    · exact Or.inl hnone
    · exact Or.inr ⟨success_flag, hone⟩
  · intro fuel object success_flag hreturns hreceived hreply
    obtain ⟨hsent, hlong, htype⟩ := fence_action_returns hfresh hadmissible hreturns
    rw [hsent] at hreceived
    obtain ⟨_, hnothing⟩ | ⟨result, hone, hanswer⟩ := hrecorded.single_request hstream hreceived hresponse
    · rw [hnothing, List.prefix_nil] at hreply
      rw [hreply] at hlong
      exact absurd hlong (by decide)
    · have hwire := hreply.trans hanswer
      have hwhole := hwire.eq_of_length_le (by rw [MsgHeader.length_wire]; exact hlong)
      rw [hwhole, MsgHeader.deserialize_wire] at htype
      rw [hone, fence_reply_injective result success_flag htype]

/-- A request to switch off the node `n` with the secret `x`, as it is sent. -/
def off_request : Bytes :=
  [0, 0x81, 0, 26] ++ protocol.encode_fields [param_field protocol.NODENAME [0x6E], param_field protocol.SECRET [0x78]]

/-- The request is received in two pieces and carried out, and the reply is sent. -/
def off_request_run : List Action :=
  Action.startup ++ Action.accept_round 6 23 [] ++
    Action.round [6] [] [] [.visit 23 (.received (off_request.take 4))] ++
    Action.round [6] [] [] (Action.complete 23 none (off_request.drop 4)) ++ Action.work 0 23 true ++
    [.worker_hand_back_lock 0 23, .worker_hand_back 0 23] ++
    Action.round [4] [6] [.drain, .drain] [.visit 23 (.sent 4)]

/-- The server in the state that the request leads to. -/
theorem off_request_served : ∃ state : State BoundedBuffer, state.Reachable ∧
    (state.connector.history 0).received = off_request ∧ (state.connector.history 0).sent = [0, 0xA0, 0, 4] := by
  obtain ⟨state, hreachable, hserved⟩ := exists_reachesFrom_of_run
    (by decide +kernel : ((run State.step (State.initial BoundedBuffer (.filled 0xA5)) off_request_run).any fun state =>
      (state.connector.history 0).received = off_request ∧ (state.connector.history 0).sent = [0, 0xA0, 0, 4]) = true)
  exact ⟨state, hreachable, of_decide_eq_true hserved⟩

theorem fencing_faithful_off : ∃ (state : State BoundedBuffer) (object : ClientConnector),
    ClientConnector.connected.fence_action (ClientConnector.replying [[], [0, 0xA0, 0, 4]]) 8 .fence_action_off
        (from_c_str [0x6E] : BoundedBuffer) (from_c_str [0x78]) = some (object, .ok true) ∧
      (state.connector.history 0).calls = [({ function := .ufh_fence_off, nodename := [0x6E] }, true)] := by
  obtain ⟨state, hreachable, hreceived, hsent⟩ := off_request_served
  obtain ⟨⟨object, outcome⟩, hreturns, hclient⟩ := (Option.any_eq_true _ _).mp
    (by decide +kernel : ((ClientConnector.connected.fence_action
      (ClientConnector.replying [[], [0, 0xA0, 0, 4]]) 8 .fence_action_off (from_c_str [0x6E] : BoundedBuffer)
        (from_c_str [0x78])).any fun returned =>
          returned.2 = .ok true ∧ returned.1.sent = off_request ∧ returned.1.received = [0, 0xA0, 0, 4]) = true)
  simp only [Bool.decide_and, Bool.and_eq_true, decide_eq_true_eq] at hclient
  obtain ⟨rfl, hrequest, hreply⟩ := hclient
  have hadmissible : Admissible (from_c_str [0x6E] : BoundedBuffer) (from_c_str [0x78]) :=
    ⟨by decide, by decide, by decide, by decide, by decide⟩
  have hfresh : ClientConnector.connected.Fresh :=
    ⟨(ClientConnector.replying []).length_io_buffer, rfl, rfl⟩
  refine ⟨state, object, hreturns, ?_⟩
  exact (fencing_faithful hreachable 0 hfresh hadmissible .fence_action_off).2 8 object true hreturns
    (by rw [hreceived, hrequest]) (by rw [hsent, hreply])

end State

end ufh
