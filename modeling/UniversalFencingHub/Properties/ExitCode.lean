import UniversalFencingHub.Client.StandardInput
import UniversalFencingHub.Properties.ClientExit
import UniversalFencingHub.Properties.Fencing

open framing raising transition ufh.CharBuffer

namespace ufh

section

variable {frame : Frame} {record : History} {message : Message}

/-- A frame that fits into the receive buffer is received as one message. -/
theorem Frame.message_of_wire (hsize : frame.size ≤ NetClient.IO_BUFFER_SIZE) :
    ∃ message, next_message frame.wire = some (message, []) ∧ message.msg_type = frame.msg_type ∧
      message.contents.drop MsgHeader.HEADER_SIZE = frame.payload := by
  have hwire : frame.wire <+: frame.wire ++ [] := List.prefix_append _ _
  have hlength := frame.length_wire
  obtain ⟨message, hmessage, htype, _⟩ := Frame.receives_first hwire (by omega)
  rw [List.drop_eq_nil_of_le (by omega)] at hmessage
  have hcontents := next_message_contents _ _ _ hmessage
  rw [List.append_nil] at hcontents
  refine ⟨message, hmessage, htype, ?_⟩
  have hheader : MsgHeader.HEADER_SIZE = frame.header.wire.length := rfl
  rw [hcontents, Frame.wire, hheader, List.drop_left]

/-- On a connection that receives a single message, the server says what it says to this message. -/
theorem Recorded.single_message (h : Recorded record) {stream : Bytes}
    (hstream : next_message stream = some (message, [])) (hreceived : record.received <+: stream) :
    ∃ success_flag, record.dialogue <+: .message message :: message.response.events success_flag := by
  have hmessages := next_message_incremental.messages_prefix hreceived
  have hend : framing.messages next_message [] = [] := (messages_of_none (by rfl)).1
  rw [(next_message_incremental.messages_of_some hstream).1, hend, ← h.messages] at hmessages
  obtain ⟨success_flag, hdialogue⟩ := h.dialogue
  refine ⟨success_flag, ?_⟩
  obtain hnone | ⟨rest, hone, hrest⟩ := List.prefix_cons_iff.mp hmessages
  · rw [hnone] at hdialogue
    rw [List.prefix_nil.mp hdialogue]
    exact List.nil_prefix
  · rwa [hone, List.prefix_nil.mp hrest, dialogue_singleton] at hdialogue

/-- A message that is answered without the plugin, or not at all. -/
theorem said_without_call {said replies : List Event} (h : said <+: .message message :: replies)
    (hsilent : replies.filterMap Event.plugin_call = []) :
    said.filterMap Event.plugin_call = [] ∧ said.filterMap Event.sent_byte <+: replies.filterMap Event.sent_byte := by
  have hcalls := h.filterMap Event.plugin_call
  have hsent := h.filterMap Event.sent_byte
  refine ⟨List.prefix_nil.mp ?_, hsent⟩
  rw [← hsilent]
  exact hcalls

end

namespace client

section

variable {system : System} {fuel : Nat} {connector prepared sent object : ClientConnector} {frame : Frame}

/-- A frame is sent, and a message is received. -/
theorem ClientConnector.Fresh.exchange (hfresh : prepared.Fresh) (hheader : prepared.header = frame.header)
    (hsize : frame.size ≤ ClientConnector.IO_BUFFER_SIZE)
    (hbuffer : (frame.header.serialize prepared.io_buffer).take frame.size = frame.wire)
    (hsend : prepared.send_message system fuel = some (sent, .ok ()))
    (hreceive : sent.receive_message system fuel = some (object, .ok ())) :
    object.sent = frame.wire ∧ MsgHeader.HEADER_SIZE ≤ object.received.length ∧
      object.header = MsgHeader.deserialize object.received := by
  have hlength := frame.header_length
  have hleast := frame.size_ge
  have hmessage : prepared.message_length = frame.size := by
    unfold ClientConnector.message_length
    rw [hheader, hlength, Nat.max_eq_right hleast, Nat.min_eq_left hsize]
  obtain ⟨_, hnothing, _, hwhole, _⟩ := ClientConnector.send_message_spec hsend
  obtain ⟨message, htaken, hkept, hlong, hdecoded, _⟩ := ClientConnector.receive_message_spec hreceive
  rw [hfresh.sent, List.nil_append, hmessage, hheader, hbuffer] at hwhole
  rw [hnothing, hfresh.received, List.nil_append] at htaken
  rw [htaken]
  exact ⟨hkept.trans hwhole, hlong, hdecoded⟩

/-- When `check_connection` has been successful, it has sent an echo request and received an echo reply. -/
theorem ClientConnector.check_connection_returns (hfresh : connector.Fresh)
    (hrun : connector.check_connection system fuel = some (object, .ok true)) :
    ∃ frame : Frame, frame.msg_type = protocol.MsgType.ECHO_REQUEST.value ∧
      frame.size ≤ NetClient.IO_BUFFER_SIZE ∧ object.sent = frame.wire ∧
      MsgHeader.HEADER_SIZE ≤ object.received.length ∧
      (MsgHeader.deserialize object.received).msg_type = protocol.MsgType.ECHO_REPLY.value := by
  let frame : Frame := { msg_type := protocol.MsgType.ECHO_REQUEST.value, payload := [], fits := by decide }
  have hbuffer := hfresh.io_buffer
  unfold ClientConnector.check_connection at hrun
  obtain ⟨sent, ⟨⟩, hsend, hrun⟩ := next_eq_ok hrun
  obtain ⟨received, ⟨⟩, hreceive, hrun⟩ := next_eq_ok hrun
  obtain ⟨rfl, hreply⟩ := Prod.mk.inj (Option.some.inj hrun)
  have htype : received.header.msg_type = protocol.MsgType.ECHO_REPLY.value := eq_of_beq (Except.ok.inj hreply)
  have hwire : (frame.header.serialize connector.io_buffer).take frame.size = frame.wire := by
    rw [frame.header.serialize_eq (by rw [hbuffer]; decide), Frame.wire, List.append_nil]
    exact List.take_left' (MsgHeader.length_wire _)
  have hprepared : { connector with header := frame.header }.Fresh := ⟨hbuffer, hfresh.sent, hfresh.received⟩
  obtain ⟨hsent, hlong, hheader⟩ := hprepared.exchange rfl (by decide) hwire hsend hreceive
  exact ⟨frame, rfl, by decide, hsent, hlong, by rw [← hheader, htype]⟩

end

section

variable {Buf : Type} [CharBuffer Buf] [LawfulCharBuffer Buf] {system : System} {fuel : Nat}
  {connector object : ClientConnector} {method : Server.FenceActionMethod} {nodename secret : Buf}

/-- The payload of a request asks for fencing the node, if it has a name. -/
theorem parse_request_sent (hnodename : (contents nodename).length ≤ 255) (htext : 0 ∉ contents nodename)
    (hsecret : (contents secret).length ≤ 64) (htext' : 0 ∉ contents secret) :
    protocol.parse_request (protocol.encode_fields (request_fields nodename secret)) =
      if contents nodename = [] then .no_nodename else .fence (contents nodename) (contents secret) := by
  by_cases hnamed : contents nodename = []
  · have hkey : protocol.SPLIT_BYTE ∉ protocol.NODENAME := by decide
    have hkey' : protocol.SPLIT_BYTE ∉ protocol.SECRET := by decide
    have hother : protocol.SECRET ≠ protocol.NODENAME := by decide
    have hfields : request_fields nodename secret =
        [param_field protocol.NODENAME [], param_field protocol.SECRET (contents secret)] := by
      rw [request_fields, request_param_eq _ htext, request_param_eq _ htext', hnamed]
    have hshort := (request_fields_fit hnodename hsecret).1
    have hsplit : ∀ field ∈ request_fields nodename secret, protocol.SPLIT_BYTE ∈ field := by
      simp [hfields, param_field]
    have hfits : ((request_fields nodename secret).map fun field =>
        (protocol.field_key field, protocol.field_value field)).any protocol.oversized = false := by
      rw [protocol.oversized_eq_false, hfields]
      simp only [List.forall_mem_cons, List.not_mem_nil, false_implies, implies_true, and_true,
        field_value_param _ hkey, field_key_param _ hkey', field_key_param _ hkey, field_value_param _ hkey']
      exact ⟨⟨fun _ => Nat.zero_le _, fun heq => absurd heq hother⟩, fun heq => absurd heq hother.symm,
        fun _ => hsecret⟩
    rw [protocol.parse_request, protocol.leading_pairs_encode hshort hsplit le_rfl, if_pos hnamed]
    simp only [hfits, protocol.last_value_eq, Bool.false_eq_true, if_false, Bool.not_true]
    rw [hfields, List.filter_cons_of_pos (by simp [field_key_param, hkey]),
      List.filter_cons_of_neg (by simp [field_key_param, hkey', hother])]
    simp [field_value_param, hkey]
  · rw [if_neg hnamed]
    exact parse_request_fields ⟨hnamed, hnodename, htext, hsecret, htext'⟩

/-- When a request for fencing returns, its frame has been sent, and the received bytes start with the header of
a reply that says what is returned. -/
theorem ClientConnector.fence_action_sends (hfresh : connector.Fresh) (hnodename : (contents nodename).length ≤ 255)
    (hsecret : (contents secret).length ≤ 64) {result : Bool}
    (hrun : connector.fence_action system fuel method nodename secret = some (object, .ok result)) :
    ∃ frame : Frame, frame.msg_type = method.msg_type.value ∧
      frame.payload = protocol.encode_fields (request_fields nodename secret) ∧
      frame.size ≤ NetClient.IO_BUFFER_SIZE ∧ object.sent = frame.wire ∧
      MsgHeader.HEADER_SIZE ≤ object.received.length ∧
      (MsgHeader.deserialize object.received).msg_type = (NetClient.fence_reply result).value := by
  have hfits := request_fields_fit hnodename hsecret
  have hlength := hfits.2
  have hbuffer := hfresh.io_buffer
  unfold ClientConnector.IO_BUFFER_SIZE MsgHeader.HEADER_SIZE at hlength
  let frame : Frame :=
    { msg_type := method.msg_type.value
      payload := protocol.encode_fields (request_fields nodename secret)
      fits := by
        unfold MsgHeader.HEADER_SIZE
        omega }
  have hsize : frame.size ≤ 1024 := by
    unfold Frame.size MsgHeader.HEADER_SIZE
    simp only [frame]
    omega
  have hroom : MsgHeader.HEADER_SIZE + frame.payload.length ≤ connector.io_buffer.length := by
    rw [hbuffer]
    exact hsize
  rw [fence_action_eq] at hrun
  unfold fence_action_impl at hrun
  simp only at hrun
  split at hrun
  · cases hrun
  · split at hrun
    · next prepared hwrite =>
      obtain rfl := Except.ok.inj (hwrite.symm.trans (write_request_ok hbuffer hfits))
      obtain ⟨sent, ⟨⟩, hsend, hrun⟩ := next_eq_ok hrun
      obtain ⟨received, ⟨⟩, hreceive, hrun⟩ := next_eq_ok hrun
      have hprepared : { connector with
          io_buffer := store connector.io_buffer MsgHeader.HEADER_SIZE frame.payload
          header := frame.header }.Fresh := ⟨(length_store hroom).trans hbuffer, hfresh.sent, hfresh.received⟩
      obtain ⟨hsent, hlong, hheader⟩ := hprepared.exchange rfl hsize (take_serialize _ hroom) hsend hreceive
      have hreply : received = object ∧ received.header.msg_type = (NetClient.fence_reply result).value := by
        split at hrun
        · next htype =>
          cases hrun
          exact ⟨rfl, eq_of_beq htype⟩
        · split at hrun
          · next htype =>
            cases hrun
            exact ⟨rfl, eq_of_beq htype⟩
          · cases hrun
      obtain ⟨rfl, htype⟩ := hreply
      exact ⟨frame, rfl, rfl, hsize, hsent, hlong, by rw [← hheader, htype]⟩
    · cases hrun

/-- What the server has received on a connection was sent by the object, and what the object has received was
sent by the server. -/
structure ClientConnector.Wired (object : ClientConnector) (record : History) : Prop where
  request : record.received <+: object.sent
  reply : object.received <+: record.sent

variable {record : History}

omit [CharBuffer Buf] [LawfulCharBuffer Buf] in
/-- A connection has been checked: the server has replied, and the plugin was not called. -/
theorem ClientConnector.Wired.checked (hwired : object.Wired record) (h : Recorded record) (hfresh : connector.Fresh)
    (hrun : connector.check_connection system fuel = some (object, .ok true)) :
    record.calls = [] ∧ record.sent =
      ({ msg_type := protocol.MsgType.ECHO_REPLY.value
         data_length := MsgHeader.HEADER_SIZE.toUInt16 } : MsgHeader).wire := by
  obtain ⟨frame, hframe, hsize, hsent, hlong, htype⟩ := check_connection_returns hfresh hrun
  obtain ⟨message, hmessage, hkind, _⟩ := Frame.message_of_wire hsize
  have hrequest := hwired.request
  rw [hsent] at hrequest
  obtain ⟨success_flag, hdialogue⟩ := h.single_message hmessage hrequest
  have hresponse : message.response = .echo := by
    unfold Message.response
    rw [hkind, hframe, if_pos rfl]
  rw [hresponse] at hdialogue
  obtain ⟨hsilent, hreply⟩ := reply_events_sent .ECHO_REPLY
  obtain ⟨hcalls, hanswer⟩ := said_without_call hdialogue hsilent
  change record.sent <+: _ at hanswer
  rw [Response.events, hreply] at hanswer
  refine ⟨hcalls, hanswer.eq_of_length_le ?_⟩
  rw [MsgHeader.length_wire]
  exact hlong.trans hwired.reply.length_le

/-- A request for fencing has been answered: the plugin was called once, as requested, and its result is what is
returned. -/
theorem ClientConnector.Wired.fenced (hwired : object.Wired record) (h : Recorded record) (hfresh : connector.Fresh)
    (hnodename : (contents nodename).length ≤ 255) (htext : 0 ∉ contents nodename)
    (hsecret : (contents secret).length ≤ 64) (htext' : 0 ∉ contents secret) {result : Bool}
    (hrun : connector.fence_action system fuel method nodename secret = some (object, .ok result)) :
    record.calls = [({ function := method.plugin_function, nodename := contents nodename }, result)] := by
  obtain ⟨frame, hframe, hpayload, hsize, hsent, hlong, htype⟩ := fence_action_sends hfresh hnodename hsecret hrun
  obtain ⟨message, hmessage, hkind, hcontents⟩ := Frame.message_of_wire hsize
  obtain ⟨hecho, hmethod⟩ := Server.fence_method_msg_type method
  have hrequest := hwired.request
  have hreply := hwired.reply
  rw [hsent] at hrequest
  have hnothing : record.sent ≠ [] := by
    intro hnone
    rw [hnone, List.prefix_nil] at hreply
    rw [hreply] at hlong
    exact absurd hlong (by decide)
  have hresponse : message.response = if contents nodename = [] then .hang_up
      else .fence method (contents nodename) (contents secret) := by
    unfold Message.response
    rw [hkind, hframe, if_neg hecho, hmethod, hcontents, hpayload, parse_request_sent hnodename htext hsecret htext']
    by_cases hnamed : contents nodename = []
    · simp only [if_pos hnamed]
    · simp only [if_neg hnamed]
  by_cases hnamed : contents nodename = []
  · rw [if_pos hnamed] at hresponse
    obtain ⟨success_flag, hdialogue⟩ := h.single_message hmessage hrequest
    rw [hresponse] at hdialogue
    exact absurd (List.prefix_nil.mp (said_without_call hdialogue rfl).2) hnothing
  · rw [if_neg hnamed] at hresponse
    obtain ⟨_, hnone⟩ | ⟨success_flag, hone, hanswer⟩ := h.single_request hmessage hrequest hresponse
    · exact absurd hnone hnothing
    · have hwire := hreply.trans hanswer
      have hwhole := hwire.eq_of_length_le (by rw [MsgHeader.length_wire]; exact hlong)
      rw [hwhole, MsgHeader.deserialize_wire] at htype
      rw [hone, fence_reply_injective success_flag result htype]

end

namespace Client

open ClientParameters Arguments

section

variable {Buf : Type} [CharBuffer Buf] [QTree Buf] {system : System} {fuel : Nat} {params : ArgMap Buf}

/-- The action that asks for a method. -/
def action_of : Server.FenceActionMethod → Bytes
  | .fence_action_off => ACTION_OFF
  | .fence_action_on => ACTION_ON
  | .fence_action_reboot => ACTION_REBOOT

/-- The client has connected itself and checked the connection. -/
def Checks (system : System) (fuel : Nat) (params : ArgMap Buf) (object : ClientConnector) : Prop :=
  ∃ required connector connected, require system params connection_keys = .ok required ∧
    init_connector system required = .ok connector ∧ connector.connect_to_server system = .ok connected ∧
    connected.check_connection system fuel = some (object, .ok true)

/-- The client has connected itself and called a method with the node name and the secret. -/
def Calls (system : System) (fuel : Nat) (params : ArgMap Buf) (method : Server.FenceActionMethod)
    (object : ClientConnector) : Prop :=
  ∃ connector action nodename secret,
    prepare_fence_action system params = .ok (connector, action, nodename, secret) ∧
    connector.fence_action system fuel method nodename secret = some (object, .ok true)

theorem connect_fresh {connector connected : ClientConnector} (hinit : init_connector system params = .ok connector)
    (hconnect : connector.connect_to_server system = .ok connected) : connected.Fresh := by
  have hnew : connector.sent = [] ∧ connector.received = [] := by
    unfold init_connector at hinit
    obtain ⟨_, _, hinit⟩ := bind_eq_ok.mp hinit
    obtain ⟨_, _, hinit⟩ := bind_eq_ok.mp hinit
    obtain ⟨_, _, hinit⟩ := bind_eq_ok.mp hinit
    obtain ⟨_, _, hinit⟩ := bind_eq_ok.mp hinit
    obtain ⟨_, _, hinit⟩ := bind_eq_ok.mp hinit
    cases hinit
    exact ⟨rfl, rfl⟩
  have hkept : connected.sent = connector.sent ∧ connected.received = connector.received := by
    unfold ClientConnector.connect_to_server at hconnect
    simp only at hconnect
    split at hconnect
    · cases hconnect
    · split at hconnect
      · split at hconnect
        · cases hconnect
        · cases hconnect
          exact ⟨rfl, rfl⟩
      · cases hconnect
  refine ⟨?_, hkept.1.trans hnew.1, hkept.2.trans hnew.2⟩
  rw [io_buffer_connect hconnect, io_buffer_init_connector hinit, system.length_io_buffer]

theorem exit_code_of {success : Bool} (h : ExitCode.of success = .FENCING_SUCCESS) : success = true := by
  cases success with
  | true => rfl
  | false => cases h

variable [LawfulCharBuffer Buf]

omit [QTree Buf] in
theorem method_of_type {action : Buf} {msg_type : protocol.MsgType} (h : request_type action = some msg_type) :
    ∃ method : Server.FenceActionMethod, contents action = action_of method ∧ msg_type = method.msg_type := by
  unfold request_type at h
  simp only [LawfulCharBuffer.equals_iff] at h
  split at h
  · next haction =>
    cases h
    exact ⟨.fence_action_off, haction, rfl⟩
  · split at h
    · next haction =>
      cases h
      exact ⟨.fence_action_on, haction, rfl⟩
    · split at h
      · next haction =>
        cases h
        exact ⟨.fence_action_reboot, haction, rfl⟩
      · cases h

/-- A fencing action is successful when the call of its method is. -/
theorem calls_of_success (hfence : fence_action system fuel params = some (.ok true)) :
    ∃ connector action nodename secret method object,
      prepare_fence_action system params = .ok (connector, action, nodename, secret) ∧
      contents action = action_of method ∧
      connector.fence_action system fuel method nodename secret = some (object, .ok true) := by
  rw [fence_action_eq] at hfence
  obtain ⟨⟨connector, action, nodename, secret⟩, hprepare, hfence⟩ := attempt_eq_ok.mp hfence
  simp only at hfence
  split at hfence
  · next msg_type htype =>
    obtain ⟨method, haction, rfl⟩ := method_of_type htype
    obtain ⟨⟨object, result⟩, hrun, hresult⟩ := Option.map_eq_some_iff.mp hfence
    cases hresult
    rw [← ClientConnector.fence_action_eq] at hrun
    exact ⟨connector, action, nodename, secret, method, object, Option.some.inj hprepare, haction, hrun⟩
  · unfold throw_client Attempt.of at hfence
    split at hfence
    · cases hfence
    · cases hfence

omit [LawfulCharBuffer Buf] in
/-- The object is connected, and the values are those of the arguments. -/
theorem prepare_fence_action_ok {connector : ClientConnector} {action nodename secret : Buf}
    (hprepare : prepare_fence_action system params = .ok (connector, action, nodename, secret)) :
    ∃ required, require system params (connection_keys ++ [KEY_NODENAME, KEY_SECRET]) = .ok required ∧
      connector.Fresh ∧ get_value system required KEY_ACTION = .ok action ∧
      get_value system required KEY_NODENAME = .ok nodename ∧ get_value system required KEY_SECRET = .ok secret := by
  unfold prepare_fence_action at hprepare
  obtain ⟨required, hrequire, hprepare⟩ := bind_eq_ok.mp hprepare
  obtain ⟨fresh, hinit, hprepare⟩ := bind_eq_ok.mp hprepare
  obtain ⟨connected, hconnect, hprepare⟩ := bind_eq_ok.mp hprepare
  obtain ⟨action, haction, hprepare⟩ := bind_eq_ok.mp hprepare
  obtain ⟨nodename, hnodename, hprepare⟩ := bind_eq_ok.mp hprepare
  obtain ⟨secret, hsecret, hprepare⟩ := bind_eq_ok.mp hprepare
  cases hprepare
  exact ⟨required, hrequire, connect_fresh hinit hconnect, haction, hnodename, hsecret⟩

/-- What the client does when it reports success. -/
theorem dispatch_success (hdispatch : dispatch_request system fuel params = some (.ok .FENCING_SUCCESS)) :
    check_required system params = .ok () ∧ ∃ action, get_value system params KEY_ACTION = .ok action ∧
      (contents action ∈ [ACTION_METADATA, ACTION_START, ACTION_STOP] ∨
        contents action ∈ [ACTION_LIST, ACTION_MONITOR, ACTION_STATUS] ∧
          check_server_connection system fuel params = some (.ok true) ∨
        fence_action system fuel params = some (.ok true)) := by
  unfold dispatch_request at hdispatch
  obtain ⟨_, hcheck, hdispatch⟩ := attempt_eq_ok.mp hdispatch
  obtain ⟨action, haction, hdispatch⟩ := attempt_eq_ok.mp hdispatch
  refine ⟨Option.some.inj hcheck, action, Option.some.inj haction, ?_⟩
  simp only [Bool.or_eq_true, LawfulCharBuffer.equals_iff] at hdispatch
  split at hdispatch
  · obtain ⟨success, hfence, hcode⟩ := attempt_eq_ok.mp hdispatch
    have hsuccess := exit_code_of (Except.ok.inj (Option.some.inj hcode))
    rw [hsuccess] at hfence
    exact Or.inr (Or.inr hfence)
  · split at hdispatch
    · next hmetadata =>
      simp [hmetadata]
    · split at hdispatch
      · next hchecks =>
        obtain ⟨success, hchecked, hcode⟩ := attempt_eq_ok.mp hdispatch
        have hsuccess := exit_code_of (Except.ok.inj (Option.some.inj hcode))
        rw [hsuccess] at hchecked
        refine Or.inr (Or.inl ⟨?_, hchecked⟩)
        rw [or_assoc] at hchecks
        simpa using hchecks
      · split at hdispatch
        · next hstarts =>
          left
          simp [hstarts]
        · unfold throw_client Attempt.of at hdispatch
          split at hdispatch
          · cases hdispatch
          · cases hdispatch

end

section

variable {Buf : Type} [TextBuffer Buf] [QTree Buf] {system : System} {fuel : Nat} {stdin : Istream}
  {params : ArgMap Buf}

/-- What it means that the client reports success: the action needs no server, or the server has answered the check
of the connection, or the plugin has carried out the action. -/
inductive Truthful (Buf : Type) [TextBuffer Buf] [QTree Buf] (system : System) (fuel : Nat) (stdin : Istream) : Prop
  | unconnected (haccepted : Accepted entries [KEY_ACTION] stdin.arguments)
      (haction : given_value stdin.arguments KEY_ACTION ∈ [ACTION_METADATA, ACTION_START, ACTION_STOP])
  | checked {params : ArgMap Buf} {object : ClientConnector}
      (haccepted : Accepted entries (KEY_ACTION :: connection_keys) stdin.arguments)
      (haction : given_value stdin.arguments KEY_ACTION ∈ [ACTION_LIST, ACTION_MONITOR, ACTION_STATUS])
      (hreads : Reads system stdin params) (hchecks : Checks system fuel params object)
      (hserver : ∀ (state : State Buf) (connection : Nat), state.Reachable →
        object.Wired (state.connector.history connection) →
        (state.connector.history connection).calls = [] ∧ (state.connector.history connection).sent =
          ({ msg_type := protocol.MsgType.ECHO_REPLY.value
             data_length := MsgHeader.HEADER_SIZE.toUInt16 } : MsgHeader).wire)
  | fenced {params : ArgMap Buf} {method : Server.FenceActionMethod} {object : ClientConnector}
      (haccepted : Accepted entries (KEY_ACTION :: (connection_keys ++ [KEY_NODENAME, KEY_SECRET])) stdin.arguments)
      (haction : given_value stdin.arguments KEY_ACTION = action_of method)
      (hreads : Reads system stdin params) (hcalls : Calls system fuel params method object)
      (hserver : ∀ (state : State Buf) (connection : Nat), state.Reachable →
        object.Wired (state.connector.history connection) →
        (state.connector.history connection).calls = [({ function := method.plugin_function
                                                         nodename := given_value stdin.arguments KEY_NODENAME }, true)])

variable [LawfulTextBuffer Buf] [LawfulQTree Buf]

/-- The parameters that have been read are the arguments of standard input. -/
theorem stores_of_reads (h : Reads system stdin params) :
    Fitting entries [] stdin.arguments ∧ Stores params entries [KEY_ACTION] stdin.arguments := by
  obtain ⟨_, arg_map, fuel, hinitialize, hread⟩ := h
  have hstores := stores_initialize_entries hinitialize
  unfold read_parameters at hread
  split at hread
  · obtain ⟨hfitting, hall⟩ := stores_run hstores (by decide) List.nodup_nil hread
    exact ⟨hfitting, hall⟩
  · cases hread

omit [LawfulTextBuffer Buf] [LawfulQTree Buf] in
theorem run_eq_ok {instance_rc : ExitCode} (hrun : run Buf system fuel stdin = some (.ok instance_rc)) :
    ∃ params : ArgMap Buf, Reads system stdin params ∧
      dispatch_request system fuel params = some (.ok instance_rc) := by
  unfold run at hrun
  obtain ⟨_, hallocate, hrun⟩ := attempt_eq_ok.mp hrun
  obtain ⟨arg_map, hinitialize, hrun⟩ := attempt_eq_ok.mp hrun
  obtain ⟨params, hread, hdispatch⟩ := attempt_eq_ok.mp hrun
  have hallocates : system.allocates .parameters = true := by
    have hallocated := Option.some.inj hallocate
    unfold allocate at hallocated
    split at hallocated
    · next hallocates => exact hallocates
    · cases hallocated
  exact ⟨params, ⟨hallocates, arg_map, fuel, Option.some.inj hinitialize, hread⟩, hdispatch⟩

omit [LawfulTextBuffer Buf] [LawfulQTree Buf] in
theorem run_of_main (hexit : main Buf system fuel stdin = some (.ok ExitCode.FENCING_SUCCESS.value)) :
    run Buf system fuel stdin = some (.ok .FENCING_SUCCESS) := by
  cases hrun : run Buf system fuel stdin with
  | none =>
    rw [main, hrun] at hexit
    cases hexit
  | some result =>
    cases result with
    | ok instance_rc =>
      rw [main, hrun] at hexit
      cases instance_rc with
      | FENCING_SUCCESS => rfl
      | FENCING_FAILURE => cases hexit
    | error exc =>
      rw [main_of_error hrun] at hexit
      split at hexit
      · cases hexit
      · cases hexit

/-- The arguments that an action requires are accepted. -/
theorem accepted_of_require (hreads : Reads system stdin params) {more : List Bytes} {required : ArgMap Buf}
    (hmore : ∀ key ∈ more, key ∈ entries.map Prod.fst) (hrequire : require system params more = .ok required) :
    Accepted entries (KEY_ACTION :: more) stdin.arguments ∧
      Stores required entries (KEY_ACTION :: more) stdin.arguments ∧ WithinLimits required := by
  obtain ⟨hfitting, hstores⟩ := stores_of_reads hreads
  have hall := hstores.require hmore hrequire
  have hkeys : ∀ key ∈ [KEY_ACTION] ++ more, key ∈ entries.map Prod.fst := by
    intro key hkey
    obtain hfirst | hkey := List.mem_append.mp hkey
    · rw [List.mem_singleton.mp hfirst]
      decide
    · exact hmore key hkey
  have hchecked := (hall.check_required hkeys).mp (mark_all_of_require hrequire).2
  exact ⟨⟨hfitting, hchecked⟩, hall, (within_limits_of_reads hreads).require hrequire⟩

/-- When the client ends with the exit code for success, this is true of the server, too. -/
theorem exit_code_truthful (hexit : main Buf system fuel stdin = some (.ok ExitCode.FENCING_SUCCESS.value)) :
    Truthful Buf system fuel stdin := by
  obtain ⟨params, hreads, hdispatch⟩ := run_eq_ok (run_of_main hexit)
  obtain ⟨hfitting, hstores⟩ := stores_of_reads hreads
  obtain ⟨hcheck, action, hget, hdone⟩ := dispatch_success hdispatch
  have hvalue := hstores.value_of (by decide) hget
  rw [hvalue] at hdone
  obtain haction | ⟨haction, hchecked⟩ | hfence := hdone
  · exact .unconnected ⟨hfitting, (hstores.check_required (by decide)).mp hcheck⟩ haction
  · unfold check_server_connection at hchecked
    obtain ⟨required, hrequire, hchecked⟩ := attempt_eq_ok.mp hchecked
    obtain ⟨connector, hinit, hchecked⟩ := attempt_eq_ok.mp hchecked
    obtain ⟨connected, hconnect, hchecked⟩ := attempt_eq_ok.mp hchecked
    obtain ⟨⟨object, result⟩, hrun, hresult⟩ := Option.map_eq_some_iff.mp hchecked
    cases hresult
    have hrequired := Option.some.inj hrequire
    have hfresh := connect_fresh (Option.some.inj hinit) (Option.some.inj hconnect)
    obtain ⟨haccepted, _, _⟩ := accepted_of_require hreads (by decide) hrequired
    refine .checked haccepted haction hreads
      ⟨required, connector, connected, hrequired, Option.some.inj hinit, Option.some.inj hconnect, hrun⟩ ?_
    exact fun state connection hreachable hwired =>
      hwired.checked (State.Reachable.recorded hreachable connection) hfresh hrun
  · obtain ⟨connector, chosen, nodename, secret, method, object, hprepare, hmethod, hrun⟩ := calls_of_success hfence
    obtain ⟨required, hrequire, hfresh, hchosen, hnodename, hsecret⟩ := prepare_fence_action_ok hprepare
    obtain ⟨haccepted, hall, hwithin⟩ := accepted_of_require hreads (by decide) hrequire
    have hnode := hall.value_of (by decide) hnodename
    have hpass := hall.value_of (by decide) hsecret
    have htext := Istream.nul_not_mem_given_value stdin KEY_NODENAME
    have htext' := Istream.nul_not_mem_given_value stdin KEY_SECRET
    rw [← hnode] at htext
    rw [← hpass] at htext'
    refine .fenced haccepted ((hall.value_of (by decide) hchosen).symm.trans hmethod) hreads
      ⟨connector, chosen, nodename, secret, hprepare, hrun⟩ (fun state connection hreachable hwired => ?_)
    rw [← hnode]
    exact hwired.fenced (State.Reachable.recorded hreachable connection) hfresh (hwithin.get_value hnodename) htext
      (hwithin.get_value hsecret) htext' hrun

end

section

variable {Buf : Type} [TextBuffer Buf] [QTree Buf] {system : System} {fuel : Nat} {stdin : Istream}
  {params other : ArgMap Buf}

theorem Reads.unique (h : Reads system stdin params) (hother : Reads system stdin other) : params = other := by
  obtain ⟨_, arg_map, fuel, hentries, hread⟩ := h
  obtain ⟨_, other_map, more, hother, hother_read⟩ := hother
  obtain rfl := Except.ok.inj (hentries.symm.trans hother)
  exact Except.ok.inj (read_parameters_unique hread hother_read)

theorem Calls.unique {method : Server.FenceActionMethod} {object other_object : ClientConnector}
    (h : Calls system fuel params method object) (hother : Calls system fuel params method other_object) :
    object = other_object := by
  obtain ⟨_, _, _, _, hprepare, hrun⟩ := h
  obtain ⟨_, _, _, _, hother, hother_run⟩ := hother
  cases hprepare.symm.trans hother
  cases hrun.symm.trans hother_run
  rfl

end

/-- What the client has read, and what it has exchanged with the server. -/
theorem fence_arguments_exchanged : ∃ (params : ArgMap BoundedBuffer) (object : ClientConnector),
    Reads (ClientConnector.replying [[], [0, 0xA0], [0, 4]]) fence_arguments params ∧
      Calls (ClientConnector.replying [[], [0, 0xA0], [0, 4]]) 10 params .fence_action_off object ∧
      object.sent = State.off_request ∧ object.received = [0, 0xA0, 0, 4] :=
  ⟨_, _, ⟨rfl, _, 10, rfl, rfl⟩, ⟨_, _, _, _, rfl, rfl⟩, rfl, rfl⟩

/-- The client asks for switching off a node, the server has done so, and the client is told. -/
theorem exit_code_truthful_off : ∃ (object : ClientConnector) (state : State BoundedBuffer),
    state.Reachable ∧ object.Wired (state.connector.history 0) ∧
      (∃ params : ArgMap BoundedBuffer,
        Reads (ClientConnector.replying [[], [0, 0xA0], [0, 4]]) fence_arguments params ∧
          Calls (ClientConnector.replying [[], [0, 0xA0], [0, 4]]) 10 params .fence_action_off object) ∧
      (state.connector.history 0).calls =
        [({ function := .ufh_fence_off, nodename := given_value fence_arguments.arguments KEY_NODENAME }, true)] := by
  obtain ⟨state, hreachable, hreceived, hsent⟩ := State.off_request_served
  have htruthful := exit_code_truthful main_fence_arguments
  cases htruthful with
  | unconnected _ haction => exact absurd haction (by decide)
  | checked _ haction => exact absurd haction (by decide)
  | @fenced params method object _ haction hreads hcalls hserver =>
    cases method with
    | fence_action_on => exact absurd haction (by decide)
    | fence_action_reboot => exact absurd haction (by decide)
    | fence_action_off =>
      obtain ⟨params', object', hreads', hcalls', hrequest, hreply⟩ := fence_arguments_exchanged
      obtain rfl := hreads.unique hreads'
      obtain rfl := hcalls.unique hcalls'
      have hwired : object.Wired (state.connector.history 0) :=
        ⟨by rw [hreceived, hrequest], by rw [hsent, hreply]⟩
      exact ⟨object, state, hreachable, hwired, ⟨params, hreads, hcalls⟩, hserver state 0 hreachable hwired⟩

end Client

end client

end ufh
