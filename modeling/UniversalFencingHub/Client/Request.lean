import UniversalFencingHub.Client.Parameters
import UniversalFencingHub.Client.Reply
import UniversalFencingHub.Shared.WireFormat

open raising ufh.CharBuffer

namespace ufh

namespace client

theorem io_buffer_connect {system : System} {connector after : ClientConnector}
    (hconnect : connector.connect_to_server system = .ok after) : after.io_buffer = connector.io_buffer := by
  unfold ClientConnector.connect_to_server at hconnect
  simp only at hconnect
  split at hconnect
  · cases hconnect
  · split at hconnect
    · split at hconnect
      · cases hconnect
      · cases hconnect
        rfl
    · cases hconnect

section

variable {Buf : Type} [CharBuffer Buf]

/-- The fields of a fencing request. -/
def request_fields (nodename secret : Buf) : List Bytes :=
  [ClientConnector.request_param protocol.NODENAME nodename, ClientConnector.request_param protocol.SECRET secret]

/-- The type of the message that asks for an action. -/
def request_type (action : Buf) : Option protocol.MsgType :=
  if equals action ClientParameters.ACTION_OFF then some .FENCE_OFF
  else if equals action ClientParameters.ACTION_ON then some .FENCE_ON
  else if equals action ClientParameters.ACTION_REBOOT then some .FENCE_REBOOT
  else none

variable [LawfulCharBuffer Buf]

theorem length_request_param (key : Bytes) (value : Buf) :
    (ClientConnector.request_param key value).length ≤ key.length + 1 + (contents value).length := by
  have hvalue := (List.takeWhile_prefix (fun byte : UInt8 => decide (byte ≠ 0)) (l := contents value)).length_le
  have hsplit : ClientConnector.c_str (contents (protocol.KEY_VALUE_SPLIT_SEQ : Buf)) = [protocol.SPLIT_BYTE] := by
    rw [protocol.KEY_VALUE_SPLIT_SEQ, LawfulCharBuffer.contents_from_c_str]
    rfl
  simp only [ClientConnector.request_param, hsplit, List.length_append, List.length_singleton]
  exact Nat.add_le_add_left hvalue _

/-- A node name and a secret that keep to their limits fit into a message. -/
theorem request_fields_fit {nodename secret : Buf}
    (hnodename : (contents nodename).length ≤ ClientParameters.NODENAME_PARAM_SIZE)
    (hsecret : (contents secret).length ≤ ClientParameters.SECRET_PARAM_SIZE) :
    protocol.FieldsFit (request_fields nodename secret) (ClientConnector.IO_BUFFER_SIZE - MsgHeader.HEADER_SIZE) := by
  have hlongNode := length_request_param protocol.NODENAME nodename
  have hlongSecret := length_request_param protocol.SECRET secret
  simp only [ClientParameters.NODENAME_PARAM_SIZE, ClientParameters.SECRET_PARAM_SIZE, protocol.NODENAME,
    protocol.SECRET, List.length_cons, List.length_nil] at hnodename hsecret hlongNode hlongSecret
  constructor
  · simp only [request_fields, List.forall_mem_cons, List.not_mem_nil, false_implies, implies_true, and_true]
    simp only [protocol.NODENAME, protocol.SECRET]
    constructor
    · omega
    · omega
  · simp only [request_fields, protocol.encode_fields_cons, protocol.encode_fields_nil, List.length_append,
      protocol.length_encode_field, List.length_nil, ClientConnector.IO_BUFFER_SIZE, MsgHeader.HEADER_SIZE]
    simp only [protocol.NODENAME, protocol.SECRET]
    omega

omit [LawfulCharBuffer Buf] in
/-- Writing the parameters of a request is writing two fields. -/
theorem write_request_eq (connector : ClientConnector) (nodename secret : Buf) :
    connector.write_request nodename secret =
      match protocol.write_fields connector.io_buffer ClientConnector.IO_BUFFER_SIZE MsgHeader.HEADER_SIZE
        (request_fields nodename secret) with
      | .ok (offset, io_buffer) =>
        .ok { connector with io_buffer, header := { connector.header with data_length := offset.toUInt16 } }
      | .error exc => .error exc := by
  unfold ClientConnector.write_request request_fields
  simp only [protocol.write_fields]
  cases protocol.write_field connector.io_buffer ClientConnector.IO_BUFFER_SIZE MsgHeader.HEADER_SIZE
    (ClientConnector.request_param protocol.NODENAME nodename) with
  | error exc => rfl
  | ok written =>
    simp only
    cases protocol.write_field written.2 ClientConnector.IO_BUFFER_SIZE written.1
      (ClientConnector.request_param protocol.SECRET secret) with
    | error exc => rfl
    | ok written => rfl

omit [LawfulCharBuffer Buf] in
/-- A request that fits is written behind the header. -/
theorem write_request_ok {connector : ClientConnector} {nodename secret : Buf}
    (hsize : connector.io_buffer.length = ClientConnector.IO_BUFFER_SIZE)
    (hfits : protocol.FieldsFit (request_fields nodename secret)
        (ClientConnector.IO_BUFFER_SIZE - MsgHeader.HEADER_SIZE)) :
    connector.write_request nodename secret = .ok
      { connector with
        io_buffer := store connector.io_buffer MsgHeader.HEADER_SIZE
          (protocol.encode_fields (request_fields nodename secret))
        header :=
          { connector.header with
            data_length := (MsgHeader.HEADER_SIZE +
              (protocol.encode_fields (request_fields nodename secret)).length).toUInt16 } } := by
  rw [write_request_eq, protocol.write_fields_ok (le_of_eq hsize.symm) hfits]

omit [LawfulCharBuffer Buf] in
theorem io_buffer_init_connector [QTree Buf] {system : System} {params : ArgMap Buf} {connector : ClientConnector}
    (hinit : Client.init_connector system params = .ok connector) :
    connector.io_buffer = system.io_buffer := by
  unfold Client.init_connector at hinit
  obtain ⟨_, _, hinit⟩ := bind_eq_ok.mp hinit
  obtain ⟨_, _, hinit⟩ := bind_eq_ok.mp hinit
  obtain ⟨_, _, hinit⟩ := bind_eq_ok.mp hinit
  obtain ⟨_, _, hinit⟩ := bind_eq_ok.mp hinit
  obtain ⟨_, _, hinit⟩ := bind_eq_ok.mp hinit
  cases hinit
  rfl

/-- What `fence_action` has prepared when it sends a request. -/
theorem prepare_fence_action_spec [QTree Buf] [LawfulQTree Buf] {system : System} {params : ArgMap Buf}
    (h : ClientParameters.WithinLimits params)
    {connector : ClientConnector} {action nodename secret : Buf}
    (hprepare : Client.prepare_fence_action system params = .ok (connector, action, nodename, secret)) :
    connector.io_buffer.length = ClientConnector.IO_BUFFER_SIZE ∧
      protocol.FieldsFit (request_fields nodename secret) (ClientConnector.IO_BUFFER_SIZE - MsgHeader.HEADER_SIZE) := by
  unfold Client.prepare_fence_action at hprepare
  obtain ⟨params, hrequire, hprepare⟩ := bind_eq_ok.mp hprepare
  obtain ⟨fresh, hinit, hprepare⟩ := bind_eq_ok.mp hprepare
  obtain ⟨connected, hconnect, hprepare⟩ := bind_eq_ok.mp hprepare
  obtain ⟨action, _, hprepare⟩ := bind_eq_ok.mp hprepare
  obtain ⟨nodename, hnodename, hprepare⟩ := bind_eq_ok.mp hprepare
  obtain ⟨secret, hsecret, hprepare⟩ := bind_eq_ok.mp hprepare
  cases hprepare
  have hwithin := h.require hrequire
  refine ⟨?_, request_fields_fit (hwithin.get_value hnodename) (hwithin.get_value hsecret)⟩
  rw [io_buffer_connect hconnect, io_buffer_init_connector hinit, system.length_io_buffer]

end

end client

end ufh
