import UniversalFencingHub.ServerConnector.NetClient

open ufh.CharBuffer

namespace ufh

/-- The functions of the fencing plugin that take a node name. -/
inductive PluginFunction where
  | ufh_fence_off
  | ufh_fence_on
  | ufh_fence_reboot
  deriving DecidableEq

structure PluginCall where
  function : PluginFunction
  nodename : Bytes
  deriving DecidableEq

namespace Server

/-- The values of `Server::fence_action_method`. -/
inductive FenceActionMethod where
  | fence_action_off
  | fence_action_on
  | fence_action_reboot
  deriving DecidableEq

/-- The member of `plugin_functions` that a method calls. -/
def FenceActionMethod.plugin_function : FenceActionMethod → PluginFunction
  | .fence_action_off => .ufh_fence_off
  | .fence_action_on => .ufh_fence_on
  | .fence_action_reboot => .ufh_fence_reboot

/-- The plugin call that a method makes. The secret is not passed on. -/
def FenceActionMethod.call {Buf : Type} [CharBuffer Buf] (method : FenceActionMethod) (nodename _client_secret : Buf) :
    PluginCall :=
  { function := method.plugin_function, nodename := contents nodename }

end Server

namespace NetClient

/-- The field loop of `fence_action`. The loop advances by at least two bytes,
so `io_offset` rounds of fuel are enough. -/
def read_fields {Buf : Type} [CharBuffer Buf] : Nat → NetClient Buf → Nat → NetClient Buf × Except Exception Unit
  | 0, client, _ => (client, .ok ())
  | fuel + 1, client, field_offset =>
    if field_offset < client.io_offset then
      match protocol.read_field client.io_buffer client.io_offset field_offset client.key_buffer with
      | .error exception => (client, .error exception)
      | .ok (_, field_offset, key_buffer) =>
        match protocol.split_key_value_pair key_buffer client.value_buffer with
        | .error exception => ({ client with key_buffer }, .error exception)
        | .ok (key_buffer, value_buffer) =>
          let client := { client with key_buffer, value_buffer }
          if equals client.key_buffer protocol.NODENAME then
            match assign client.nodename client.value_buffer with
            | .error _ => (client, .error .RangeException)
            | .ok nodename => read_fields fuel { client with nodename } field_offset
          else if equals client.key_buffer protocol.SECRET then
            match assign client.secret client.value_buffer with
            | .error _ => (client, .error .RangeException)
            | .ok secret => read_fields fuel { client with secret } field_offset
          else read_fields fuel client field_offset
    else (client, .ok ())

/-- What processing one message does: the client afterwards, the plugin call
made on its behalf and the exception that escapes. -/
structure Processed (Buf : Type) where
  client : NetClient Buf
  call : Option PluginCall := none
  outcome : Except Exception Unit := .ok ()

/-- `success_flag` is what the plugin returns if it is called. -/
def fence_action {Buf : Type} [CharBuffer Buf] (fence : Server.FenceActionMethod) (success_flag : Bool)
    (client : NetClient Buf) : Processed Buf :=
  match read_fields client.io_offset client MsgHeader.HEADER_SIZE with
  | (client, .error .ProtocolException) =>
    { client := { client with current_phase := .CANCELED, io_state := .NOOP } }
  | (client, .error .RangeException) => { client, outcome := .error .RangeException }
  | (client, .ok ()) =>
    let client := client.clear_io_buffer
    let client := { client with header := MsgHeader.clear }
    if (contents client.nodename).length > 0 then
      let reply := if success_flag then protocol.MsgType.FENCE_SUCCESS else protocol.MsgType.FENCE_FAIL
      { client :=
          { client with
            header := { msg_type := reply.value, data_length := MsgHeader.HEADER_SIZE.toUInt16 }
            current_phase := .SEND
            next_phase := .CANCELED
            io_state := .WRITE }
        call := some (fence.call client.nodename client.secret) }
    else { client }

/-- The method that `process_client_message` passes to `fence_action`. -/
def fence_method (msg_type : UInt16) : Option Server.FenceActionMethod :=
  if msg_type = protocol.MsgType.FENCE_OFF.value then some .fence_action_off
  else if msg_type = protocol.MsgType.FENCE_ON.value then some .fence_action_on
  else if msg_type = protocol.MsgType.FENCE_REBOOT.value then some .fence_action_reboot
  else none

def process_client_message {Buf : Type} [CharBuffer Buf] (success_flag : Bool) (client : NetClient Buf) :
    Processed Buf :=
  if client.header.msg_type = protocol.MsgType.ECHO_REQUEST.value then
    let client := client.clear_io_buffer
    { client :=
        { client with
          header :=
            { msg_type := protocol.MsgType.ECHO_REPLY.value, data_length := MsgHeader.HEADER_SIZE.toUInt16 }
          current_phase := .SEND
          next_phase := .RECV
          io_state := .WRITE } }
  else if client.header.msg_type = protocol.MsgType.VERSION_REQUEST.value then { client }
  else
    match fence_method client.header.msg_type with
    | some fence => fence_action fence success_flag client
    | none => { client := { client with current_phase := .CANCELED } }

/-- The node name and the secret that `fence_action` passes to the method of class `Server`, if it calls
one. They stay in their buffers. -/
def fence_arguments {Buf : Type} [CharBuffer Buf] (success_flag : Bool) (client : NetClient Buf) :
    Option (Bytes × Bytes) :=
  let processed := client.process_client_message success_flag
  processed.call.map fun _ => (contents processed.client.nodename, contents processed.client.secret)

end NetClient

end ufh
