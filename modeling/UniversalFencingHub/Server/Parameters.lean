import UniversalFencingHub.Client.Main

open ufh.CharBuffer

namespace ufh

/-- The operation of class `CharBuffer` that only the command line of the server calls. -/
class OptionBuffer (Buf : Type) extends TextBuffer Buf where
  /-- `starts_with(const CharBuffer&)` -/
  starts_with : Buf → Buf → Bool

/-- What the server relies on: `starts_with` compares the first characters of the text. -/
class LawfulOptionBuffer (Buf : Type) [OptionBuffer Buf] : Prop extends LawfulTextBuffer Buf where
  starts_with_iff : ∀ buf other : Buf, OptionBuffer.starts_with buf other = true ↔ contents other <+: contents buf

instance : OptionBuffer BoundedBuffer where
  starts_with buf other := other.contents.isPrefixOf buf.contents

instance : LawfulOptionBuffer BoundedBuffer where
  starts_with_iff _ _ := List.isPrefixOf_iff_prefix

namespace Server

open client

namespace ServerParameters

def MAX_PARAMETER_SIZE : Nat := 1100

def MODULE_PARAM_SIZE : Nat := 1024

def KEY_PROTOCOL : Bytes := text ("protocol")

def KEY_BIND_ADDRESS : Bytes := text ("bind_address")

def KEY_TCP_PORT : Bytes := text ("tcp_port")

def KEY_FENCE_MODULE : Bytes := text ("fence_module")

/-- `"--"` -/
def OPT_PREFIX {Buf : Type} [CharBuffer Buf] : Buf := from_c_str (text ("--"))

/-- The entries that the method `initialize` adds. -/
def entries : List (Bytes × Nat) :=
  [(KEY_PROTOCOL, ClientParameters.PROTOCOL_PARAM_SIZE), (KEY_BIND_ADDRESS, ClientParameters.IP_ADDR_PARAM_SIZE),
    (KEY_TCP_PORT, ClientParameters.PORT_PARAM_SIZE), (KEY_FENCE_MODULE, MODULE_PARAM_SIZE)]

/-- The method `initialize`. -/
def initialize_entries {Buf : Type} [CharBuffer Buf] [QTree Buf] (system : System) : Except Thrown (ArgMap Buf) := do
  let arg_map ← ClientParameters.add_entries system QTree.new entries
  let arg_map ← Arguments.mark_required system arg_map KEY_PROTOCOL
  let arg_map ← Arguments.mark_required system arg_map KEY_BIND_ADDRESS
  let arg_map ← Arguments.mark_required system arg_map KEY_TCP_PORT
  Arguments.mark_required system arg_map KEY_FENCE_MODULE

variable {Buf : Type} [OptionBuffer Buf] [QTree Buf]

/-- Taking an argument of the command line into the buffer, without the two characters of an option. -/
def take_argument (crt_arg : Buf) (argument : Bytes) : Except RangeException Buf :=
  match TextBuffer.assign_c_str crt_arg argument with
  | .ok crt_arg =>
    if OptionBuffer.starts_with crt_arg OPT_PREFIX then
      substring crt_arg (contents (OPT_PREFIX : Buf)).length (contents crt_arg).length
    else .ok crt_arg
  | .error exc => .error exc

/-- The loop in `read_parameters`. -/
def read_arguments (system : System) (crt_arg : Buf) (arg_map : ArgMap Buf) :
    List Bytes → Except Thrown (ArgMap Buf)
  | [] => .ok arg_map
  | argument :: rest =>
    match take_argument crt_arg argument with
    | .ok crt_arg =>
      match Arguments.process_argument system arg_map crt_arg with
      | .ok arg_map => read_arguments system crt_arg arg_map rest
      | .error exc => .error exc
    | .error _ => .error .RangeException

/-- The arguments of the program come after its name. -/
def read_parameters (system : System) (arg_map : ArgMap Buf) (argv : List Bytes) : Except Thrown (ArgMap Buf) :=
  if system.allocates .line_buffer then
    match read_arguments system (with_capacity MAX_PARAMETER_SIZE) arg_map (argv.drop 1) with
    | .error .RangeException =>
      throw_arguments system (text ("The command line contains arguments that exceed the allowed length"))
    | outcome => outcome
  else .error .bad_alloc

end ServerParameters

/-- The values that `Server::run` passes to the plugin manager and to the connector. -/
structure Configuration (Buf : Type) where
  protocol : Buf
  bind_address : Buf
  port : Buf
  fence_module : Buf

/-- The first part of `Server::run`, before the plugin is loaded. -/
def read_configuration {Buf : Type} [OptionBuffer Buf] [QTree Buf] (system : System) (argv : List Bytes) :
    Except Thrown (Configuration Buf) := do
  allocate system .parameters
  let params ← ServerParameters.initialize_entries system
  let params ← ServerParameters.read_parameters system params argv
  Arguments.check_required system params
  let protocol ← Arguments.get_value system params ServerParameters.KEY_PROTOCOL
  let bind_address ← Arguments.get_value system params ServerParameters.KEY_BIND_ADDRESS
  let port ← Arguments.get_value system params ServerParameters.KEY_TCP_PORT
  let fence_module ← Arguments.get_value system params ServerParameters.KEY_FENCE_MODULE
  return { protocol, bind_address, port, fence_module }

end Server

end ufh
