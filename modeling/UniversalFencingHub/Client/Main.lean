import UniversalFencingHub.Client.Arguments

open ufh.CharBuffer

namespace ufh

namespace client

/-- A function that has not ended yet, or the result or the exception with which it has ended. -/
abbrev Attempt := ExceptT Thrown Option

/-- A function without loops always ends. -/
def Attempt.of {T : Type} (result : Except Thrown T) : Attempt T := some result

/-- A method of the connector, without the object that it leaves behind. -/
def Running.attempt {T : Type} (running : Running T) : Attempt T := running.map Prod.snd

/-- `"IPV4"` -/
def PROTO_IPV4 : Bytes := text ("IPV4")

/-- `"IPV6"` -/
def PROTO_IPV6 : Bytes := text ("IPV6")

section

variable {Buf : Type} [CharBuffer Buf] [QTree Buf]

/-- A number that cannot be parsed is handled like the number 0. -/
def parse_port_number (system : System) (port_string : Buf) : Except Thrown UInt16 :=
  let port_number := (system.parse_unsigned_int16 (contents port_string)).getD 0
  if port_number = 0 then .error (.InetException .INVALID_PORT_NUMBER) else .ok port_number

def parse_address (system : System) (family : Int) (ip_string port_string : Buf) : Except Thrown Unit := do
  let _ ← parse_port_number system port_string
  ClientConnector.check_inet_pton_rc (system.inet_pton family (ClientConnector.c_str (contents ip_string)))

def parse_ipv4 (system : System) (ip_string port_string : Buf) : Except Thrown Unit :=
  parse_address system AF_INET ip_string port_string

def parse_ipv6 (system : System) (ip_string port_string : Buf) : Except Thrown Unit :=
  parse_address system AF_INET6 ip_string port_string

/-- The address family that `init_socket_address` selects. -/
def select_domain (protocol_string : Buf) : Except Thrown Int :=
  if equals protocol_string PROTO_IPV6 then .ok AF_INET6
  else if equals protocol_string PROTO_IPV4 then .ok AF_INET
  else .error (.InetException .UNKNOWN_AF)

/-- The parser that `init_socket_address` selects. -/
def parse_ip (system : System) (socket_domain : Int) (ip_string port_string : Buf) : Except Thrown Unit :=
  if socket_domain = AF_INET6 then parse_ipv6 system ip_string port_string
  else if socket_domain = AF_INET then parse_ipv4 system ip_string port_string
  else .ok ()

/-- The address family of the socket address. -/
def init_socket_address (system : System) (protocol_string ip_string port_string : Buf) : Except Thrown Int := do
  let socket_domain ← select_domain protocol_string
  allocate system .address
  parse_ip system socket_domain ip_string port_string
  return socket_domain

namespace Client

/-- `ExitCode` -/
inductive ExitCode where
  | FENCING_SUCCESS
  | FENCING_FAILURE
  deriving DecidableEq

def ExitCode.value : ExitCode → Int
  | .FENCING_SUCCESS => 0
  | .FENCING_FAILURE => 1

def ExitCode.of (success : Bool) : ExitCode := if success then .FENCING_SUCCESS else .FENCING_FAILURE

def init_connector (system : System) (params : ArgMap Buf) : Except Thrown ClientConnector := do
  let protocol ← Arguments.get_value system params ClientParameters.KEY_PROTOCOL
  let ip_address ← Arguments.get_value system params ClientParameters.KEY_IP_ADDRESS
  let tcp_port ← Arguments.get_value system params ClientParameters.KEY_TCP_PORT
  let socket_domain ← init_socket_address system protocol ip_address tcp_port
  allocate system .io_buffer
  return ClientConnector.new system socket_domain

/-- Marking arguments as required, and the check that they are present. -/
def require (system : System) (params : ArgMap Buf) : List Bytes → Except Thrown (ArgMap Buf)
  | [] => do
    Arguments.check_required system params
    return params
  | key :: rest => do
    let params ← Arguments.mark_required system params key
    require system params rest

/-- The keys of the connection parameters. -/
def connection_keys : List Bytes :=
  [ClientParameters.KEY_PROTOCOL, ClientParameters.KEY_IP_ADDRESS, ClientParameters.KEY_TCP_PORT]

def check_server_connection (system : System) (fuel : Nat) (params : ArgMap Buf) : Attempt Bool := do
  let params ← Attempt.of (require system params connection_keys)
  let connector ← Attempt.of (init_connector system params)
  let connector ← Attempt.of (connector.connect_to_server system)
  (connector.check_connection system fuel).attempt

/-- The first part of `fence_action`: the connected object, the action, the node name and the secret. -/
def prepare_fence_action (system : System) (params : ArgMap Buf) :
    Except Thrown (ClientConnector × Buf × Buf × Buf) := do
  let params ← require system params
    (connection_keys ++ [ClientParameters.KEY_NODENAME, ClientParameters.KEY_SECRET])
  let connector ← init_connector system params
  let connector ← connector.connect_to_server system
  let action ← Arguments.get_value system params ClientParameters.KEY_ACTION
  let nodename ← Arguments.get_value system params ClientParameters.KEY_NODENAME
  let secret ← Arguments.get_value system params ClientParameters.KEY_SECRET
  return (connector, action, nodename, secret)

def fence_action (system : System) (fuel : Nat) (params : ArgMap Buf) : Attempt Bool := do
  let (connector, action, nodename, secret) ← Attempt.of (prepare_fence_action system params)
  if equals action ClientParameters.ACTION_OFF then
    (connector.fence_action_off system fuel nodename secret).attempt
  else if equals action ClientParameters.ACTION_ON then
    (connector.fence_action_on system fuel nodename secret).attempt
  else if equals action ClientParameters.ACTION_REBOOT then
    (connector.fence_action_reboot system fuel nodename secret).attempt
  else
    Attempt.of (throw_client system (text ("Logic error: fence_action(...) called with invalid action \"") ++
      ClientConnector.c_str (contents action) ++ text ("\"")))

/-- The actions that fence a node. -/
def is_fence_action (action : Buf) : Bool :=
  equals action ClientParameters.ACTION_OFF || equals action ClientParameters.ACTION_ON ||
    equals action ClientParameters.ACTION_REBOOT

def dispatch_request (system : System) (fuel : Nat) (params : ArgMap Buf) : Attempt ExitCode := do
  Attempt.of (Arguments.check_required system params)
  let action ← Attempt.of (Arguments.get_value system params ClientParameters.KEY_ACTION)
  if is_fence_action action then
    let success ← fence_action system fuel params
    return .of success
  else if equals action ClientParameters.ACTION_METADATA then return .FENCING_SUCCESS
  else if equals action ClientParameters.ACTION_LIST || equals action ClientParameters.ACTION_MONITOR ||
      equals action ClientParameters.ACTION_STATUS then
    let success ← check_server_connection system fuel params
    return .of success
  else if equals action ClientParameters.ACTION_START || equals action ClientParameters.ACTION_STOP then
    return .FENCING_SUCCESS
  else
    Attempt.of (throw_client system
      (text ("Request for invalid action '") ++ ClientConnector.c_str (contents action) ++ text ("'")))

end Client

end

namespace Client

variable {Buf : Type} [TextBuffer Buf] [QTree Buf]

def run (Buf : Type) [TextBuffer Buf] [QTree Buf] (system : System) (fuel : Nat) (stdin : Istream) :
    Attempt ExitCode := do
  Attempt.of (allocate system .parameters)
  let params : ArgMap Buf ← Attempt.of (ClientParameters.initialize_entries system)
  let params ← (ClientParameters.read_parameters system fuel params stdin : Attempt (ArgMap Buf))
  dispatch_request system fuel params

/-- `main`: the exit code, or the exception that escapes. -/
def main (Buf : Type) [TextBuffer Buf] [QTree Buf] (system : System) (fuel : Nat) (stdin : Istream) : Attempt Int :=
  match run Buf system fuel stdin with
  | none => none
  | some (.ok instance_rc) => some (.ok instance_rc.value)
  | some (.error (.ArgumentsException _)) => some (.ok ExitCode.FENCING_FAILURE.value)
  | some (.error (.ClientException _)) => some (.ok ExitCode.FENCING_FAILURE.value)
  | some (.error (.InetException _)) => some (.ok ExitCode.FENCING_FAILURE.value)
  | some (.error (.OsException _)) => some (.ok ExitCode.FENCING_FAILURE.value)
  | some (.error .bad_alloc) => some (.ok ExitCode.FENCING_FAILURE.value)
  | some (.error exc) => some (.error exc)

end Client

end client

end ufh
