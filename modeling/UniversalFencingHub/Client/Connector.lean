import UniversalFencingHub.Library.Loop
import UniversalFencingHub.ServerConnector.NetClient

open ufh.CharBuffer

namespace ufh

/-- `InetException::ErrorId` -/
inductive InetErrorId where
  | UNKNOWN
  | INVALID_ADDRESS
  | UNKNOWN_AF
  | UNSUPPORTED_AF
  | INVALID_PORT_NUMBER
  | SOCKET_ERROR
  | BIND_FAILED
  | LISTEN_ERROR
  | NETWORK_UNREACHABLE
  | CONNECTION_REFUSED
  | CONNECT_FAILED
  deriving DecidableEq

/-- `OsException::ErrorId` -/
inductive OsErrorId where
  | UNKNOWN
  | INVALID_SELECT_FD
  | IO_ERROR
  | NBLK_IO_ERROR
  | IPC_ERROR
  | DYN_LOAD_ERROR
  | SIGNAL_HND_ERROR
  deriving DecidableEq

namespace client

/-- The exceptions that the client program can raise. -/
inductive Thrown where
  | ArgumentsException (message : Bytes)
  | ClientException (message : Bytes)
  | InetException (error_id : InetErrorId)
  | OsException (error_id : OsErrorId)
  | ProtocolException
  | RangeException
  | DuplicateInsertException
  | bad_alloc
  deriving DecidableEq

/-- The exceptions of the functions that the client shares with the server. -/
def Thrown.of_shared : Exception → Thrown
  | .ProtocolException => .ProtocolException
  | .RangeException => .RangeException

/-- The values of `errno` that `connect_to_server` tells apart. -/
inductive Errno where
  | EADDRINUSE
  | EBADF
  | EISCONN
  | ENETUNREACH
  | ECONNREFUSED
  | other
  deriving DecidableEq

/-- The places at which the client allocates memory. -/
inductive Allocation where
  | parameters
  | entry (key : Bytes)
  | line_buffer
  | argument (line : Bytes)
  | search_key (key : Bytes)
  | error_msg
  | address
  | io_buffer
  | request
  deriving DecidableEq

/-- `ClientConnector::IO_BUFFER_SIZE` -/
def ClientConnector.IO_BUFFER_SIZE : Nat := 1024

/-- What the kernel and the libraries answer to the client. The results of `send()` and
`recv()` are numbered in the order of the calls on the socket; `none` stands for the
result -1 of `recv()`. The memory of a new `io_buffer` has indeterminate contents in C++. -/
structure System where
  inet_pton : Int → Bytes → Int
  parse_unsigned_int16 : Bytes → Option UInt16
  socket : Int
  bind : Int
  connect : Int
  errno : Errno
  send : Nat → Int
  recv : Nat → Option Bytes
  allocates : Allocation → Bool
  io_buffer : Bytes
  length_io_buffer : io_buffer.length = ClientConnector.IO_BUFFER_SIZE

def AF_INET : Int := 2

def AF_INET6 : Int := 10

/-- The fields of class `ClientConnector`, together with the number of calls on the socket
and the bytes that went through it. -/
structure ClientConnector where
  io_buffer : Bytes
  header : MsgHeader := {}
  socket_domain : Int := AF_INET6
  socket_fd : Int := sys.FD_NONE
  calls : Nat := 0
  sent : Bytes := []
  received : Bytes := []

/-- A method that has not ended yet, or the object and the result or the exception with
which it has ended. -/
abbrev Running (T : Type) := Option (ClientConnector × Except Thrown T)

/-- What follows a method that may not end and may raise an exception. -/
def Running.next {T U : Type} (first : Running T) (rest : ClientConnector → T → Running U) : Running U :=
  match first with
  | none => none
  | some (connector, .error exc) => some (connector, .error exc)
  | some (connector, .ok value) => rest connector value

namespace ClientConnector

/-- The constructor. -/
def new (system : System) (socket_domain : Int) : ClientConnector := { io_buffer := system.io_buffer, socket_domain }

def disconnect_from_server (connector : ClientConnector) : ClientConnector :=
  { connector with socket_fd := sys.FD_NONE }

def clear_io_buffer (connector : ClientConnector) : ClientConnector :=
  { connector with io_buffer := zero_memory IO_BUFFER_SIZE }

/-- A call of `send()`. On the descriptor -1 it returns -1, and it never sends more than
what was requested. -/
def send (system : System) (connector : ClientConnector) (req_write_size : Nat) : Int :=
  if connector.socket_fd < 0 then -1 else min (system.send connector.calls) req_write_size

/-- A call of `recv()`. -/
def recv (system : System) (connector : ClientConnector) (req_read_size : Nat) : Option Bytes :=
  if connector.socket_fd < 0 then none else (system.recv connector.calls).map (·.take req_read_size)

/-- One round of the loop in `send_message`. The state of the loop is `io_offset` and the object. -/
def send_round (system : System) (send_length : Nat) :
    Nat × ClientConnector → (Nat × ClientConnector) ⊕ (Nat × ClientConnector)
  | (io_offset, connector) =>
    if io_offset < send_length then
      let write_size := connector.send system (send_length - io_offset)
      let connector := { connector with calls := connector.calls + 1 }
      if write_size > 0 then
        let data := (connector.io_buffer.drop io_offset).take write_size.toNat
        .inl (io_offset + write_size.toNat, { connector with sent := connector.sent ++ data })
      else if write_size = -1 then .inl (io_offset, connector.disconnect_from_server)
      else .inl (io_offset, connector)
    else .inr (io_offset, connector)

def send_message (system : System) (fuel : Nat) (connector : ClientConnector) : Running Unit :=
  let send_length := min (max MsgHeader.HEADER_SIZE connector.header.data_length.toNat) IO_BUFFER_SIZE
  let connector := { connector with io_buffer := connector.header.serialize connector.io_buffer }
  match looping.run (send_round system send_length) fuel (0, connector) with
  | some (io_offset, connector) =>
    if io_offset < connector.header.data_length.toNat then some (connector, .error (.OsException .IO_ERROR))
    else some (connector, .ok ())
  | none => none

/-- The local variables of `receive_message` and the object. -/
structure Reception where
  have_header : Bool := false
  io_offset : Nat := 0
  receive_length : Nat := MsgHeader.HEADER_SIZE
  connector : ClientConnector

/-- Storing what `recv()` returned, and reading the header as soon as it is complete. -/
def Reception.store (reception : Reception) (data : Bytes) : Reception :=
  let connector := reception.connector
  let io_buffer := ufh.store connector.io_buffer reception.io_offset data
  let connector := { connector with io_buffer, received := connector.received ++ data }
  let io_offset := reception.io_offset + data.length
  if reception.have_header = false ∧ io_offset ≥ MsgHeader.HEADER_SIZE then
    let header := MsgHeader.deserialize io_buffer
    { have_header := true
      io_offset
      receive_length := min header.data_length.toNat IO_BUFFER_SIZE
      connector := { connector with header } }
  else { reception with io_offset, connector }

/-- One round of the loop in `receive_message`. -/
def receive_round (system : System) (reception : Reception) : Reception ⊕ Reception :=
  if reception.io_offset < reception.receive_length then
    let connector := reception.connector
    let read := connector.recv system (reception.receive_length - reception.io_offset)
    let connector := { connector with calls := connector.calls + 1 }
    match read with
    | some [] => .inl { reception with connector }
    | some data => .inl (Reception.store { reception with connector } data)
    | none => .inl { reception with connector := connector.disconnect_from_server }
  else .inr reception

def receive_message (system : System) (fuel : Nat) (connector : ClientConnector) : Running Unit :=
  let connector := { connector with header := MsgHeader.clear }
  let connector := connector.clear_io_buffer
  match looping.run (receive_round system) fuel { connector } with
  | some reception =>
    if reception.have_header = false ∨ reception.io_offset < reception.connector.header.data_length.toNat then
      some (reception.connector, .error (.OsException .IO_ERROR))
    else some (reception.connector, .ok ())
  | none => none

def check_connection (system : System) (fuel : Nat) (connector : ClientConnector) : Running Bool :=
  let header := connector.header.set_msg_type .ECHO_REQUEST
  let connector := { connector with header := { header with data_length := MsgHeader.HEADER_SIZE.toUInt16 } }
  (connector.send_message system fuel).next fun connector _ =>
    (connector.receive_message system fuel).next fun connector _ =>
      some (connector, .ok (connector.header.is_msg_type .ECHO_REPLY))

/-- The C string at the start of some bytes. -/
def c_str (bytes : Bytes) : Bytes := bytes.takeWhile (· ≠ 0)

/-- A parameter of a fencing request, as a key and a value. -/
def request_param {Buf : Type} [CharBuffer Buf] (key : Bytes) (value : Buf) : Bytes :=
  key ++ c_str (contents (protocol.KEY_VALUE_SPLIT_SEQ : Buf)) ++ c_str (contents value)

/-- Writing the parameters of a fencing request behind the header. -/
def write_request {Buf : Type} [CharBuffer Buf] (connector : ClientConnector) (nodename secret : Buf) :
    Except Exception ClientConnector :=
  let offset := MsgHeader.HEADER_SIZE
  match protocol.write_field connector.io_buffer IO_BUFFER_SIZE offset (request_param protocol.NODENAME nodename) with
  | .ok (offset, io_buffer) =>
    match protocol.write_field io_buffer IO_BUFFER_SIZE offset (request_param protocol.SECRET secret) with
    | .ok (offset, io_buffer) =>
      .ok { connector with io_buffer, header := { connector.header with data_length := offset.toUInt16 } }
    | .error exc => .error exc
  | .error exc => .error exc

def fence_action_impl {Buf : Type} [CharBuffer Buf] (system : System) (fuel : Nat) (connector : ClientConnector)
    (msg_type : protocol.MsgType) (nodename secret : Buf) : Running Bool :=
  let connector := { connector with header := connector.header.set_msg_type msg_type }
  if system.allocates .request = false then some (connector, .error .bad_alloc)
  else
    match connector.write_request nodename secret with
    | .ok connector =>
      (connector.send_message system fuel).next fun connector _ =>
        (connector.receive_message system fuel).next fun connector _ =>
          if connector.header.is_msg_type .FENCE_SUCCESS then some (connector, .ok true)
          else if connector.header.is_msg_type .FENCE_FAIL then some (connector, .ok false)
          else some (connector, .error .ProtocolException)
    | .error exc => some (connector, .error (.of_shared exc))

def fence_action_off {Buf : Type} [CharBuffer Buf] (system : System) (fuel : Nat) (connector : ClientConnector)
    (nodename secret : Buf) : Running Bool :=
  connector.fence_action_impl system fuel .FENCE_OFF nodename secret

def fence_action_on {Buf : Type} [CharBuffer Buf] (system : System) (fuel : Nat) (connector : ClientConnector)
    (nodename secret : Buf) : Running Bool :=
  connector.fence_action_impl system fuel .FENCE_ON nodename secret

def fence_action_reboot {Buf : Type} [CharBuffer Buf] (system : System) (fuel : Nat) (connector : ClientConnector)
    (nodename secret : Buf) : Running Bool :=
  connector.fence_action_impl system fuel .FENCE_REBOOT nodename secret

/-- `check_inet_pton_rc` -/
def check_inet_pton_rc (rc : Int) : Except Thrown Unit :=
  if rc = 0 then .error (.InetException .INVALID_ADDRESS)
  else if rc = 1 then .ok ()
  else if rc = -1 then .error (.InetException .UNSUPPORTED_AF)
  else .error (.InetException .UNKNOWN)

/-- `"::"` -/
def IPV6_LOCAL_BIND_ADDRESS : Bytes := [0x3A, 0x3A]

/-- `"0.0.0.0"` -/
def IPV4_LOCAL_BIND_ADDRESS : Bytes := [0x30, 0x2E, 0x30, 0x2E, 0x30, 0x2E, 0x30]

/-- The exception for the value that `connect()` left in `errno`. -/
def connect_error : Errno → InetErrorId
  | .EADDRINUSE => .SOCKET_ERROR
  | .EBADF => .SOCKET_ERROR
  | .EISCONN => .SOCKET_ERROR
  | .ENETUNREACH => .NETWORK_UNREACHABLE
  | .ECONNREFUSED => .CONNECTION_REFUSED
  | .other => .CONNECT_FAILED

/-- Binding the socket to a local address of a family. -/
def bind_socket (system : System) (family : Int) (address : Bytes) : Except Thrown Unit :=
  match check_inet_pton_rc (system.inet_pton family address) with
  | .ok () => if system.bind ≠ 0 then .error (.InetException .BIND_FAILED) else .ok ()
  | .error exc => .error exc

def connect_to_server (system : System) (connector : ClientConnector) : Except Thrown ClientConnector :=
  let connector := { connector with socket_fd := system.socket }
  if connector.socket_fd < 0 then .error (.InetException .SOCKET_ERROR)
  else
    let bound :=
      if connector.socket_domain = AF_INET6 then bind_socket system AF_INET6 IPV6_LOCAL_BIND_ADDRESS
      else if connector.socket_domain = AF_INET then bind_socket system AF_INET IPV4_LOCAL_BIND_ADDRESS
      else .error (.InetException .UNKNOWN_AF)
    match bound with
    | .ok () =>
      if system.connect ≠ 0 then .error (.InetException (connect_error system.errno)) else .ok connector
    | .error exc => .error exc

/-- A system in which `send()` takes everything and `recv()` returns what is given, and then 0. -/
def replying (chunks : List Bytes) : System where
  inet_pton _ _ := 1
  parse_unsigned_int16 _ := some 2111
  socket := 3
  bind := 0
  connect := 0
  errno := .other
  send call := if call = 0 then 1024 else 0
  recv call := some (chunks.getD call [])
  allocates _ := true
  io_buffer := List.replicate IO_BUFFER_SIZE 0xA5
  length_io_buffer := List.length_replicate

/-- A connected client. -/
def connected : ClientConnector := { ClientConnector.new (replying []) AF_INET with socket_fd := 3 }

end ClientConnector

end client

end ufh
