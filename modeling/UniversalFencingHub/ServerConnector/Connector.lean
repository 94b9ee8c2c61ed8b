import Mathlib.Data.List.FinRange
import UniversalFencingHub.GenAlloc
import UniversalFencingHub.ServerConnector.Message

open ufh.CharBuffer

namespace ufh

namespace sys

/-- `close_fd`: the open descriptors and the new value of the variable. -/
def close_fd (open_fds : List Int) (fd : Int) : List Int × Int :=
  if 0 ≤ fd then (open_fds.filter (· ≠ fd), FD_NONE) else (open_fds, fd)

end sys

def MAX_CONNECTIONS : Nat := 24

instance : NeZero MAX_CONNECTIONS := ⟨by decide⟩

/-- A pointer to one of the objects of `client_pool`. -/
abbrev ClientPtr := Fin MAX_CONNECTIONS

/-- What can be observed of a connection from outside, in order. -/
inductive Event where
  | message (message : Message)
  | call (call : PluginCall) (success_flag : Bool)
  | sent (byte : UInt8)
  deriving DecidableEq

/-- The record of one connection. No function of the program reads it; the
properties of the server are stated about it. -/
structure History where
  /-- the result of `accept()` -/
  socket : Int
  /-- how often the socket has been closed -/
  closes : Nat := 0
  /-- all results of `recv()` -/
  received : Bytes := []
  /-- the positions in the received bytes at which a header was decoded -/
  headers : List Nat := []
  /-- the messages completed by `receive_message` -/
  messages : List Message := []
  /-- the types of the messages passed to `process_client_message` -/
  dispatched : List UInt16 := []
  dialogue : List Event := []

/-- The result of the system call that an I/O pass makes for a client. -/
inductive IoResult where
  | no_call
  | received (data : Bytes)
  | receive_failed
  | sent (count : Nat)
  | send_failed
  | broken_pipe
  deriving DecidableEq

/-- The client objects, queues and pool of class `ServerConnector`, the open
descriptors of the process and the records of all connections. -/
structure Connector (Buf : Type) where
  clients : ClientPtr → NetClient Buf
  nodes : Nodes ClientPtr := fun _ => {}
  com_queue : Queue ClientPtr := {}
  action_queue : Queue ClientPtr := {}
  client_pool : GenAlloc ClientPtr := GenAlloc.new (List.finRange MAX_CONNECTIONS)
  open_fds : List Int := []
  connections : Nat := 0
  connection : ClientPtr → Nat := fun _ => 0
  history : Nat → History := fun _ => { socket := sys.FD_NONE }

namespace NetClient

/-- The message held by a client. -/
def message {Buf : Type} (client : NetClient Buf) : Message :=
  { msg_type := client.header.msg_type
    data_length := client.header.data_length
    io_offset := client.io_offset
    contents := client.io_buffer.take client.io_offset }

/-- The results of `recv()` on the descriptor of a client. A descriptor that is
not valid only fails. -/
def receive_possible {Buf : Type} (client : NetClient Buf) : IoResult → Prop
  | .received data => 0 ≤ client.socket_fd ∧ 0 < data.length ∧ data.length ≤ client.req_read_size
  | .receive_failed => True
  | _ => False

instance {Buf : Type} (client : NetClient Buf) : (result : IoResult) → Decidable (client.receive_possible result)
  | .received data =>
    inferInstanceAs (Decidable (0 ≤ client.socket_fd ∧ 0 < data.length ∧ data.length ≤ client.req_read_size))
  | .receive_failed => .isTrue trivial
  | .no_call => .isFalse id
  | .sent _ => .isFalse id
  | .send_failed => .isFalse id
  | .broken_pipe => .isFalse id

/-- The results of `send()` on the descriptor of a client. -/
def send_possible {Buf : Type} (client : NetClient Buf) : IoResult → Prop
  | .sent count => 0 ≤ client.socket_fd ∧ count ≤ client.prepare_send.req_write_size
  | .send_failed => True
  | .broken_pipe => 0 ≤ client.socket_fd
  | _ => False

instance {Buf : Type} (client : NetClient Buf) : (result : IoResult) → Decidable (client.send_possible result)
  | .sent count => inferInstanceAs (Decidable (0 ≤ client.socket_fd ∧ count ≤ client.prepare_send.req_write_size))
  | .send_failed => .isTrue trivial
  | .broken_pipe => inferInstanceAs (Decidable (0 ≤ client.socket_fd))
  | .no_call => .isFalse id
  | .received _ => .isFalse id
  | .receive_failed => .isFalse id

/-- The results of the system call that the I/O pass makes for a client. -/
def io_possible {Buf : Type} (client : NetClient Buf) (read_fd_set write_fd_set : List Int)
    (result : IoResult) : Prop :=
  if client.current_phase = .CANCELED then result = .no_call
  else if client.socket_fd ∈ read_fd_set then client.receive_possible result
  else if client.socket_fd ∈ write_fd_set then client.send_possible result
  else result = .no_call

instance {Buf : Type} (client : NetClient Buf) (read_fd_set write_fd_set : List Int) (result : IoResult) :
    Decidable (client.io_possible read_fd_set write_fd_set result) :=
  inferInstanceAs (Decidable (if client.current_phase = .CANCELED then result = .no_call
    else if client.socket_fd ∈ read_fd_set then client.receive_possible result
    else if client.socket_fd ∈ write_fd_set then client.send_possible result
    else result = .no_call))

end NetClient

/-- What the receive buffers of the client objects hold when they are created. -/
structure ClientMemory where
  io_buffer : ClientPtr → Bytes
  length_io_buffer : ∀ client, (io_buffer client).length = NetClient.IO_BUFFER_SIZE

namespace ClientMemory

def filled (byte : UInt8) : ClientMemory :=
  ⟨fun _ => List.replicate NetClient.IO_BUFFER_SIZE byte, fun _ => List.length_replicate⟩

end ClientMemory

namespace Connector

def new (Buf : Type) [CharBuffer Buf] (memory : ClientMemory) : Connector Buf :=
  { clients := fun client => NetClient.new Buf (memory.io_buffer client) }

def set_client {Buf : Type} (connector : Connector Buf) (client : ClientPtr) (value : NetClient Buf) :
    Connector Buf :=
  { connector with clients := Function.update connector.clients client value }

/-- The record of the connection that a client object serves. -/
def record {Buf : Type} (connector : Connector Buf) (client : ClientPtr) : History :=
  connector.history (connector.connection client)

def set_record {Buf : Type} (connector : Connector Buf) (client : ClientPtr) (value : History) : Connector Buf :=
  { connector with history := Function.update connector.history (connector.connection client) value }

def close_connection {Buf : Type} [CharBuffer Buf] (connector : Connector Buf) (client : ClientPtr) :
    Connector Buf :=
  let object := connector.clients client
  let record := connector.record client
  let connector := connector.set_record client
    { record with closes := if 0 ≤ object.socket_fd then record.closes + 1 else record.closes }
  let (open_fds, socket_fd) := sys.close_fd connector.open_fds object.socket_fd
  let (com_queue, nodes) := connector.com_queue.remove connector.nodes client
  let connector := { connector with open_fds, com_queue, nodes }
  let connector := connector.set_client client { object with socket_fd }.clear
  { connector with client_pool := connector.client_pool.deallocate client }

/-- The first part of `accept_connection`, up to the request for the lock;
`none` stands for `std::bad_alloc`. `fd` is the result of `accept()`. -/
def accept {Buf : Type} [CharBuffer Buf] (connector : Connector Buf) (fd : Int) :
    Option (ClientPtr × Connector Buf) :=
  match connector.client_pool.allocate with
  | none => none
  | some (client, client_pool) =>
    let object :=
      { (connector.clients client).clear with
        socket_fd := fd, io_state := .READ, current_phase := .RECV, next_phase := .PENDING }
    some (client,
      { connector with
        clients := Function.update connector.clients client object
        client_pool
        open_fds := if 0 ≤ fd then fd :: connector.open_fds else connector.open_fds
        connections := connector.connections + 1
        connection := Function.update connector.connection client connector.connections
        history := Function.update connector.history connector.connections { socket := fd } })

def com_add_last {Buf : Type} (connector : Connector Buf) (client : ClientPtr) : Connector Buf :=
  let (com_queue, nodes) := connector.com_queue.add_last connector.nodes client
  { connector with com_queue, nodes }

def com_remove {Buf : Type} (connector : Connector Buf) (client : ClientPtr) : Connector Buf :=
  let (com_queue, nodes) := connector.com_queue.remove connector.nodes client
  { connector with com_queue, nodes }

def com_remove_first {Buf : Type} (connector : Connector Buf) : Option ClientPtr × Connector Buf :=
  let (client, com_queue, nodes) := connector.com_queue.remove_first connector.nodes
  (client, { connector with com_queue, nodes })

def action_add_last {Buf : Type} (connector : Connector Buf) (client : ClientPtr) : Connector Buf :=
  let (action_queue, nodes) := connector.action_queue.add_last connector.nodes client
  { connector with action_queue, nodes }

def action_remove_first {Buf : Type} (connector : Connector Buf) : Option ClientPtr × Connector Buf :=
  let (client, action_queue, nodes) := connector.action_queue.remove_first connector.nodes
  (client, { connector with action_queue, nodes })

/-- The record after `recv()` has returned `data`. -/
def received_record {Buf : Type} (record : History) (before after : NetClient Buf) (data : Bytes)
    (recv_complete : Bool) : History :=
  let received := record.received ++ data
  { record with
    received
    headers :=
      if !before.have_header && after.have_header then record.headers ++ [received.length - after.io_offset]
      else record.headers
    messages := if recv_complete then record.messages ++ [after.message] else record.messages
    dialogue := if recv_complete then record.dialogue ++ [.message after.message] else record.dialogue }

def receive_message {Buf : Type} [CharBuffer Buf] (connector : Connector Buf) (client : ClientPtr)
    (result : IoResult) : Connector Buf × Bool :=
  match result with
  | .received data =>
    let before := connector.clients client
    let (after, recv_complete) := before.receive data
    let connector := connector.set_client client after
    (connector.set_record client (received_record (connector.record client) before after data recv_complete),
      recv_complete)
  | _ => (connector.close_connection client, false)

def send_message {Buf : Type} [CharBuffer Buf] (connector : Connector Buf) (client : ClientPtr)
    (result : IoResult) : Connector Buf × Bool :=
  let before := (connector.clients client).prepare_send
  let connector := connector.set_client client before
  match result with
  | .sent count =>
    let (after, send_complete) := before.sent count
    let connector := connector.set_client client after
    let record := connector.record client
    (connector.set_record client
      { record with dialogue := record.dialogue ++ (before.outgoing count).map .sent }, send_complete)
  | _ => (connector.close_connection client, false)

/-- The part of the I/O pass that follows a complete `receive_message`: the
connector, and whether the client has to be put on `action_queue`. -/
def receive_completed {Buf : Type} [CharBuffer Buf] (connector : Connector Buf) (client : ClientPtr) :
    Connector Buf × Bool :=
  let object := connector.clients client
  let connector := connector.set_client client { object with current_phase := object.next_phase }
  if object.next_phase = .CANCELED then (connector.close_connection client, false)
  else if object.next_phase = .PENDING then
    let connector := connector.com_remove client
    (connector.set_client client { connector.clients client with io_state := .NOOP }, true)
  else (connector, false)

/-- The part of the I/O pass that follows a complete `send_message`. -/
def send_completed {Buf : Type} [CharBuffer Buf] (connector : Connector Buf) (client : ClientPtr) : Connector Buf :=
  let object := connector.clients client
  let connector := connector.set_client client { object with current_phase := object.next_phase }
  if object.next_phase = .CANCELED then connector.close_connection client
  else if object.next_phase = .RECV then
    connector.set_client client
      { (connector.clients client).clear_io_buffer with next_phase := .PENDING, io_state := .READ }
  else connector

/-- What the I/O pass does with one client: the connector, and whether the
client has to be put on `action_queue`. -/
def perform_io {Buf : Type} [CharBuffer Buf] (connector : Connector Buf) (read_fd_set write_fd_set : List Int)
    (client : ClientPtr) (result : IoResult) : Connector Buf × Bool :=
  let object := connector.clients client
  if object.current_phase = .CANCELED then (connector.close_connection client, false)
  else if object.socket_fd ∈ read_fd_set then
    let (connector, recv_complete) := connector.receive_message client result
    if recv_complete then connector.receive_completed client else (connector, false)
  else if object.socket_fd ∈ write_fd_set then
    let (connector, send_complete) := connector.send_message client result
    (if send_complete then connector.send_completed client else connector, false)
  else (connector, false)

/-- `remove_first` of a worker together with the phase change that follows it. -/
def take_action {Buf : Type} (connector : Connector Buf) : Option ClientPtr × Connector Buf :=
  match connector.action_remove_first with
  | (none, connector) => (none, connector)
  | (some client, connector) =>
    (some client, connector.set_client client { connector.clients client with current_phase := .EXECUTING })

/-- `process_client_message` on a client of the connector, and the exception
that escapes from it. -/
def process {Buf : Type} [CharBuffer Buf] (connector : Connector Buf) (client : ClientPtr) (success_flag : Bool) :
    Connector Buf × Except Exception Unit :=
  let object := connector.clients client
  let processed := object.process_client_message success_flag
  let connector := connector.set_client client processed.client
  let record := connector.record client
  (connector.set_record client
    { record with
      dispatched := record.dispatched ++ [object.header.msg_type]
      dialogue := record.dialogue ++ (processed.call.map (Event.call · success_flag)).toList },
    processed.outcome)

end Connector

end ufh
