import UniversalFencingHub.MsgHeader
import UniversalFencingHub.Queue.Operations
import UniversalFencingHub.Shared.Protocol

open ufh.CharBuffer

namespace ufh

namespace sys

def FD_NONE : Int := -1

end sys

inductive Phase where
  | RECV
  | SEND
  | PENDING
  | EXECUTING
  | CANCELED
  deriving DecidableEq

inductive IoOp where
  | NOOP
  | READ
  | WRITE
  deriving DecidableEq

/-- The fields of class `ServerConnector::NetClient`. The link fields that it
inherits are kept in `Nodes`. -/
structure NetClient (Buf : Type) where
  key_buffer : Buf
  value_buffer : Buf
  nodename : Buf
  secret : Buf
  socket_fd : Int
  current_phase : Phase
  next_phase : Phase
  io_state : IoOp
  header : MsgHeader
  have_header : Bool
  io_offset : Nat
  io_buffer : Bytes
  deriving DecidableEq

namespace NetClient

def IO_BUFFER_SIZE : Nat := 1024

def FIELD_SIZE : Nat := 1024

def NODENAME_SIZE : Nat := 255

/-- The constructor. What the new `io_buffer` holds is indeterminate. -/
def new (Buf : Type) [CharBuffer Buf] (io_buffer : Bytes) : NetClient Buf :=
  { key_buffer := with_capacity FIELD_SIZE
    value_buffer := with_capacity FIELD_SIZE
    nodename := with_capacity NODENAME_SIZE
    secret := with_capacity protocol.MAX_SECRET_LENGTH
    socket_fd := sys.FD_NONE
    current_phase := .RECV
    next_phase := .PENDING
    io_state := .NOOP
    header := {}
    have_header := false
    io_offset := 0
    io_buffer }

def clear_io_buffer {Buf : Type} (client : NetClient Buf) : NetClient Buf :=
  { client with io_offset := 0, have_header := false, io_buffer := zero_memory IO_BUFFER_SIZE }

def clear {Buf : Type} [CharBuffer Buf] (client : NetClient Buf) : NetClient Buf :=
  let client :=
    { client with
      socket_fd := sys.FD_NONE
      current_phase := .RECV
      next_phase := .PENDING
      io_state := .NOOP
      header := MsgHeader.clear
      nodename := wipe client.nodename
      secret := wipe client.secret
      key_buffer := wipe client.key_buffer
      value_buffer := wipe client.value_buffer }
  client.clear_io_buffer

/-- The size that `receive_message` requests from `recv()`. -/
def req_read_size {Buf : Type} (client : NetClient Buf) : Nat :=
  if client.io_offset < MsgHeader.HEADER_SIZE then size_subtract MsgHeader.HEADER_SIZE client.io_offset
  else size_subtract client.header.data_length.toNat client.io_offset

/-- The header as `receive_message` keeps it: the length is cut to the buffer size. -/
def decode_header (io_buffer : Bytes) : MsgHeader :=
  let header := MsgHeader.deserialize io_buffer
  if header.data_length.toNat > IO_BUFFER_SIZE then { header with data_length := IO_BUFFER_SIZE.toUInt16 }
  else header

/-- The part of `receive_message` that follows a positive result of `recv()`:
the client and the completion flag. -/
def receive {Buf : Type} (client : NetClient Buf) (data : Bytes) : NetClient Buf × Bool :=
  let client :=
    { client with
      io_buffer := store client.io_buffer client.io_offset data
      io_offset := client.io_offset + data.length }
  if client.have_header then (client, client.io_offset ≥ client.header.data_length.toNat)
  else if client.io_offset ≥ MsgHeader.HEADER_SIZE then
    let client := { client with header := decode_header client.io_buffer, have_header := true }
    (client, client.header.data_length.toNat ≤ MsgHeader.HEADER_SIZE)
  else (client, false)

/-- The part of `send_message` that precedes `send()`. -/
def prepare_send {Buf : Type} (client : NetClient Buf) : NetClient Buf :=
  if client.have_header then client
  else
    let header :=
      if client.header.data_length.toNat < MsgHeader.HEADER_SIZE then
        { client.header with data_length := MsgHeader.HEADER_SIZE.toUInt16 }
      else if client.header.data_length.toNat > IO_BUFFER_SIZE then
        { client.header with data_length := IO_BUFFER_SIZE.toUInt16 }
      else client.header
    { client with header, io_buffer := header.serialize client.io_buffer, have_header := true }

/-- The size that `send_message` passes to `send()`; both operands of the
minimum are cut to 16 bits. -/
def req_write_size {Buf : Type} (client : NetClient Buf) : Nat :=
  min (IO_BUFFER_SIZE % 2 ^ 16) (size_subtract client.header.data_length.toNat client.io_offset % 2 ^ 16)

/-- The bytes that `send()` takes when it accepts `count` of them. -/
def outgoing {Buf : Type} (client : NetClient Buf) (count : Nat) : Bytes :=
  (client.io_buffer.drop client.io_offset).take count

/-- The part of `send_message` that follows a `send()` without error. -/
def sent {Buf : Type} (client : NetClient Buf) (write_size : Nat) : NetClient Buf × Bool :=
  let client := { client with io_offset := client.io_offset + write_size }
  (client, client.io_offset ≥ client.header.data_length.toNat)

end NetClient

end ufh
