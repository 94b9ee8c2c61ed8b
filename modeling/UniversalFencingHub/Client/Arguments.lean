import UniversalFencingHub.Client.Connector
import UniversalFencingHub.Shared.QTree

open ufh.CharBuffer

namespace ufh

/-- The operations of class `CharBuffer` that only the client calls. -/
class TextBuffer (Buf : Type) extends CharBuffer Buf where
  /-- `operator=(const char*)` -/
  assign_c_str : Buf → Bytes → Except RangeException Buf
  /-- `index_of(char)`; `none` stands for `NPOS` -/
  index_of_char : Buf → UInt8 → Option Nat

/-- What the client relies on: text that is longer than the capacity of the target raises
`RangeException`. -/
class LawfulTextBuffer (Buf : Type) [TextBuffer Buf] : Prop extends LawfulCharBuffer Buf where
  assign_c_str_fits : ∀ (target : Buf) (text : Bytes), text.length ≤ capacity target →
    ∃ result, TextBuffer.assign_c_str target text = .ok result ∧ contents result = text ∧
      capacity result = capacity target
  assign_c_str_exceeds : ∀ (target : Buf) (text : Bytes), capacity target < text.length →
    TextBuffer.assign_c_str target text = .error {}
  index_of_char_eq : ∀ (buf : Buf) (byte : UInt8),
    TextBuffer.index_of_char buf byte = (contents buf).findIdx? (· == byte)
  substring_from_exceeds : ∀ (target source : Buf) (start stop : Nat), start ≤ stop → stop ≤ (contents source).length →
    capacity target < stop - start → substring_from target source start stop = .error {}

instance : TextBuffer BoundedBuffer where
  assign_c_str target text := target.fill text
  index_of_char buf byte := buf.contents.findIdx? (· == byte)

instance : LawfulTextBuffer BoundedBuffer where
  assign_c_str_fits _ _ h := ⟨_, BoundedBuffer.fill_fits h, rfl, rfl⟩
  assign_c_str_exceeds _ _ h := if_neg (Nat.not_le_of_lt h)
  index_of_char_eq _ _ := rfl
  substring_from_exceeds target source start stop hle hstop hlong := by
    change stop ≤ source.contents.length at hstop
    change target.capacity < stop - start at hlong
    exact if_neg (by rw [List.length_drop, List.length_take]; omega)

namespace client

/-- The bytes of a string literal. -/
def text (literal : String) : Bytes := literal.toList.map fun char => char.toNat.toUInt8

/-- The fields of class `Arguments::Entry`. -/
structure Entry (Buf : Type) where
  required : Bool := false
  present : Bool := false
  value : Buf

/-- `QTree<const CharBuffer, Entry>` -/
abbrev ArgMap (Buf : Type) [QTree Buf] := QTree.Tree Buf (Entry Buf)

def allocate (system : System) (allocation : Allocation) : Except Thrown Unit :=
  if system.allocates allocation then .ok () else .error .bad_alloc

/-- Building a message and throwing it. -/
def throw_arguments {T : Type} (system : System) (error_msg : Bytes) : Except Thrown T :=
  if system.allocates .error_msg then .error (.ArgumentsException error_msg) else .error .bad_alloc

def throw_client {T : Type} (system : System) (error_msg : Bytes) : Except Thrown T :=
  if system.allocates .error_msg then .error (.ClientException error_msg) else .error .bad_alloc

namespace Arguments

/-- `'='` -/
def SPLIT_CHAR : UInt8 := 0x3D

section

variable {Buf : Type} [CharBuffer Buf] [QTree Buf]

def add_entry (system : System) (arg_map : ArgMap Buf) (key : Bytes) (value_capacity : Nat) :
    Except Thrown (ArgMap Buf) :=
  if system.allocates (.entry key) then
    match QTree.insert arg_map (from_c_str key) { value := with_capacity value_capacity } with
    | .ok arg_map => .ok arg_map
    | .error _ => .error .DuplicateInsertException
  else .error .bad_alloc

def mark_required (system : System) (arg_map : ArgMap Buf) (key : Bytes) : Except Thrown (ArgMap Buf) :=
  if system.allocates (.search_key key) then
    let search_key : Buf := from_c_str key
    match QTree.get arg_map search_key with
    | some _ => .ok (QTree.update arg_map search_key fun entry => { entry with required := true })
    | none =>
      throw_arguments system
        (text ("Internal error: Attempt to execute method mark_required with nonexistent key=\"") ++ key ++ text ("\""))
  else .error .bad_alloc

def check_required (system : System) (arg_map : ArgMap Buf) : Except Thrown Unit :=
  let missing := (QTree.nodes arg_map).filter fun node => node.2.required && !node.2.present
  if missing = [] then .ok ()
  else
    throw_arguments system
      (text ("The values for the following argument keys were not specified:\n") ++
        missing.flatMap fun node => text ("    ") ++ ClientConnector.c_str (contents node.1) ++ text ("\n"))

def get_value (system : System) (arg_map : ArgMap Buf) (key : Bytes) : Except Thrown Buf :=
  if system.allocates (.search_key key) then
    match QTree.get arg_map (from_c_str key) with
    | some entry => .ok entry.value
    | none => throw_arguments system (text ("The value for the argument key \"") ++ key ++
        text ("\" was not specified"))
  else .error .bad_alloc

end

def process_argument {Buf : Type} [TextBuffer Buf] [QTree Buf] (system : System) (arg_map : ArgMap Buf)
    (argument : Buf) : Except Thrown (ArgMap Buf) :=
  match TextBuffer.index_of_char argument SPLIT_CHAR with
  | some split_idx =>
    if system.allocates (.search_key (contents argument)) then
      match substring_from (with_capacity split_idx) argument 0 split_idx with
      | .ok search_key =>
        let key_text := ClientConnector.c_str (contents search_key)
        match QTree.get arg_map search_key with
        | some arg_entry =>
          if arg_entry.present then
            throw_arguments system (text ("Duplicate argument with argument key \"") ++ key_text ++ text ("\""))
          else
            match substring_from arg_entry.value argument (split_idx + 1) (contents argument).length with
            | .ok value => .ok (QTree.update arg_map search_key fun entry => { entry with value, present := true })
            | .error _ =>
              throw_arguments system
                (text ("The value for the argument key \"") ++ key_text ++
                    text ("\" exceeds its allowed maximum length"))
        | none => throw_arguments system (text ("Invalid argument key \"") ++ key_text ++ text ("\""))
      | .error _ => .error .RangeException
    else .error .bad_alloc
  | none =>
    throw_arguments system
      (text ("Malformed argument \"") ++ ClientConnector.c_str (contents argument) ++ text ("\""))

end Arguments

/-- The stream `std::cin`: what is left to be read, and its state. On a broken stream a read
behind the last byte fails. -/
structure Istream where
  content : Bytes
  broken : Bool := false
  eofbit : Bool := false
  failbit : Bool := false

namespace Istream

def good (stream : Istream) : Bool := !stream.eofbit && !stream.failbit

/-- `getline` on a good stream: the stream, the characters stored in the buffer and `gcount()`.
`none` stands for `std::ios_base::failure`. -/
def getline (stream : Istream) (size : Nat) : Option (Istream × Bytes × Nat) :=
  let line := stream.content.takeWhile (· ≠ 0x0A)
  if line.length ≤ size - 1 then
    if line.length < stream.content.length then
      some ({ stream with content := stream.content.drop (line.length + 1) }, line, line.length + 1)
    else if stream.broken then none
    else some ({ stream with content := [], eofbit := true, failbit := line.isEmpty }, line, line.length)
  else
    some ({ stream with content := stream.content.drop (size - 1), failbit := true }, stream.content.take (size - 1),
      size - 1)

end Istream

namespace ClientParameters

def KEY_ACTION : Bytes := text ("action")

def KEY_PROTOCOL : Bytes := text ("protocol")

def KEY_IP_ADDRESS : Bytes := text ("ip_address")

def KEY_TCP_PORT : Bytes := text ("tcp_port")

def KEY_SECRET : Bytes := text ("secret")

def KEY_NODENAME : Bytes := text ("nodename")

def ACTION_OFF : Bytes := text ("off")

def ACTION_ON : Bytes := text ("on")

def ACTION_REBOOT : Bytes := text ("reboot")

def ACTION_METADATA : Bytes := text ("metadata")

def ACTION_STATUS : Bytes := text ("status")

def ACTION_LIST : Bytes := text ("list")

def ACTION_MONITOR : Bytes := text ("monitor")

def ACTION_START : Bytes := text ("start")

def ACTION_STOP : Bytes := text ("stop")

def MAX_PARAMETER_SIZE : Nat := 512

def PROTOCOL_PARAM_SIZE : Nat := 10

def IP_ADDR_PARAM_SIZE : Nat := 60

def PORT_PARAM_SIZE : Nat := 6

def SECRET_PARAM_SIZE : Nat := 64

def NODENAME_PARAM_SIZE : Nat := 255

def ACTION_PARAM_SIZE : Nat := 24

/-- The entries that the method `initialize` adds. -/
def entries : List (Bytes × Nat) :=
  [(KEY_ACTION, ACTION_PARAM_SIZE), (KEY_PROTOCOL, PROTOCOL_PARAM_SIZE), (KEY_IP_ADDRESS, IP_ADDR_PARAM_SIZE),
    (KEY_TCP_PORT, PORT_PARAM_SIZE), (KEY_NODENAME, NODENAME_PARAM_SIZE), (KEY_SECRET, SECRET_PARAM_SIZE)]

def add_entries {Buf : Type} [CharBuffer Buf] [QTree Buf] (system : System) (arg_map : ArgMap Buf) :
    List (Bytes × Nat) → Except Thrown (ArgMap Buf)
  | [] => .ok arg_map
  | (key, value_capacity) :: rest =>
    match Arguments.add_entry system arg_map key value_capacity with
    | .ok arg_map => add_entries system arg_map rest
    | .error exc => .error exc

/-- The method `initialize`. -/
def initialize_entries {Buf : Type} [CharBuffer Buf] [QTree Buf] (system : System) : Except Thrown (ArgMap Buf) :=
  match add_entries system QTree.new entries with
  | .ok arg_map => Arguments.mark_required system arg_map KEY_ACTION
  | .error exc => .error exc

/-- What `read_parameters` does with a line of more than one character. -/
def read_argument {Buf : Type} [TextBuffer Buf] [QTree Buf] (system : System) (arg_map : ArgMap Buf) (line : Bytes)
    (line_length : Nat) : Except Thrown (ArgMap Buf) :=
  if system.allocates (.argument line) then
    match TextBuffer.assign_c_str (with_capacity line_length : Buf) (ClientConnector.c_str line) with
    | .ok crt_arg => Arguments.process_argument system arg_map crt_arg
    | .error _ => .error .RangeException
  else .error .bad_alloc

/-- One round of the loop in `read_parameters`, and what follows the loop. -/
def read_round {Buf : Type} [TextBuffer Buf] [QTree Buf] (system : System) :
    Istream × ArgMap Buf → (Istream × ArgMap Buf) ⊕ Except Thrown (ArgMap Buf)
  | (stream, arg_map) =>
    if stream.good then
      match stream.getline MAX_PARAMETER_SIZE with
      | some (stream, line, read_count) =>
        if read_count > 1 then
          match read_argument system arg_map line (read_count - 1) with
          | .ok arg_map => .inl (stream, arg_map)
          | .error exc => .inr (.error exc)
        else .inl (stream, arg_map)
      | none => .inr (.error (.OsException .IO_ERROR))
    else if stream.failbit && !stream.eofbit then .inr (.error (.OsException .IO_ERROR))
    else .inr (.ok arg_map)

def read_parameters {Buf : Type} [TextBuffer Buf] [QTree Buf] (system : System) (fuel : Nat) (arg_map : ArgMap Buf)
    (stream : Istream) : Option (Except Thrown (ArgMap Buf)) :=
  if system.allocates .line_buffer then looping.run (read_round system) fuel (stream, arg_map)
  else some (.error .bad_alloc)

end ClientParameters

end client

end ufh
