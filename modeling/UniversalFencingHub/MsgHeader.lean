import UniversalFencingHub.Shared.Bytes

namespace ufh

namespace protocol

inductive MsgType where
  | ECHO_REQUEST
  | ECHO_REPLY
  | VERSION_REQUEST
  | FENCE_OFF
  | FENCE_ON
  | FENCE_REBOOT
  | FENCE_SUCCESS
  | FENCE_FAIL
  deriving DecidableEq

/-- The enumerator's value, `static_cast<uint16_t>`. -/
def MsgType.value : MsgType → UInt16
  | .ECHO_REQUEST => 0x0
  | .ECHO_REPLY => 0x1
  | .VERSION_REQUEST => 0x2
  | .FENCE_OFF => 0x81
  | .FENCE_ON => 0x82
  | .FENCE_REBOOT => 0x83
  | .FENCE_SUCCESS => 0xA0
  | .FENCE_FAIL => 0xA1

end protocol

structure MsgHeader where
  msg_type : UInt16 := 0xFFFF
  data_length : UInt16 := 0
  deriving DecidableEq

namespace MsgHeader

def HEADER_SIZE : Nat := 4

def MSG_TYPE_OFFSET : Nat := 0

def DATA_LENGTH_OFFSET : Nat := 2

def clear : MsgHeader := { msg_type := 0xFFFF, data_length := 0 }

def is_msg_type (header : MsgHeader) (value : protocol.MsgType) : Bool := header.msg_type == value.value

def set_msg_type (header : MsgHeader) (value : protocol.MsgType) : MsgHeader :=
  { header with msg_type := value.value }

def bytes_to_field_value (buffer : Bytes) (offset : Nat) : UInt16 :=
  let value := (buffer.getD offset 0).toUInt16
  let value := value <<< 8
  value ||| (buffer.getD (offset + 1) 0).toUInt16

def field_value_to_bytes (value : UInt16) (buffer : Bytes) (offset : Nat) : Bytes :=
  store buffer offset [(value >>> 8).toUInt8, (value &&& 0xFF).toUInt8]

def serialize (header : MsgHeader) (io_buffer : Bytes) : Bytes :=
  let io_buffer := field_value_to_bytes header.msg_type io_buffer MSG_TYPE_OFFSET
  field_value_to_bytes header.data_length io_buffer DATA_LENGTH_OFFSET

def deserialize (io_buffer : Bytes) : MsgHeader :=
  { msg_type := bytes_to_field_value io_buffer MSG_TYPE_OFFSET
    data_length := bytes_to_field_value io_buffer DATA_LENGTH_OFFSET }

/-- The four bytes a header occupies on the wire. -/
def wire (header : MsgHeader) : Bytes :=
  [(header.msg_type >>> 8).toUInt8, (header.msg_type &&& 0xFF).toUInt8,
    (header.data_length >>> 8).toUInt8, (header.data_length &&& 0xFF).toUInt8]

@[simp] theorem length_wire (header : MsgHeader) : header.wire.length = 4 := rfl

/-- Joining the two bytes of a 16-bit value gives the value back. -/
theorem join_split (value : UInt16) :
    (value >>> 8).toUInt8.toUInt16 <<< 8 ||| (value &&& 0xFF).toUInt8.toUInt16 = value := by
  have hlt := value.toNat_lt
  apply UInt16.toNat_inj.mp
  simp only [UInt16.toNat_or, UInt16.toNat_shiftLeft, UInt8.toNat_toUInt16, UInt16.toNat_toUInt8,
    UInt16.toNat_shiftRight, UInt16.toNat_and]
  have hmask : value.toNat &&& (255 : UInt16).toNat = value.toNat % 2 ^ 8 :=
    Nat.and_two_pow_sub_one_eq_mod _ 8
  rw [hmask]
  have hhigh : value.toNat >>> ((8 : UInt16).toNat % 16) = value.toNat / 2 ^ 8 := Nat.shiftRight_eq_div_pow _ 8
  have hshift : ∀ n : Nat, n <<< ((8 : UInt16).toNat % 16) = n <<< 8 := fun _ => rfl
  rw [hhigh, hshift]
  have hsmall : value.toNat / 2 ^ 8 % 2 ^ 8 = value.toNat / 2 ^ 8 := Nat.mod_eq_of_lt (by omega)
  have hlow : value.toNat % 2 ^ 8 % 2 ^ 8 = value.toNat % 2 ^ 8 := Nat.mod_mod _ _
  rw [hsmall, hlow]
  have hfits : (value.toNat / 2 ^ 8) <<< 8 % 2 ^ 16 = (value.toNat / 2 ^ 8) <<< 8 := by
    rw [Nat.shiftLeft_eq]
    omega
  rw [hfits, ← Nat.shiftLeft_add_eq_or_of_lt (Nat.mod_lt _ (by decide)), Nat.shiftLeft_eq]
  omega

/-- Serializing overwrites exactly the first four bytes. -/
theorem serialize_eq (header : MsgHeader) {io_buffer : Bytes} (h : HEADER_SIZE ≤ io_buffer.length) :
    header.serialize io_buffer = header.wire ++ io_buffer.drop HEADER_SIZE := by
  obtain ⟨b0, b1, b2, b3, rest, rfl⟩ : ∃ b0 b1 b2 b3 rest, io_buffer = b0 :: b1 :: b2 :: b3 :: rest := by
    match io_buffer, h with
    | b0 :: b1 :: b2 :: b3 :: rest, _ => exact ⟨b0, b1, b2, b3, rest, rfl⟩
  rfl

/-- Decoding depends on the first four bytes only. -/
theorem deserialize_append {front back : Bytes} (h : front.length = HEADER_SIZE) :
    deserialize (front ++ back) = deserialize front := by
  match front, h with
  | [b0, b1, b2, b3], _ => rfl

theorem deserialize_wire (header : MsgHeader) : deserialize header.wire = header := by
  have htype := join_split header.msg_type
  have hlength := join_split header.data_length
  cases header
  simpa [deserialize, bytes_to_field_value, wire, MSG_TYPE_OFFSET, DATA_LENGTH_OFFSET] using And.intro htype hlength

end MsgHeader

end ufh
