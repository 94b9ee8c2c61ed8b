import UniversalFencingHub.Shared.CharBuffer

open ufh.CharBuffer

namespace ufh

/-- The exceptions that the modelled functions let escape. -/
inductive Exception where
  | ProtocolException
  | RangeException
  deriving DecidableEq

namespace protocol

/-- `"="` -/
def SPLIT_BYTE : UInt8 := 0x3D

def KEY_VALUE_SPLIT_SEQ {Buf : Type} [CharBuffer Buf] : Buf := from_c_str [SPLIT_BYTE]

/-- `"NODENAME"` -/
def NODENAME : Bytes := [0x4E, 0x4F, 0x44, 0x45, 0x4E, 0x41, 0x4D, 0x45]

/-- `"SECRET"` -/
def SECRET : Bytes := [0x53, 0x45, 0x43, 0x52, 0x45, 0x54]

def MAX_SECRET_LENGTH : Nat := 64

/-- `read_field` into a `CharBuffer`: the result, the new offset and the buffer. -/
def read_field {Buf : Type} [CharBuffer Buf] (io_buffer : Bytes) (io_buffer_capacity offset : Nat)
    (field_buffer : Buf) : Except Exception (Bool × Nat × Buf) :=
  let field_buffer := clear field_buffer
  if offset < io_buffer_capacity ∧ io_buffer_capacity - offset ≥ 2 then
    let field_length : UInt16 := (io_buffer.getD offset 0).toUInt16 <<< 8
    let field_length := field_length ||| (io_buffer.getD (offset + 1) 0).toUInt16
    let remain_length := io_buffer_capacity - offset - 2
    if field_length.toNat ≤ remain_length then
      match substring_raw_from field_buffer io_buffer (offset + 2) (offset + 2 + field_length.toNat) with
      | .ok field_buffer => .ok (true, offset + (field_length.toNat + 2), field_buffer)
      | .error _ => .error .ProtocolException
    else .error .ProtocolException
  else .error .ProtocolException

/-- `write_field_impl`: the new offset and the buffer. -/
def write_field (io_buffer : Bytes) (io_buffer_capacity offset : Nat) (field_data : Bytes) :
    Except Exception (Nat × Bytes) :=
  let field_length := field_data.length
  if field_length > 0xFFFF then .error .ProtocolException
  else if offset < io_buffer_capacity then
    let remain_capacity := io_buffer_capacity - offset
    if field_length < remain_capacity ∧ remain_capacity - field_length ≥ 2 then
      let io_buffer := store io_buffer offset [(field_length >>> 8).toUInt8, (field_length &&& 0xFF).toUInt8]
      let offset := offset + 2
      .ok (offset + field_length, store io_buffer offset field_data)
    else .error .ProtocolException
  else .error .ProtocolException

/-- `split_key_value_pair`: the key left in `src_data` and the value. -/
def split_key_value_pair {Buf : Type} [CharBuffer Buf] (src_data value : Buf) : Except Exception (Buf × Buf) :=
  match index_of src_data KEY_VALUE_SPLIT_SEQ with
  | some split_idx =>
    match substring_from value src_data (split_idx + (contents (KEY_VALUE_SPLIT_SEQ : Buf)).length)
        (contents src_data).length with
    | .ok value =>
      match substring src_data 0 split_idx with
      | .ok src_data => .ok (src_data, value)
      | .error _ => .error .ProtocolException
    | .error _ => .error .ProtocolException
  | none => .error .ProtocolException

/-- A field as it stands on the wire: a big-endian length and the data. -/
def encode_field (data : Bytes) : Bytes :=
  (data.length / 256).toUInt8 :: (data.length % 256).toUInt8 :: data

/-- The first field of a payload and what follows it, if the payload starts with
a complete field. -/
def take_field : Bytes → Option (Bytes × Bytes)
  | high :: low :: rest =>
    let length := high.toNat * 256 + low.toNat
    if length ≤ rest.length then some (rest.take length, rest.drop length) else none
  | _ => none

/-- A field split at its first `'='`. -/
def split_pair (field : Bytes) : Option (Bytes × Bytes) :=
  (field.findIdx? (· == SPLIT_BYTE)).map (fun idx => (field.take idx, field.drop (idx + 1)))

theorem join_bytes (high low : UInt8) :
    (high.toUInt16 <<< 8 ||| low.toUInt16).toNat = high.toNat * 256 + low.toNat := by
  have hhigh := high.toNat_lt
  have hlow := low.toNat_lt
  simp only [UInt16.toNat_or, UInt16.toNat_shiftLeft, UInt8.toNat_toUInt16]
  have hshift : high.toNat <<< ((8 : UInt16).toNat % 16) = high.toNat <<< 8 := rfl
  have hfits : high.toNat <<< 8 % 2 ^ 16 = high.toNat <<< 8 := by
    rw [Nat.shiftLeft_eq]
    omega
  rw [hshift, hfits, ← Nat.shiftLeft_add_eq_or_of_lt (by omega), Nat.shiftLeft_eq]

theorem take_field_length {payload field rest : Bytes} (h : take_field payload = some (field, rest)) :
    payload.length = field.length + 2 + rest.length := by
  match payload with
  | [] => simp [take_field] at h
  | [_] => simp [take_field] at h
  | high :: low :: tail =>
    simp only [take_field] at h
    split at h
    · simp only [Option.some.injEq, Prod.mk.injEq] at h
      rw [← h.1, ← h.2]
      simp only [List.length_take, List.length_drop, List.length_cons]
      omega
    · cases h

/-- A payload of at least two bytes starts with the length of its first field. -/
theorem take_field_of_room {io_buffer : Bytes} {io_buffer_capacity offset length : Nat}
    (hbuffer : io_buffer_capacity ≤ io_buffer.length)
    (hroom : offset < io_buffer_capacity ∧ io_buffer_capacity - offset ≥ 2)
    (hlength : (io_buffer.getD offset 0).toNat * 256 + (io_buffer.getD (offset + 1) 0).toNat = length) :
    take_field ((io_buffer.take io_buffer_capacity).drop offset) =
      if length ≤ io_buffer_capacity - offset - 2 then
        some ((io_buffer.drop (offset + 2)).take length,
          (io_buffer.take io_buffer_capacity).drop (offset + (length + 2)))
      else none := by
  have hcapacity : (io_buffer.take io_buffer_capacity).length = io_buffer_capacity := by simp [hbuffer]
  have hdrop : (io_buffer.take io_buffer_capacity).drop offset =
      io_buffer.getD offset 0 :: io_buffer.getD (offset + 1) 0 ::
        (io_buffer.take io_buffer_capacity).drop (offset + 2) := by
    rw [List.drop_eq_getElem_cons (by omega), List.drop_eq_getElem_cons (by omega)]
    simp [List.getD_eq_getElem?_getD, show offset < io_buffer.length by omega,
      show offset + 1 < io_buffer.length by omega]
  rw [hdrop]
  simp only [take_field, List.length_drop, hlength, hcapacity]
  by_cases hfits : length ≤ io_buffer_capacity - offset - 2
  · rw [if_pos (by omega), if_pos hfits, List.drop_take, List.take_take, Nat.min_eq_left (by omega), ← List.drop_take,
      List.drop_drop, Nat.add_assoc, Nat.add_comm 2]
  · rw [if_neg (by omega), if_neg hfits]

theorem take_field_of_no_room (io_buffer : Bytes) {io_buffer_capacity offset : Nat}
    (hroom : ¬ (offset < io_buffer_capacity ∧ io_buffer_capacity - offset ≥ 2)) :
    take_field ((io_buffer.take io_buffer_capacity).drop offset) = none := by
  cases htake : take_field ((io_buffer.take io_buffer_capacity).drop offset) with
  | none => rfl
  | some taken =>
    have hlength := take_field_length htake
    simp only [List.length_drop, List.length_take] at hlength
    omega

/-- `read_field` takes the next field off the payload that starts at `offset`. -/
theorem read_field_some {Buf : Type} [CharBuffer Buf] [LawfulCharBuffer Buf] {io_buffer field rest : Bytes}
    {io_buffer_capacity offset : Nat} (field_buffer : Buf) (hbuffer : io_buffer_capacity ≤ io_buffer.length)
    (htake : take_field ((io_buffer.take io_buffer_capacity).drop offset) = some (field, rest))
    (hcapacity : field.length ≤ capacity field_buffer) :
    ∃ result, read_field io_buffer io_buffer_capacity offset field_buffer =
        .ok (true, offset + (field.length + 2), result) ∧
      contents result = field ∧ capacity result = capacity field_buffer ∧
      rest = (io_buffer.take io_buffer_capacity).drop (offset + (field.length + 2)) ∧
      offset + (field.length + 2) ≤ io_buffer_capacity := by
  by_cases hroom : offset < io_buffer_capacity ∧ io_buffer_capacity - offset ≥ 2
  · obtain ⟨length, hlength⟩ : ∃ length,
        (io_buffer.getD offset 0).toNat * 256 + (io_buffer.getD (offset + 1) 0).toNat = length := ⟨_, rfl⟩
    have hread := take_field_of_room hbuffer hroom hlength
    rw [htake] at hread
    split at hread
    · next hfits =>
      obtain ⟨rfl, rfl⟩ := Prod.mk.inj (Option.some.inj hread)
      have hfield : ((io_buffer.drop (offset + 2)).take length).length = length := by
        rw [List.length_take, List.length_drop]
        omega
      rw [hfield] at hcapacity ⊢
      obtain ⟨result, hresult, hcontents, hsame⟩ := LawfulCharBuffer.substring_raw_from_fits
        (clear field_buffer) io_buffer (offset + 2) (offset + 2 + length) (by omega) (by omega)
        (by rw [LawfulCharBuffer.capacity_clear]; omega)
      refine ⟨result, ?_, ?_, ?_, rfl, by omega⟩
      · simp only [read_field, join_bytes, hlength]
        rw [if_pos hroom, if_pos hfits, hresult]
      · rw [hcontents, List.drop_take, Nat.add_sub_cancel_left]
      · rw [hsame, LawfulCharBuffer.capacity_clear]
    · cases hread
  · rw [take_field_of_no_room io_buffer hroom] at htake
    cases htake

theorem read_field_none {Buf : Type} [CharBuffer Buf] {io_buffer : Bytes} {io_buffer_capacity offset : Nat}
    {field_buffer : Buf} (hbuffer : io_buffer_capacity ≤ io_buffer.length)
    (htake : take_field ((io_buffer.take io_buffer_capacity).drop offset) = none) :
    read_field io_buffer io_buffer_capacity offset field_buffer = .error .ProtocolException := by
  unfold read_field
  by_cases hroom : offset < io_buffer_capacity ∧ io_buffer_capacity - offset ≥ 2
  · have hread := take_field_of_room hbuffer hroom rfl
    rw [htake] at hread
    split at hread
    · cases hread
    · next hlong =>
      rw [if_pos hroom]
      simp only [join_bytes]
      rw [if_neg hlong]
  · rw [if_neg hroom]

theorem split_key_value_pair_some {Buf : Type} [CharBuffer Buf] [LawfulCharBuffer Buf] {src_data : Buf}
    (value : Buf) {key_text value_text : Bytes} (hcapacity : (contents src_data).length ≤ capacity value)
    (hsplit : split_pair (contents src_data) = some (key_text, value_text)) :
    ∃ key_buffer value_buffer, split_key_value_pair src_data value = .ok (key_buffer, value_buffer) ∧
      contents key_buffer = key_text ∧ contents value_buffer = value_text ∧
      capacity key_buffer = capacity src_data ∧ capacity value_buffer = capacity value := by
  obtain ⟨split_idx, hindex, heq⟩ := Option.map_eq_some_iff.mp hsplit
  obtain ⟨rfl, rfl⟩ := Prod.mk.inj heq
  have hlt : split_idx < (contents src_data).length := (List.findIdx?_eq_some_iff_getElem.mp hindex).1
  have hseq : contents (KEY_VALUE_SPLIT_SEQ : Buf) = [SPLIT_BYTE] := LawfulCharBuffer.contents_from_c_str _
  obtain ⟨value_buffer, hvalue, hvalueContents, hvalueCapacity⟩ := LawfulCharBuffer.substring_from_fits value src_data
    (split_idx + 1) (contents src_data).length (by omega) (by omega) (by omega)
  obtain ⟨key_buffer, hkey, hkeyContents, hkeyCapacity⟩ :=
    LawfulCharBuffer.substring_fits src_data 0 split_idx (by omega) (by omega)
  refine ⟨key_buffer, value_buffer, ?_, by simpa using hkeyContents, by simpa using hvalueContents, hkeyCapacity,
    hvalueCapacity⟩
  simp only [split_key_value_pair, LawfulCharBuffer.index_of_eq, hseq, first_match_singleton, hindex,
    List.length_singleton, hvalue, hkey]

theorem split_key_value_pair_none {Buf : Type} [CharBuffer Buf] [LawfulCharBuffer Buf] {src_data value : Buf}
    (hsplit : split_pair (contents src_data) = none) :
    split_key_value_pair src_data value = .error .ProtocolException := by
  have hindex := Option.map_eq_none_iff.mp hsplit
  have hseq : contents (KEY_VALUE_SPLIT_SEQ : Buf) = [SPLIT_BYTE] := LawfulCharBuffer.contents_from_c_str _
  simp only [split_key_value_pair, LawfulCharBuffer.index_of_eq, hseq, first_match_singleton, hindex]

end protocol

end ufh
