import UniversalFencingHub.Properties.RequestGrammar

open ufh.CharBuffer

namespace ufh

namespace protocol

/-- `split_key_value_pair` on strings, which appends to `value`: the key left in `src_data` and the value. -/
def split_key_value_pair_string (src_data value : Bytes) : Except Exception (Bytes × Bytes) :=
  match first_match [SPLIT_BYTE] src_data with
  | some split_idx => .ok (src_data.take split_idx, value ++ src_data.drop (split_idx + [SPLIT_BYTE].length))
  | none => .error .ProtocolException

/-- What a round of the loop over the fields leaves: the key, the value and the offset of the next field. -/
structure DecodedField where
  key : Bytes
  value : Bytes
  offset : Nat
  deriving DecidableEq

/-- Decoding a number of fields into the same two variables, by either overload of the two functions. The first
exception ends the loop. -/
def decode_fields {Target : Type} (read : Nat → Target → Except Exception (Bool × Nat × Target))
    (split : Target → Target → Except Exception (Target × Target)) (text : Target → Bytes) :
    Nat → Nat → Target → Target → List DecodedField × Except Exception Unit
  | 0, _, _, _ => ([], .ok ())
  | field_count + 1, offset, key, value =>
    match read offset key with
    | .error exc => ([], .error exc)
    | .ok (_, offset, key) =>
      match split key value with
      | .error exc => ([], .error exc)
      | .ok (key, value) =>
        let rest := decode_fields read split text field_count offset key value
        ({ key := text key, value := text value, offset } :: rest.1, rest.2)

def decode_buffers {Buf : Type} [CharBuffer Buf] (io_buffer : Bytes) (io_buffer_capacity field_count offset : Nat)
    (key_buffer value_buffer : Buf) : List DecodedField × Except Exception Unit :=
  decode_fields (read_field io_buffer io_buffer_capacity) split_key_value_pair contents field_count offset
    key_buffer value_buffer

def decode_strings (io_buffer : Bytes) (io_buffer_capacity field_count offset : Nat) (key value : Bytes) :
    List DecodedField × Except Exception Unit :=
  decode_fields (read_field_string io_buffer io_buffer_capacity) split_key_value_pair_string id field_count offset
    key value

/-- Both strings are empty in front of every field that can be split, and the key string contains no `'='` in
front of a field without one. -/
def StringsEmpty : Nat → Bytes → Bytes → Bytes → Prop
  | 0, _, _, _ => True
  | field_count + 1, payload, key, value =>
    match take_field payload with
    | none => True
    | some (field, rest) =>
      if SPLIT_BYTE ∈ field then
        key = [] ∧ value = [] ∧ StringsEmpty field_count rest (field_key field) (field_value field)
      else SPLIT_BYTE ∉ key

instance decidable_strings_empty : ∀ (field_count : Nat) (payload key value : Bytes),
    Decidable (StringsEmpty field_count payload key value)
  | 0, _, _, _ => .isTrue trivial
  | field_count + 1, payload, key, value =>
    match htake : take_field payload with
    | none => .isTrue (by rw [StringsEmpty, htake]; trivial)
    | some (field, rest) =>
      have hrest := decidable_strings_empty field_count rest (field_key field) (field_value field)
      decidable_of_iff (if SPLIT_BYTE ∈ field then
          key = [] ∧ value = [] ∧ StringsEmpty field_count rest (field_key field) (field_value field)
        else SPLIT_BYTE ∉ key) (by rw [StringsEmpty, htake])

theorem split_key_value_pair_string_eq (src_data value : Bytes) :
    split_key_value_pair_string src_data value =
      if SPLIT_BYTE ∈ src_data then .ok (field_key src_data, value ++ field_value src_data)
      else .error .ProtocolException := by
  rw [split_key_value_pair_string, first_match_singleton, findIdx?_eq_before_first]
  by_cases hsplit : SPLIT_BYTE ∈ src_data
  · simp only [if_pos hsplit, List.length_singleton]
    rw [take_length_before_first, drop_length_before_first]
    rfl
  · simp only [if_neg hsplit]

theorem length_key_value {field : Bytes} (hsplit : SPLIT_BYTE ∈ field) :
    (field_key field).length + 1 + (field_value field).length = field.length := by
  have hlt := length_before_first_lt hsplit
  have hvalue := congrArg List.length (drop_length_before_first SPLIT_BYTE field)
  rw [List.length_drop] at hvalue
  unfold field_key field_value
  omega

/-- Behind other text a field is split as it is alone only if that text is empty. -/
theorem same_pair_iff {key value field : Bytes} (hsplit : SPLIT_BYTE ∈ field) :
    field_key field = field_key (key ++ field) ∧ field_value field = value ++ field_value (key ++ field) ↔
      key = [] ∧ value = [] := by
  constructor
  · rintro ⟨hkey, hvalue⟩
    have hfield := length_key_value hsplit
    have hwhole := length_key_value (List.mem_append_right key hsplit)
    have hkeys := congrArg List.length hkey
    have hvalues := congrArg List.length hvalue
    rw [List.length_append] at hwhole hvalues
    exact ⟨List.eq_nil_of_length_eq_zero (by omega), List.eq_nil_of_length_eq_zero (by omega)⟩
  · rintro ⟨rfl, rfl⟩
    exact ⟨rfl, rfl⟩

section

variable {Buf : Type} [CharBuffer Buf] [LawfulCharBuffer Buf] {io_buffer : Bytes}
  {io_buffer_capacity field_count offset : Nat} {key_buffer value_buffer : Buf} {key value : Bytes}

/-- Decoding through strings and through buffers is the same exactly when the strings are empty in front of
every field. The overloads for strings append to what the previous field has left, those for buffers do not. -/
theorem field_decoding (hbuffer : io_buffer_capacity ≤ io_buffer.length)
    (hkey : io_buffer_capacity - offset ≤ capacity key_buffer)
    (hvalue : io_buffer_capacity - offset ≤ capacity value_buffer) :
    decode_buffers io_buffer io_buffer_capacity field_count offset key_buffer value_buffer =
        decode_strings io_buffer io_buffer_capacity field_count offset key value ↔
      StringsEmpty field_count (region io_buffer io_buffer_capacity offset) key value := by
  unfold decode_buffers decode_strings
  induction field_count generalizing offset key_buffer value_buffer key value with
  | zero => exact iff_of_true rfl trivial
  | succ field_count ih =>
    cases htake : take_field (region io_buffer io_buffer_capacity offset) with
    | none =>
      have hread : read_field io_buffer io_buffer_capacity offset key_buffer = .error .ProtocolException :=
        read_field_none hbuffer htake
      have hread' := (reads_fields_string hbuffer).rejected offset key htake
      simp only [decode_fields, hread, hread', StringsEmpty, htake]
    | some taken =>
      obtain ⟨field, rest⟩ := taken
      have hbound := take_region_length htake
      obtain ⟨read, hread, hcontents, hcapacity, hrest, _⟩ :=
        read_field_some key_buffer hbuffer htake (show field.length ≤ capacity key_buffer by omega)
      have hread' := read_field_string_some key hbuffer htake
      by_cases hsplit : SPLIT_BYTE ∈ field
      · have hpair : split_pair (contents read) = some (field_key field, field_value field) := by
          rw [hcontents, split_pair_eq, if_pos hsplit]
        obtain ⟨key_buffer', value_buffer', hpairs, hkey', hvalue', hcapacity', hcapacity''⟩ :=
          split_key_value_pair_some value_buffer (show (contents read).length ≤ capacity value_buffer by
            rw [hcontents]; omega) hpair
        have hpairs' := split_key_value_pair_string_eq (key ++ field) value
        rw [if_pos (List.mem_append_right key hsplit)] at hpairs'
        have htail : decode_fields (read_field io_buffer io_buffer_capacity) split_key_value_pair contents field_count
              (offset + (field.length + 2)) key_buffer' value_buffer' =
            decode_fields (read_field_string io_buffer io_buffer_capacity) split_key_value_pair_string id field_count
              (offset + (field.length + 2)) (field_key field) (field_value field) ↔
            StringsEmpty field_count rest (field_key field) (field_value field) := by
          rw [hrest]
          exact ih (by omega) (by omega)
        simp only [decode_fields, hread, hread', hpairs, hpairs', StringsEmpty, htake, if_pos hsplit, hkey', hvalue',
          id, Prod.mk.injEq, List.cons.injEq, DecodedField.mk.injEq, and_true]
        rw [← htail, ← and_assoc, ← same_pair_iff hsplit]
        constructor
        · rintro ⟨⟨⟨hkeys, hvalues⟩, hfields⟩, hresult⟩
          rw [← hkeys, ← hvalues] at hfields hresult
          exact ⟨⟨hkeys, hvalues⟩, Prod.ext hfields hresult⟩
        · rintro ⟨⟨hkeys, hvalues⟩, hsame⟩
          rw [← hkeys, ← hvalues, hsame]
          exact ⟨⟨⟨rfl, rfl⟩, rfl⟩, rfl⟩
      · have hnone : split_pair (contents read) = none := by rw [hcontents, split_pair_eq, if_neg hsplit]
        have herror : split_key_value_pair read value_buffer = .error .ProtocolException :=
          split_key_value_pair_none hnone
        have hpairs' := split_key_value_pair_string_eq (key ++ field) value
        by_cases hmem : SPLIT_BYTE ∈ key
        · rw [if_pos (List.mem_append_left field hmem)] at hpairs'
          simp [decode_fields, hread, hread', herror, hpairs', StringsEmpty, htake, hsplit, hmem]
        · rw [if_neg (by simp [hmem, hsplit])] at hpairs'
          simp [decode_fields, hread, hread', herror, hpairs', StringsEmpty, htake, hsplit, hmem]

end

/-- `"="` and `"a=b"`. -/
def lone_split : Bytes := encode_fields [[SPLIT_BYTE], [0x61, SPLIT_BYTE, 0x62]]

theorem field_decoding_lone_split :
    decode_buffers lone_split 8 3 0 (with_capacity 8 : BoundedBuffer) (with_capacity 8) =
      decode_strings lone_split 8 3 0 [] [] :=
  (field_decoding (by decide) (by decide) (by decide)).mpr (by decide)

/-- `"a=b"` and `"c=d"`: as a string, the second key is `"ac"` and its value is `"bd"`. -/
def two_pairs : Bytes := encode_fields [[0x61, SPLIT_BYTE, 0x62], [0x63, SPLIT_BYTE, 0x64]]

theorem field_decoding_differs :
    ¬ ∀ (io_buffer : Bytes) (io_buffer_capacity field_count offset : Nat) (key_buffer value_buffer : BoundedBuffer)
        (key value : Bytes), io_buffer_capacity ≤ io_buffer.length →
      io_buffer_capacity - offset ≤ capacity key_buffer → io_buffer_capacity - offset ≤ capacity value_buffer →
        decode_buffers io_buffer io_buffer_capacity field_count offset key_buffer value_buffer =
          decode_strings io_buffer io_buffer_capacity field_count offset key value := by
  intro hall
  have hsame := hall two_pairs 10 2 0 (with_capacity 10) (with_capacity 10) [] [] (by decide) (by decide) (by decide)
  exact absurd (congrArg Prod.fst hsame) (by decide)

end protocol

end ufh
