import UniversalFencingHub.MsgHeader
import UniversalFencingHub.Shared.Protocol

open ufh.CharBuffer

namespace ufh

namespace protocol

/-- `read_field` that appends to a `std::string`: the result, the new offset and the string. -/
def read_field_string (io_buffer : Bytes) (io_buffer_capacity offset : Nat) (field_contents : Bytes) :
    Except Exception (Bool × Nat × Bytes) :=
  if offset < io_buffer_capacity ∧ io_buffer_capacity - offset ≥ 2 then
    let field_length : UInt16 := (io_buffer.getD offset 0).toUInt16 <<< 8
    let field_length := field_length ||| (io_buffer.getD (offset + 1) 0).toUInt16
    let remain_length := io_buffer_capacity - offset - 2
    if field_length.toNat ≤ remain_length then
      let field_contents := field_contents ++ (io_buffer.drop (offset + 2)).take field_length.toNat
      .ok (true, offset + (field_length.toNat + 2), field_contents)
    else .error .ProtocolException
  else .error .ProtocolException

/-- Writing fields in turn. -/
def write_fields (io_buffer : Bytes) (io_buffer_capacity offset : Nat) : List Bytes → Except Exception (Nat × Bytes)
  | [] => .ok (offset, io_buffer)
  | field_data :: rest =>
    match write_field io_buffer io_buffer_capacity offset field_data with
    | .ok (offset, io_buffer) => write_fields io_buffer io_buffer_capacity offset rest
    | .error exc => .error exc

/-- Reading fields in turn, each into a target of its own, by either overload of `read_field`. -/
def read_all {Target : Type} (read : Nat → Target → Except Exception (Bool × Nat × Target)) (offset : Nat) :
    List Target → Except Exception (Nat × List Target)
  | [] => .ok (offset, [])
  | target :: rest =>
    match read offset target with
    | .ok (_, offset, target) =>
      match read_all read offset rest with
      | .ok (offset, targets) => .ok (offset, target :: targets)
      | .error exc => .error exc
    | .error exc => .error exc

def read_buffers {Buf : Type} [CharBuffer Buf] (io_buffer : Bytes) (io_buffer_capacity offset : Nat)
    (field_buffers : List Buf) : Except Exception (Nat × List Buf) :=
  read_all (read_field io_buffer io_buffer_capacity) offset field_buffers

def read_strings (io_buffer : Bytes) (io_buffer_capacity offset field_count : Nat) :
    Except Exception (Nat × List Bytes) :=
  read_all (read_field_string io_buffer io_buffer_capacity) offset (List.replicate field_count [])

/-- Fields as they stand on the wire. -/
def encode_fields (fields : List Bytes) : Bytes := fields.flatMap encode_field

/-- The part of a buffer between an offset and the capacity. -/
def region (io_buffer : Bytes) (io_buffer_capacity offset : Nat) : Bytes :=
  (io_buffer.take io_buffer_capacity).drop offset

@[simp] theorem length_encode_field (data : Bytes) : (encode_field data).length = data.length + 2 := rfl

@[simp] theorem encode_fields_nil : encode_fields [] = [] := rfl

@[simp] theorem encode_fields_cons (data : Bytes) (rest : List Bytes) :
    encode_fields (data :: rest) = encode_field data ++ encode_fields rest :=
  List.flatMap_cons ..

theorem length_encode_fields (fields : List Bytes) :
    (encode_fields fields).length = (fields.map fun data => data.length + 2).sum := by
  induction fields with
  | nil => rfl
  | cons data rest ih => rw [encode_fields_cons, List.length_append, ih, length_encode_field,
      List.map_cons, List.sum_cons]

/-- Fields that can be written into the given room. -/
def FieldsFit (fields : List Bytes) (room : Nat) : Prop :=
  (∀ data ∈ fields, data.length ≤ 0xFFFF) ∧ (encode_fields fields).length ≤ room

theorem fields_fit_cons {data : Bytes} {rest : List Bytes} {room : Nat} :
    FieldsFit (data :: rest) room ↔
      (data.length ≤ 0xFFFF ∧ data.length + 2 ≤ room) ∧ FieldsFit rest (room - (data.length + 2)) := by
  simp only [FieldsFit, List.forall_mem_cons, encode_fields_cons, List.length_append, length_encode_field]
  constructor
  · rintro ⟨⟨hdata, hrest⟩, hlength⟩
    exact ⟨⟨hdata, by omega⟩, hrest, by omega⟩
  · rintro ⟨⟨hdata, hroom⟩, hrest, hlength⟩
    exact ⟨⟨hdata, hrest⟩, by omega⟩

theorem split_length {length : Nat} (h : length ≤ 0xFFFF) :
    (length / 256).toUInt8.toNat * 256 + (length % 256).toUInt8.toNat = length := by
  have hhigh : (length / 256).toUInt8.toNat = length / 256 := Nat.mod_eq_of_lt (by omega)
  have hlow : (length % 256).toUInt8.toNat = length % 256 := Nat.mod_eq_of_lt (by omega)
  rw [hhigh, hlow]
  omega

/-- A field in front of other bytes is taken off as it was written. -/
theorem take_field_encode {data : Bytes} (rest : Bytes) (h : data.length ≤ 0xFFFF) :
    take_field (encode_field data ++ rest) = some (data, rest) := by
  have hlength := split_length h
  simp only [encode_field, List.cons_append, take_field, hlength]
  rw [if_pos (by simp), List.take_left, List.drop_left]

/-- What is taken off a payload stands there in the form in which fields are written. -/
theorem encode_of_take_field {payload field rest : Bytes} (h : take_field payload = some (field, rest)) :
    payload = encode_field field ++ rest ∧ field.length ≤ 0xFFFF := by
  match payload with
  | [] => cases h
  | [_] => cases h
  | high :: low :: tail =>
    simp only [take_field] at h
    split at h
    · next hlength =>
      obtain ⟨rfl, rfl⟩ := Prod.mk.inj (Option.some.inj h)
      have hhigh := high.toNat_lt
      have hlow := low.toNat_lt
      have hfield : (tail.take (high.toNat * 256 + low.toNat)).length = high.toNat * 256 + low.toNat := by
        simp [hlength]
      have hfirst : ((high.toNat * 256 + low.toNat) / 256).toUInt8 = high := by
        apply UInt8.toNat_inj.mp
        change (high.toNat * 256 + low.toNat) / 256 % 256 = high.toNat
        omega
      have hsecond : ((high.toNat * 256 + low.toNat) % 256).toUInt8 = low := by
        apply UInt8.toNat_inj.mp
        change (high.toNat * 256 + low.toNat) % 256 % 256 = low.toNat
        omega
      refine ⟨?_, by omega⟩
      rw [encode_field, hfield, hfirst, hsecond, List.cons_append, List.cons_append, List.take_append_drop]
    · cases h

/-- A store behind another one. -/
theorem store_store {buffer first : Bytes} {offset : Nat} (second : Bytes)
    (h : offset + first.length ≤ buffer.length) :
    store (store buffer offset first) (offset + first.length) second = store buffer offset (first ++ second) := by
  have hfront : (buffer.take offset ++ first).length = offset + first.length := by
    simp only [List.length_append, List.length_take]
    omega
  have htake : (store buffer offset first).take (offset + first.length) = buffer.take offset ++ first := by
    rw [store, ← hfront, List.take_left]
  have hdrop : (store buffer offset first).drop (offset + first.length + second.length) =
      buffer.drop (offset + (first ++ second).length) := by
    rw [← List.drop_drop, store, ← hfront, List.drop_left, hfront, List.drop_drop, List.length_append, Nat.add_assoc]
  rw [store, htake, hdrop, store, ← List.append_assoc]

/-- What was stored is found between the two offsets. -/
theorem region_store {buffer : Bytes} {offset : Nat} (data : Bytes) (h : offset ≤ buffer.length) :
    region (store buffer offset data) (offset + data.length) offset = data := by
  rw [region, take_store h, List.drop_append, List.length_take, Nat.min_eq_left h, Nat.sub_self, List.drop_zero,
    List.drop_eq_nil_of_le (List.length_take_le ..), List.nil_append]

section

variable {io_buffer : Bytes} {io_buffer_capacity offset stop : Nat}

/-- `write_field` writes a field exactly when it fits. -/
theorem write_field_eq (hbuffer : io_buffer_capacity ≤ io_buffer.length) (data : Bytes) :
    write_field io_buffer io_buffer_capacity offset data =
      if data.length ≤ 0xFFFF ∧ data.length + 2 ≤ io_buffer_capacity - offset then
        .ok (offset + (data.length + 2), store io_buffer offset (encode_field data))
      else .error .ProtocolException := by
  unfold write_field
  simp only
  by_cases hlong : data.length > 0xFFFF
  · rw [if_pos hlong, if_neg (by omega)]
  · rw [if_neg hlong]
    by_cases hroom : data.length + 2 ≤ io_buffer_capacity - offset
    · have hshift : data.length >>> 8 = data.length / 256 := Nat.shiftRight_eq_div_pow _ 8
      have hmask : data.length &&& 0xFF = data.length % 256 := Nat.and_two_pow_sub_one_eq_mod _ 8
      have hlengths : offset + [(data.length / 256).toUInt8,
          (data.length % 256).toUInt8].length ≤ io_buffer.length := by
        change offset + 2 ≤ _
        omega
      rw [if_pos (by omega), if_pos (by omega), if_pos ⟨by omega, hroom⟩, hshift, hmask]
      have hstore := store_store data hlengths
      change store (store io_buffer offset _) (offset + 2) data = _ at hstore
      rw [hstore, Nat.add_assoc, Nat.add_comm 2]
      rfl
    · rw [if_neg (fun hboth : data.length ≤ 0xFFFF ∧ _ => hroom hboth.2)]
      split
      · rw [if_neg (by omega)]
      · rfl

/-- Fields are written in turn when all of them fit. -/
theorem write_fields_ok (hbuffer : io_buffer_capacity ≤ io_buffer.length) {fields : List Bytes}
    (hfits : FieldsFit fields (io_buffer_capacity - offset)) :
    write_fields io_buffer io_buffer_capacity offset fields =
      .ok (offset + (encode_fields fields).length, store io_buffer offset (encode_fields fields)) := by
  induction fields generalizing io_buffer offset with
  | nil =>
    rw [encode_fields_nil, store_nil]
    rfl
  | cons data rest ih =>
    obtain ⟨hfirst, hrest⟩ := fields_fit_cons.mp hfits
    have hlength : offset + (encode_field data).length ≤ io_buffer.length := by
      rw [length_encode_field]
      omega
    have hstored : io_buffer_capacity ≤ (store io_buffer offset (encode_field data)).length := by
      rwa [length_store hlength]
    have hstore := store_store (encode_fields rest) hlength
    rw [length_encode_field] at hstore
    rw [write_fields, write_field_eq hbuffer, if_pos hfirst]
    simp only
    rw [Nat.sub_sub] at hrest
    rw [ih hstored hrest, hstore, encode_fields_cons, List.length_append, length_encode_field, Nat.add_assoc]

theorem write_fields_error (hbuffer : io_buffer_capacity ≤ io_buffer.length) {fields : List Bytes}
    (hfits : ¬ FieldsFit fields (io_buffer_capacity - offset)) :
    write_fields io_buffer io_buffer_capacity offset fields = .error .ProtocolException := by
  induction fields generalizing io_buffer offset with
  | nil => exact absurd ⟨nofun, Nat.zero_le _⟩ hfits
  | cons data rest ih =>
    rw [write_fields, write_field_eq hbuffer]
    by_cases hfirst : data.length ≤ 0xFFFF ∧ data.length + 2 ≤ io_buffer_capacity - offset
    · have hlength : offset + (encode_field data).length ≤ io_buffer.length := by
        rw [length_encode_field]
        omega
      rw [if_pos hfirst]
      apply ih
      · rwa [length_store hlength]
      · intro hrest
        rw [← Nat.sub_sub] at hrest
        exact hfits (fields_fit_cons.mpr ⟨hfirst, hrest⟩)
    · rw [if_neg hfirst]

/-- The next field takes no more room than the region has. -/
theorem take_region_length {field rest : Bytes}
    (htake : take_field (region io_buffer io_buffer_capacity offset) = some (field, rest)) :
    field.length + 2 ≤ io_buffer_capacity - offset := by
  have hlength := take_field_length htake
  simp only [region, List.length_drop, List.length_take] at hlength
  omega

theorem region_append_drop {front back : Bytes} (h : region io_buffer io_buffer_capacity offset = front ++ back) :
    region io_buffer io_buffer_capacity (offset + front.length) = back := by
  rw [region, ← List.drop_drop]
  change (region io_buffer io_buffer_capacity offset).drop front.length = back
  rw [h, List.drop_left]

/-- What both overloads of `read_field` do with a target that has room for the field. -/
structure ReadsFields {Target : Type} (io_buffer : Bytes) (io_buffer_capacity : Nat)
    (read : Nat → Target → Except Exception (Bool × Nat × Target)) (value : Target → Bytes)
    (room : Target → Bytes → Prop) : Prop where
  taken : ∀ offset target field rest, room target field →
    take_field (region io_buffer io_buffer_capacity offset) = some (field, rest) →
    ∃ result, read offset target = .ok (true, offset + (field.length + 2), result) ∧ value result = field
  rejected : ∀ offset target, take_field (region io_buffer io_buffer_capacity offset) = none →
    read offset target = .error .ProtocolException

theorem reads_fields_buffer {Buf : Type} [CharBuffer Buf] [LawfulCharBuffer Buf]
    (hbuffer : io_buffer_capacity ≤ io_buffer.length) :
    ReadsFields io_buffer io_buffer_capacity (read_field io_buffer io_buffer_capacity) (contents : Buf → Bytes)
      (fun target field => field.length ≤ capacity target) where
  taken offset target field rest hroom htake := by
    obtain ⟨result, hread, hcontents, _⟩ := read_field_some target hbuffer htake hroom
    exact ⟨result, hread, hcontents⟩
  rejected offset target htake := read_field_none hbuffer htake

/-- `read_field` appends the next field to a string. -/
theorem read_field_string_some (target : Bytes) {field rest : Bytes} (hbuffer : io_buffer_capacity ≤ io_buffer.length)
    (htake : take_field (region io_buffer io_buffer_capacity offset) = some (field, rest)) :
    read_field_string io_buffer io_buffer_capacity offset target =
      .ok (true, offset + (field.length + 2), target ++ field) := by
  by_cases hroom : offset < io_buffer_capacity ∧ io_buffer_capacity - offset ≥ 2
  · obtain ⟨length, hlength⟩ : ∃ length,
        (io_buffer.getD offset 0).toNat * 256 + (io_buffer.getD (offset + 1) 0).toNat = length := ⟨_, rfl⟩
    have hread := take_field_of_room hbuffer hroom hlength
    rw [show take_field ((io_buffer.take io_buffer_capacity).drop offset) = some (field, rest) from htake] at hread
    split at hread
    · next hfits =>
      obtain ⟨rfl, rfl⟩ := Prod.mk.inj (Option.some.inj hread)
      have hfield : ((io_buffer.drop (offset + 2)).take length).length = length := by
        rw [List.length_take, List.length_drop]
        omega
      simp only [read_field_string, join_bytes, hlength]
      rw [if_pos hroom, if_pos hfits, hfield]
    · cases hread
  · have hnone := take_field_of_no_room io_buffer hroom
    rw [show take_field ((io_buffer.take io_buffer_capacity).drop offset) = some (field, rest) from htake] at hnone
    cases hnone

theorem reads_fields_string (hbuffer : io_buffer_capacity ≤ io_buffer.length) :
    ReadsFields io_buffer io_buffer_capacity (read_field_string io_buffer io_buffer_capacity) id
      (fun target _ => target = []) where
  taken offset target field rest hempty htake := by
    refine ⟨_, read_field_string_some target hbuffer htake, ?_⟩
    rw [hempty]
    rfl
  rejected offset target htake := by
    unfold read_field_string
    by_cases hroom : offset < io_buffer_capacity ∧ io_buffer_capacity - offset ≥ 2
    · have hread := take_field_of_room hbuffer hroom rfl
      rw [show take_field ((io_buffer.take io_buffer_capacity).drop offset) = none from htake] at hread
      split at hread
      · cases hread
      · next hlong =>
        rw [if_pos hroom]
        simp only [join_bytes]
        rw [if_neg hlong]
    · rw [if_neg hroom]

section

variable {Target : Type} {read : Nat → Target → Except Exception (Bool × Nat × Target)} {value : Target → Bytes}
  {room : Target → Bytes → Prop}

/-- Fields that were written are read back in order. -/
theorem ReadsFields.read_all_ok (h : ReadsFields io_buffer io_buffer_capacity read value room) {fields : List Bytes}
    {targets : List Target} (hroom : List.Forall₂ room targets fields) (hlong : ∀ data ∈ fields, data.length ≤ 0xFFFF)
    {rest : Bytes} (hregion : region io_buffer io_buffer_capacity offset = encode_fields fields ++ rest) :
    ∃ results, read_all read offset targets = .ok (offset + (encode_fields fields).length, results) ∧
      results.map value = fields := by
  induction hroom generalizing offset with
  | nil => exact ⟨[], rfl, rfl⟩
  | @cons target data targets fields hfirst _ ih =>
    obtain ⟨hdata, hlong⟩ := List.forall_mem_cons.mp hlong
    rw [encode_fields_cons, List.append_assoc] at hregion
    have htake := take_field_encode (encode_fields fields ++ rest) hdata
    rw [← hregion] at htake
    obtain ⟨result, hread, hvalue⟩ := h.taken offset target data _ hfirst htake
    obtain ⟨results, hall, hvalues⟩ := ih hlong (region_append_drop hregion)
    rw [length_encode_field] at hall
    refine ⟨result :: results, ?_, ?_⟩
    · rw [read_all, hread]
      simp only [hall, encode_fields_cons, List.length_append, length_encode_field, Nat.add_assoc]
    · rw [List.map_cons, hvalue, hvalues]

/-- Fields that are read stand in the buffer in the form in which they are written. -/
theorem ReadsFields.encode_of_read_all (h : ReadsFields io_buffer io_buffer_capacity read value room)
    {targets results : List Target} (hroom : ∀ target ∈ targets, ∀ field : Bytes,
      field.length + 2 ≤ io_buffer_capacity - offset → room target field)
    (hall : read_all read offset targets = .ok (stop, results)) :
    stop = offset + (encode_fields (results.map value)).length ∧
      (∀ data ∈ results.map value, data.length ≤ 0xFFFF) ∧
      region io_buffer io_buffer_capacity offset =
        encode_fields (results.map value) ++ region io_buffer io_buffer_capacity stop := by
  induction targets generalizing offset results with
  | nil =>
    cases hall
    exact ⟨rfl, nofun, rfl⟩
  | cons target targets ih =>
    obtain ⟨hfirst, hothers⟩ := List.forall_mem_cons.mp hroom
    rw [read_all] at hall
    cases htake : take_field (region io_buffer io_buffer_capacity offset) with
    | none =>
      rw [h.rejected offset target htake] at hall
      cases hall
    | some taken =>
      obtain ⟨field, rest⟩ := taken
      have hbound := take_region_length htake
      obtain ⟨result, hread, hvalue⟩ := h.taken offset target field rest (hfirst field (by omega)) htake
      obtain ⟨hregion, hlong⟩ := encode_of_take_field htake
      rw [hread] at hall
      simp only at hall
      cases hrest : read_all read (offset + (field.length + 2)) targets with
      | error exc =>
        rw [hrest] at hall
        cases hall
      | ok read =>
        obtain ⟨last, values⟩ := read
        rw [hrest] at hall
        obtain ⟨rfl, rfl⟩ := Prod.mk.inj (Except.ok.inj hall)
        obtain ⟨hstop, hshort, htail⟩ := ih
          (fun other hother data hdata => hothers other hother data (by omega)) hrest
        have hdrop := region_append_drop hregion
        rw [length_encode_field] at hdrop
        refine ⟨?_, ?_, ?_⟩
        · rw [hstop, List.map_cons, encode_fields_cons, List.length_append, length_encode_field, hvalue]
          omega
        · rw [List.map_cons, hvalue]
          exact List.forall_mem_cons.mpr ⟨hlong, hshort⟩
        · rw [hregion, List.map_cons, encode_fields_cons, hvalue, List.append_assoc, ← htail, hdrop]

end

/-- Reading back what was written, with the end of the last field as the capacity. -/
theorem ReadsFields.round_trip {Target : Type} {read : Nat → Target → Except Exception (Bool × Nat × Target)}
    {value : Target → Bytes} {room : Target → Bytes → Prop} {written : Bytes} {fields : List Bytes}
    {targets : List Target} (hbuffer : io_buffer_capacity ≤ io_buffer.length)
    (hwrite : write_fields io_buffer io_buffer_capacity offset fields = .ok (stop, written))
    (hreads : stop ≤ written.length → ReadsFields written stop read value room)
    (hroom : List.Forall₂ room targets fields) :
    ∃ results, read_all read offset targets = .ok (stop, results) ∧ results.map value = fields := by
  cases fields with
  | nil =>
    cases hroom
    obtain ⟨rfl, rfl⟩ := Prod.mk.inj (Except.ok.inj hwrite)
    exact ⟨[], rfl, rfl⟩
  | cons data rest =>
    by_cases hfits : FieldsFit (data :: rest) (io_buffer_capacity - offset)
    · have hdata := (fields_fit_cons.mp hfits).1
      have hlength : offset + (encode_fields (data :: rest)).length ≤ io_buffer.length := by
        have hsize := hfits.2
        omega
      rw [write_fields_ok hbuffer hfits] at hwrite
      obtain ⟨rfl, rfl⟩ := Prod.mk.inj (Except.ok.inj hwrite)
      have hregion := region_store (encode_fields (data :: rest)) (show offset ≤ io_buffer.length by omega)
      exact (hreads (by rwa [length_store hlength])).read_all_ok hroom hfits.1 (hregion.trans (List.append_nil _).symm)
    · rw [write_fields_error hbuffer hfits] at hwrite
      cases hwrite

theorem empty_strings (fields : List Bytes) :
    List.Forall₂ (fun target _ => target = ([] : Bytes)) (List.replicate fields.length []) fields := by
  induction fields with
  | nil => exact .nil
  | cons data rest ih => exact .cons rfl ih

/-- Writing what was read reproduces the region that was read. -/
theorem rewrite_region {fields : List Bytes} (hstop : io_buffer_capacity = offset + (encode_fields fields).length)
    (hlong : ∀ data ∈ fields, data.length ≤ 0xFFFF)
    (hregion : region io_buffer io_buffer_capacity offset =
      encode_fields fields ++ region io_buffer io_buffer_capacity io_buffer_capacity) {target : Bytes}
    (htarget : io_buffer_capacity ≤ target.length) :
    ∃ written, write_fields target io_buffer_capacity offset fields = .ok (io_buffer_capacity, written) ∧
      region written io_buffer_capacity offset = region io_buffer io_buffer_capacity offset := by
  have hempty : region io_buffer io_buffer_capacity io_buffer_capacity = [] :=
    List.drop_eq_nil_of_le (List.length_take_le ..)
  rw [hempty, List.append_nil] at hregion
  have hfits : FieldsFit fields (io_buffer_capacity - offset) := ⟨hlong, by omega⟩
  have hwritten := write_fields_ok htarget hfits
  have hstored := region_store (encode_fields fields) (show offset ≤ target.length by omega)
  rw [← hstop] at hwritten hstored
  exact ⟨_, hwritten, hstored.trans hregion.symm⟩

/-- Writing and reading fields, and serializing and deserializing headers, are inverse
to each other. -/
theorem wire_format_round_trip (Buf : Type) [CharBuffer Buf] [LawfulCharBuffer Buf] (header : MsgHeader)
    (fields : List Bytes) (io_buffer : Bytes) (io_buffer_capacity offset : Nat)
    (hbuffer : io_buffer_capacity ≤ io_buffer.length) :
    ((∃ stop written, write_fields io_buffer io_buffer_capacity offset fields = .ok (stop, written)) ↔
      (∀ data ∈ fields, data.length ≤ 65535) ∧
        (fields.map fun data => 2 + data.length).sum ≤ io_buffer_capacity - offset) ∧
    (∀ stop written, write_fields io_buffer io_buffer_capacity offset fields = .ok (stop, written) →
      (∀ field_buffers : List Buf, List.Forall₂ (fun buf data => data.length ≤ capacity buf) field_buffers fields →
        ∃ results, read_buffers written stop offset field_buffers = .ok (stop, results) ∧
          results.map contents = fields) ∧
      read_strings written stop offset fields.length = .ok (stop, fields)) ∧
    (MsgHeader.HEADER_SIZE ≤ io_buffer.length → MsgHeader.deserialize (header.serialize io_buffer) = header) ∧
    (∀ target : Bytes, io_buffer_capacity ≤ target.length →
      (∀ field_buffers results : List Buf, (∀ buf ∈ field_buffers, io_buffer_capacity - offset ≤ capacity buf) →
        read_buffers io_buffer io_buffer_capacity offset field_buffers = .ok (io_buffer_capacity, results) →
        ∃ written, write_fields target io_buffer_capacity offset (results.map contents) =
            .ok (io_buffer_capacity, written) ∧
          region written io_buffer_capacity offset = region io_buffer io_buffer_capacity offset) ∧
      ∀ field_count results,
        read_strings io_buffer io_buffer_capacity offset field_count = .ok (io_buffer_capacity, results) →
        ∃ written, write_fields target io_buffer_capacity offset results = .ok (io_buffer_capacity, written) ∧
          region written io_buffer_capacity offset = region io_buffer io_buffer_capacity offset) := by
  refine ⟨?_, ?_, ?_, ?_⟩
  · have hsum : (fields.map fun data => 2 + data.length).sum = (encode_fields fields).length := by
      rw [length_encode_fields]
      simp only [Nat.add_comm]
    rw [hsum]
    constructor
    · rintro ⟨stop, written, hwrite⟩
      by_contra hfits
      rw [write_fields_error hbuffer hfits] at hwrite
      cases hwrite
    · intro hfits
      exact ⟨_, _, write_fields_ok hbuffer hfits⟩
  · intro stop written hwrite
    refine ⟨?_, ?_⟩
    · intro field_buffers hroom
      exact ReadsFields.round_trip hbuffer hwrite reads_fields_buffer hroom
    · obtain ⟨results, hread, hvalues⟩ :=
        ReadsFields.round_trip hbuffer hwrite reads_fields_string (empty_strings fields)
      rw [List.map_id] at hvalues
      rw [read_strings, hread, hvalues]
  · intro hheader
    rw [header.serialize_eq hheader, MsgHeader.deserialize_append header.length_wire, header.deserialize_wire]
  · intro target htarget
    refine ⟨?_, ?_⟩
    · intro field_buffers results hlarge hread
      obtain ⟨hstop, hlong, hregion⟩ := (reads_fields_buffer hbuffer).encode_of_read_all
        (fun buf hbuf data hdata => by have hsize := hlarge buf hbuf; omega) hread
      exact rewrite_region hstop hlong hregion htarget
    · intro field_count results hread
      obtain ⟨hstop, hlong, hregion⟩ := (reads_fields_string hbuffer).encode_of_read_all
        (fun string hstring _ _ => List.eq_of_mem_replicate hstring) hread
      rw [List.map_id] at hstop hlong hregion
      exact rewrite_region hstop hlong hregion htarget

end

/-- Two fields that fill a buffer behind its header. -/
theorem wire_format_round_trip_exact_fit : ∃ stop written,
    write_fields (zero_memory 9) 9 4 [[0x80], []] = .ok (stop, written) ∧
      read_strings written stop 4 2 = .ok (stop, [[0x80], []]) := by
  obtain ⟨hwrites, hreads, _⟩ := wire_format_round_trip BoundedBuffer {} [[0x80], []] (zero_memory 9) 9 4 (by decide)
  obtain ⟨stop, written, hwrite⟩ := hwrites.mpr (by decide)
  exact ⟨stop, written, hwrite, (hreads stop written hwrite).2⟩

end protocol

end ufh
