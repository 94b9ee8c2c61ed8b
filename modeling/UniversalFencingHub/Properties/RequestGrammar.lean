import UniversalFencingHub.Library.Loop
import UniversalFencingHub.ServerConnector.Request
import UniversalFencingHub.Shared.WireFormat

open looping
open ufh.CharBuffer

namespace ufh

namespace protocol

/-- The part of a field before its first `'='`. -/
def field_key (field : Bytes) : Bytes := before_first SPLIT_BYTE field

/-- The part of a field after its first `'='`. -/
def field_value (field : Bytes) : Bytes := after_first SPLIT_BYTE field

/-- The value of the last field with a key, empty if there is none. -/
def value_of (key : Bytes) (fields : List Bytes) : Bytes :=
  ((fields.filter fun field => field_key field = key).getLast?).elim [] field_value

/-- The fields of a request that the hub carries out. -/
structure FenceRequest (fields : List Bytes) : Prop where
  data_length : ∀ field ∈ fields, field.length ≤ 0xFFFF
  split : ∀ field ∈ fields, SPLIT_BYTE ∈ field
  nodename_fits : ∀ field ∈ fields, field_key field = NODENAME →
    (field_value field).length ≤ NetClient.NODENAME_SIZE
  secret_fits : ∀ field ∈ fields, field_key field = SECRET → (field_value field).length ≤ MAX_SECRET_LENGTH
  nodename : value_of NODENAME fields ≠ []

/-- A field is split exactly when it contains a `'='`. -/
theorem split_pair_eq (field : Bytes) :
    split_pair field = if SPLIT_BYTE ∈ field then some (field_key field, field_value field) else none := by
  unfold split_pair
  rw [findIdx?_eq_before_first]
  split
  · rw [Option.map_some, take_length_before_first, drop_length_before_first]
    rfl
  · rfl

/-- The pairs of a payload that consists of fields. -/
theorem leading_pairs_encode {fields : List Bytes} {fuel : Nat} (hlength : ∀ field ∈ fields, field.length ≤ 0xFFFF)
    (hsplit : ∀ field ∈ fields, SPLIT_BYTE ∈ field) (hfuel : (encode_fields fields).length ≤ fuel) :
    leading_pairs fuel (encode_fields fields) = (fields.map fun field =>
        (field_key field, field_value field), true) := by
  induction fields generalizing fuel with
  | nil =>
    cases fuel with
    | zero => rfl
    | succ fuel => rfl
  | cons field rest ih =>
    obtain ⟨hfield, hlength⟩ := List.forall_mem_cons.mp hlength
    obtain ⟨hbyte, hsplit⟩ := List.forall_mem_cons.mp hsplit
    rw [encode_fields_cons, List.length_append, length_encode_field] at hfuel
    obtain ⟨fuel, rfl⟩ : ∃ smaller, fuel = smaller + 1 := ⟨fuel - 1, by omega⟩
    have htake := take_field_encode (encode_fields rest) hfield
    have hpair : split_pair field = some (field_key field, field_value field) := by
      rw [split_pair_eq, if_pos hbyte]
    have hrest := ih hlength hsplit (show (encode_fields rest).length ≤ fuel by omega)
    rw [encode_fields_cons, leading_pairs, if_neg (by simp [encode_field]), htake]
    simp only [hpair, hrest, List.map_cons]

/-- A payload that is read as a whole consists of fields. -/
theorem encode_of_leading_pairs {payload : Bytes} {fuel : Nat} {pairs : List (Bytes × Bytes)}
    (hfuel : payload.length ≤ fuel) (hread : leading_pairs fuel payload = (pairs, true)) :
    ∃ fields, payload = encode_fields fields ∧ (∀ field ∈ fields, field.length ≤ 0xFFFF) ∧
      (∀ field ∈ fields, SPLIT_BYTE ∈ field) ∧
      pairs = fields.map fun field => (field_key field, field_value field) := by
  induction fuel generalizing payload pairs with
  | zero =>
    obtain rfl := List.eq_nil_of_length_eq_zero (Nat.le_zero.mp hfuel)
    cases hread
    exact ⟨[], rfl, nofun, nofun, rfl⟩
  | succ fuel ih =>
    by_cases hempty : payload = []
    · rw [leading_pairs, if_pos hempty] at hread
      cases hread
      exact ⟨[], hempty, nofun, nofun, rfl⟩
    · rw [leading_pairs, if_neg hempty] at hread
      cases htake : take_field payload with
      | none =>
        rw [htake] at hread
        cases hread
      | some taken =>
        obtain ⟨field, rest⟩ := taken
        have hshorter := take_field_length htake
        obtain ⟨hpayload, hfield⟩ := encode_of_take_field htake
        rw [htake] at hread
        simp only [split_pair_eq] at hread
        by_cases hbyte : SPLIT_BYTE ∈ field
        · rw [if_pos hbyte] at hread
          cases hrest : leading_pairs fuel rest with
          | mk others complete =>
            rw [hrest] at hread
            obtain ⟨rfl, rfl⟩ := Prod.mk.inj hread
            obtain ⟨fields, rfl, hlength, hsplit, rfl⟩ := ih (by omega) hrest
            refine ⟨field :: fields, ?_, ?_, ?_, rfl⟩
            · rw [hpayload, encode_fields_cons]
            · exact List.forall_mem_cons.mpr ⟨hfield, hlength⟩
            · exact List.forall_mem_cons.mpr ⟨hbyte, hsplit⟩
        · rw [if_neg hbyte] at hread
          cases hread

theorem last_value_eq (key : Bytes) (fields : List Bytes) (value : Bytes) :
    last_value key (fields.map fun field => (field_key field, field_value field)) value =
      ((fields.filter fun field => field_key field = key).getLast?).elim value field_value := by
  induction fields generalizing value with
  | nil => rfl
  | cons field rest ih =>
    rw [List.map_cons, last_value, ih]
    by_cases hkey : field_key field = key
    · rw [List.filter_cons_of_pos (by simp [hkey]), if_pos hkey, List.getLast?_cons]
      cases (rest.filter fun field => field_key field = key).getLast? with
      | none => rfl
      | some last => rfl
    · rw [List.filter_cons_of_neg (by simp [hkey]), if_neg hkey]

theorem oversized_eq_false {fields : List Bytes} :
    (fields.map fun field => (field_key field, field_value field)).any oversized = false ↔
      (∀ field ∈ fields, field_key field = NODENAME → (field_value field).length ≤ NetClient.NODENAME_SIZE) ∧
        ∀ field ∈ fields, field_key field = SECRET → (field_value field).length ≤ MAX_SECRET_LENGTH := by
  rw [List.any_eq_false]
  simp only [List.forall_mem_map, oversized, Bool.or_eq_true, Bool.and_eq_true, beq_iff_eq, decide_eq_true_eq,
    gt_iff_lt, not_or, not_and, Nat.not_lt]
  exact ⟨fun h => ⟨fun field hfield => (h field hfield).1, fun field hfield => (h field hfield).2⟩,
    fun h field hfield => ⟨h.1 field hfield, h.2 field hfield⟩⟩

/-- The payloads that ask for a fence action, and what they pass to it. -/
theorem parse_request_fence {payload nodename secret : Bytes} :
    parse_request payload = .fence nodename secret ↔
      ∃ fields, payload = encode_fields fields ∧ FenceRequest fields ∧
        nodename = value_of NODENAME fields ∧ secret = value_of SECRET fields := by
  unfold parse_request
  constructor
  · intro hparse
    cases hread : leading_pairs payload.length payload with
    | mk pairs complete =>
      simp only [hread] at hparse
      split at hparse
      · cases hparse
      · next hfits =>
        cases complete with
        | false => cases hparse
        | true =>
          obtain ⟨fields, hpayload, hlength, hsplit, rfl⟩ := encode_of_leading_pairs le_rfl hread
          rw [Bool.not_eq_true] at hfits
          obtain ⟨hnodename, hsecret⟩ := oversized_eq_false.mp hfits
          simp only [last_value_eq] at hparse
          split at hparse
          · cases hparse
          · split at hparse
            · cases hparse
            · next hgiven =>
              obtain ⟨rfl, rfl⟩ := Request.fence.inj hparse
              exact ⟨fields, hpayload, ⟨hlength, hsplit, hnodename, hsecret, hgiven⟩, rfl, rfl⟩
  · rintro ⟨fields, rfl, hrequest, rfl, rfl⟩
    have hfits := oversized_eq_false.mpr ⟨hrequest.nodename_fits, hrequest.secret_fits⟩
    rw [leading_pairs_encode hrequest.data_length hrequest.split le_rfl]
    simp only [hfits, last_value_eq, Bool.false_eq_true, if_false, Bool.not_true]
    exact if_neg hrequest.nodename

/-- A field that is read advances the offset, and it ends in front of the capacity. -/
theorem read_field_advances {Buf : Type} [CharBuffer Buf] {io_buffer : Bytes} {io_buffer_capacity offset next : Nat}
    {field_buffer result : Buf} {have_field : Bool}
    (hread : read_field io_buffer io_buffer_capacity offset field_buffer = .ok (have_field, next, result)) :
    offset + 2 ≤ next ∧ next ≤ io_buffer_capacity := by
  unfold read_field at hread
  simp only at hread
  split at hread
  · split at hread
    · split at hread
      · cases hread
        omega
      · cases hread
    · cases hread
  · cases hread

end protocol

namespace NetClient

variable {Buf : Type} [CharBuffer Buf] {client : NetClient Buf} {fence : Server.FenceActionMethod} {success_flag : Bool}
  {nodename secret : Bytes}

/-- One round of the field loop of `fence_action`. -/
def field_round : NetClient Buf × Nat → (NetClient Buf × Nat) ⊕ (NetClient Buf × Except Exception Unit)
  | (client, field_offset) =>
    if field_offset < client.io_offset then
      match protocol.read_field client.io_buffer client.io_offset field_offset client.key_buffer with
      | .error exception => .inr (client, .error exception)
      | .ok (_, field_offset, key_buffer) =>
        match protocol.split_key_value_pair key_buffer client.value_buffer with
        | .error exception => .inr ({ client with key_buffer }, .error exception)
        | .ok (key_buffer, value_buffer) =>
          let client := { client with key_buffer, value_buffer }
          if equals client.key_buffer protocol.NODENAME then
            match assign client.nodename client.value_buffer with
            | .error _ => .inr (client, .error .RangeException)
            | .ok nodename => .inl ({ client with nodename }, field_offset)
          else if equals client.key_buffer protocol.SECRET then
            match assign client.secret client.value_buffer with
            | .error _ => .inr (client, .error .RangeException)
            | .ok secret => .inl ({ client with secret }, field_offset)
          else .inl (client, field_offset)
    else .inr (client, .ok ())

/-- The field loop ends, since every field that is read advances the offset. -/
theorem field_loop_ends (fuel : Nat) (client : NetClient Buf) (field_offset : Nat)
    (hfuel : client.io_offset - field_offset ≤ fuel) :
    Ends field_round (client, field_offset) (read_fields fuel client field_offset) := by
  induction fuel generalizing client field_offset with
  | zero =>
    refine .finish ?_
    unfold field_round
    simp only
    rw [if_neg (by omega)]
    rfl
  | succ fuel ih =>
    by_cases hmore : field_offset < client.io_offset
    · rw [read_fields, if_pos hmore]
      cases hread : protocol.read_field client.io_buffer client.io_offset field_offset client.key_buffer with
      | error exception =>
        refine .finish ?_
        simp only [field_round, if_pos hmore, hread]
      | ok field =>
        obtain ⟨have_field, next, key_buffer⟩ := field
        obtain ⟨hadvance, _⟩ := protocol.read_field_advances hread
        simp only
        cases hsplit : protocol.split_key_value_pair key_buffer client.value_buffer with
        | error exception =>
          refine .finish ?_
          simp only [field_round, if_pos hmore, hread, hsplit]
        | ok pair =>
          obtain ⟨key_buffer, value_buffer⟩ := pair
          simp only
          split
          · next hkey =>
            cases hassign : assign client.nodename value_buffer with
            | error exceeds =>
              refine .finish ?_
              simp only [field_round, if_pos hmore, hread, hsplit, if_pos hkey, hassign]
            | ok nodename =>
              refine (ends_next ?_).mpr (ih _ next (by simp only; omega))
              simp only [field_round, if_pos hmore, hread, hsplit, if_pos hkey, hassign]
          · next hkey =>
            split
            · next hother =>
              cases hassign : assign client.secret value_buffer with
              | error exceeds =>
                refine .finish ?_
                simp only [field_round, if_pos hmore, hread, hsplit, if_neg hkey, if_pos hother, hassign]
              | ok secret =>
                refine (ends_next ?_).mpr (ih _ next (by simp only; omega))
                simp only [field_round, if_pos hmore, hread, hsplit, if_neg hkey, if_pos hother, hassign]
            · next hother =>
              refine (ends_next ?_).mpr (ih _ next (by simp only; omega))
              simp only [field_round, if_pos hmore, hread, hsplit, if_neg hkey, if_neg hother]
    · rw [read_fields, if_neg hmore]
      refine .finish ?_
      simp only [field_round, if_neg hmore]

/-- The text buffers of two clients hold the same text. -/
structure SameTexts (client other : NetClient Buf) : Prop where
  key_buffer : contents client.key_buffer = contents other.key_buffer
  value_buffer : contents client.value_buffer = contents other.value_buffer
  nodename : contents client.nodename = contents other.nodename
  secret : contents client.secret = contents other.secret

/-- What a client holds beside its buffers. -/
def beside_buffers (client : NetClient Buf) : Int × Phase × Phase × IoOp × MsgHeader × Bool × Nat :=
  (client.socket_fd, client.current_phase, client.next_phase, client.io_state, client.header, client.have_header,
    client.io_offset)

/-- Two results of the field loop: the same outcome, and the same client up to its receive buffer. -/
structure SameResult (result other : NetClient Buf × Except Exception Unit) : Prop where
  outcome : result.2 = other.2
  texts : SameTexts result.1 other.1
  rest : result.1.beside_buffers = other.1.beside_buffers

/-- Two clients that have received the same bytes, and differ in the rest of the receive buffer at most. -/
structure Alike (client other : NetClient Buf) : Prop where
  capacities : client.Capacities
  other_capacities : other.Capacities
  filled : client.io_offset ≤ client.io_buffer.length
  other_filled : other.io_offset ≤ other.io_buffer.length
  fits : client.io_offset ≤ FIELD_SIZE
  received : client.io_buffer.take client.io_offset = other.io_buffer.take other.io_offset
  texts : SameTexts client other
  rest : client.beside_buffers = other.beside_buffers

/-- The buffers that a round of the loop has changed. -/
theorem Alike.texts_changed {other client' other' : NetClient Buf} (h : Alike client other)
    (hclient : SameExceptBuffers client' client) (hother : SameExceptBuffers other' other)
    (hcapacities : client'.Capacities) (hother_capacities : other'.Capacities) (htexts : SameTexts client' other') :
    Alike client' other' := by
  obtain ⟨_, _, hfilled, hother_filled, hfits, hreceived, _, hrest⟩ := h
  obtain ⟨_, _, _, _, rfl⟩ := hclient
  obtain ⟨_, _, _, _, rfl⟩ := hother
  exact ⟨hcapacities, hother_capacities, hfilled, hother_filled, hfits, hreceived, htexts, hrest⟩

theorem Alike.same_result {other : NetClient Buf} (h : Alike client other) (outcome : Except Exception Unit) :
    SameResult (client, outcome) (other, outcome) := ⟨rfl, h.texts, h.rest⟩

/-- What `assign` does depends on the text of the source and on the capacity of the target. -/
theorem assign_alike [LawfulCharBuffer Buf] {target other_target source other_source : Buf}
    (hcapacity : capacity target = capacity other_target) (hsource : contents source = contents other_source) :
    (assign target source = .error {} ∧ assign other_target other_source = .error {}) ∨
      ∃ result other_result, assign target source = .ok result ∧ assign other_target other_source = .ok other_result ∧
        contents result = contents other_result ∧ capacity result = capacity target ∧
        capacity other_result = capacity other_target := by
  by_cases hfits : (contents source).length ≤ capacity target
  · obtain ⟨result, hresult, hcontents, hsame⟩ := LawfulCharBuffer.assign_fits target source hfits
    obtain ⟨other_result, hother, hother_contents, hother_same⟩ :=
      LawfulCharBuffer.assign_fits other_target other_source (by rwa [← hsource, ← hcapacity])
    exact Or.inr ⟨result, other_result, hresult, hother, by rw [hcontents, hother_contents, hsource], hsame,
      hother_same⟩
  · rw [Nat.not_le] at hfits
    exact Or.inl ⟨LawfulCharBuffer.assign_exceeds target source hfits,
      LawfulCharBuffer.assign_exceeds other_target other_source (by rwa [← hsource, ← hcapacity])⟩

/-- A round of the field loop does the same on clients that have received the same bytes. -/
theorem field_round_alike [LawfulCharBuffer Buf] {other : NetClient Buf} (field_offset : Nat) (h : Alike client other) :
    Sum.LiftRel (fun state other : NetClient Buf × Nat => Alike state.1 other.1 ∧ state.2 = other.2) SameResult
      (field_round (client, field_offset)) (field_round (other, field_offset)) := by
  have hoffset : other.io_offset = client.io_offset := by
    have hrest := h.rest
    simp only [beside_buffers, Prod.mk.injEq] at hrest
    exact hrest.2.2.2.2.2.2.symm
  have hkeyed := h.capacities.key_buffer
  have hother_keyed := h.other_capacities.key_buffer
  have hvalued := h.capacities.value_buffer
  have hother_valued := h.other_capacities.value_buffer
  have hfits := h.fits
  unfold field_round
  simp only
  by_cases hmore : field_offset < client.io_offset
  · rw [if_pos hmore, if_pos (by omega)]
    cases htake : protocol.take_field ((client.io_buffer.take client.io_offset).drop field_offset) with
    | none =>
      rw [protocol.read_field_none h.filled htake, protocol.read_field_none h.other_filled (h.received ▸ htake)]
      exact .inr (h.same_result _)
    | some taken =>
      obtain ⟨field, rest⟩ := taken
      have htaken := protocol.take_field_length htake
      rw [List.length_drop, List.length_take] at htaken
      obtain ⟨field_buffer, hread, hfield, hfield_capacity, _, _⟩ :=
        protocol.read_field_some client.key_buffer h.filled htake (by omega)
      obtain ⟨other_buffer, hother_read, hother_field, hother_capacity, _, _⟩ :=
        protocol.read_field_some other.key_buffer h.other_filled (h.received ▸ htake) (by omega)
      simp only [hread, hother_read]
      cases hsplit : protocol.split_pair field with
      | none =>
        rw [protocol.split_key_value_pair_none (hfield ▸ hsplit),
          protocol.split_key_value_pair_none (hother_field ▸ hsplit)]
        refine .inr (Alike.same_result ?_ _)
        exact h.texts_changed ⟨_, _, _, _, rfl⟩ ⟨_, _, _, _, rfl⟩
          ⟨hfield_capacity.trans hkeyed, hvalued, h.capacities.nodename, h.capacities.secret⟩
          ⟨hother_capacity.trans hother_keyed, hother_valued, h.other_capacities.nodename, h.other_capacities.secret⟩
          ⟨hfield.trans hother_field.symm, h.texts.value_buffer, h.texts.nodename, h.texts.secret⟩
      | some pair =>
        obtain ⟨key, value⟩ := pair
        obtain ⟨key_buffer, value_buffer, hpair, hkey, hvalue, hkey_capacity, hvalue_capacity⟩ :=
          protocol.split_key_value_pair_some client.value_buffer (by rw [hfield]; omega) (hfield ▸ hsplit)
        obtain ⟨other_key, other_value, hother_pair, hother_key, hother_value, hother_key_capacity,
            hother_value_capacity⟩ :=
          protocol.split_key_value_pair_some other.value_buffer (by rw [hother_field]; omega) (hother_field ▸ hsplit)
        have hsplit_alike : Alike { client with key_buffer, value_buffer }
            { other with key_buffer := other_key, value_buffer := other_value } :=
          h.texts_changed ⟨_, _, _, _, rfl⟩ ⟨_, _, _, _, rfl⟩
            ⟨hkey_capacity.trans (hfield_capacity.trans hkeyed), hvalue_capacity.trans hvalued, h.capacities.nodename,
              h.capacities.secret⟩
            ⟨hother_key_capacity.trans (hother_capacity.trans hother_keyed), hother_value_capacity.trans hother_valued,
              h.other_capacities.nodename, h.other_capacities.secret⟩
            ⟨hkey.trans hother_key.symm, hvalue.trans hother_value.symm, h.texts.nodename, h.texts.secret⟩
        have hcapacities := hsplit_alike.capacities
        have hother_capacities := hsplit_alike.other_capacities
        have htexts := hsplit_alike.texts
        have hequals : ∀ text, equals other_key text = equals key_buffer text := by
          intro text
          rw [Bool.eq_iff_iff, LawfulCharBuffer.equals_iff, LawfulCharBuffer.equals_iff, hkey, hother_key]
        simp only [hpair, hother_pair, hequals]
        split
        · obtain ⟨hassign, hother_assign⟩ | ⟨nodename, other_nodename, hassign, hother_assign, hsame, hcapacity,
              hother_same⟩ := assign_alike (hcapacities.nodename.trans hother_capacities.nodename.symm)
            htexts.value_buffer
          · rw [hassign, hother_assign]
            exact .inr (hsplit_alike.same_result _)
          · rw [hassign, hother_assign]
            refine .inl ⟨hsplit_alike.texts_changed ⟨_, _, _, _, rfl⟩ ⟨_, _, _, _, rfl⟩ ?_ ?_ ?_, rfl⟩
            · exact ⟨hcapacities.key_buffer, hcapacities.value_buffer, hcapacity.trans hcapacities.nodename,
                hcapacities.secret⟩
            · exact ⟨hother_capacities.key_buffer, hother_capacities.value_buffer,
                hother_same.trans hother_capacities.nodename, hother_capacities.secret⟩
            · exact ⟨htexts.key_buffer, htexts.value_buffer, hsame, htexts.secret⟩
        · split
          · obtain ⟨hassign, hother_assign⟩ | ⟨secret, other_secret, hassign, hother_assign, hsame, hcapacity,
                hother_same⟩ := assign_alike (hcapacities.secret.trans hother_capacities.secret.symm)
              htexts.value_buffer
            · rw [hassign, hother_assign]
              exact .inr (hsplit_alike.same_result _)
            · rw [hassign, hother_assign]
              refine .inl ⟨hsplit_alike.texts_changed ⟨_, _, _, _, rfl⟩ ⟨_, _, _, _, rfl⟩ ?_ ?_ ?_, rfl⟩
              · exact ⟨hcapacities.key_buffer, hcapacities.value_buffer, hcapacities.nodename,
                  hcapacity.trans hcapacities.secret⟩
              · exact ⟨hother_capacities.key_buffer, hother_capacities.value_buffer, hother_capacities.nodename,
                  hother_same.trans hother_capacities.secret⟩
              · exact ⟨htexts.key_buffer, htexts.value_buffer, htexts.nodename, hsame⟩
          · exact .inl ⟨hsplit_alike, rfl⟩
  · rw [if_neg hmore, if_neg (by omega)]
    exact .inr (h.same_result _)

/-- `fence_action` calls its method with a node name and a secret. -/
def FenceCalled (client : NetClient Buf) (fence : Server.FenceActionMethod) (success_flag : Bool)
    (nodename secret : Bytes) : Prop :=
  (client.fence_action fence success_flag).call = some { function := fence.plugin_function, nodename } ∧
    contents (client.fence_action fence success_flag).client.nodename = nodename ∧
    contents (client.fence_action fence success_flag).client.secret = secret

/-- The client as it is when a complete message has been received after `accept_connection`. -/
structure Fresh (client : NetClient Buf) : Prop where
  capacities : client.Capacities
  io_buffer : client.io_buffer.length = IO_BUFFER_SIZE
  io_offset : client.io_offset ≤ IO_BUFFER_SIZE
  nodename : contents client.nodename = []
  secret : contents client.secret = []

theorem fence_called_iff [LawfulCharBuffer Buf] (h : client.Fresh) :
    client.FenceCalled fence success_flag nodename secret ↔
      protocol.parse_request (client.payload_from MsgHeader.HEADER_SIZE) = .fence nodename secret := by
  have hoffset := h.io_offset
  have hlength := h.io_buffer
  obtain ⟨parsed, _, _, harguments, hspec⟩ := fence_action_spec fence success_flag client
    (by omega) hoffset h.capacities
    h.nodename h.secret
  unfold FenceCalled
  rw [hspec]
  cases hparse : protocol.parse_request (client.payload_from MsgHeader.HEADER_SIZE) with
  | malformed => simp
  | raises => simp
  | no_nodename => simp
  | fence given_nodename given_secret =>
    obtain ⟨hnodename, hsecret⟩ := harguments _ _ hparse
    simp only [clear_io_buffer, hnodename, hsecret, Option.some.injEq, PluginCall.mk.injEq, true_and,
      protocol.Request.fence.injEq]
    tauto

/-- The field loop gives the same result on clients that have received the same bytes. -/
theorem read_fields_alike [LawfulCharBuffer Buf] {other : NetClient Buf} (field_offset : Nat) (h : Alike client other)
    (hoffset : other.io_offset = client.io_offset) :
    SameResult (read_fields client.io_offset client field_offset)
      (read_fields client.io_offset other field_offset) := by
  have hround : ∀ state other : NetClient Buf × Nat, Alike state.1 other.1 ∧ state.2 = other.2 →
      Sum.LiftRel (fun state other : NetClient Buf × Nat => Alike state.1 other.1 ∧ state.2 = other.2) SameResult
        (field_round state) (field_round other) := by
    rintro ⟨client, offset⟩ ⟨other, _⟩ ⟨halike, rfl⟩
    exact field_round_alike offset halike
  have hends := field_loop_ends client.io_offset client field_offset (Nat.sub_le ..)
  have hother := field_loop_ends client.io_offset other field_offset (by omega)
  exact Ends.related hround (And.intro h (Eq.refl field_offset)) hends hother

/-- The field loop of `fence_action` ends, its whole result depends on the bytes in front of `io_offset` only, and
the method is called exactly when these are the fields of a request. -/
theorem fence_request_grammar [LawfulCharBuffer Buf] (fence : Server.FenceActionMethod) (success_flag : Bool)
    (h : client.Fresh) :
    (∃ result, Ends field_round (client, MsgHeader.HEADER_SIZE) result ∧
        result = read_fields client.io_offset client MsgHeader.HEADER_SIZE) ∧
      (∀ io_buffer, io_buffer.length = IO_BUFFER_SIZE →
        io_buffer.take client.io_offset = client.io_buffer.take client.io_offset →
          SameResult (read_fields client.io_offset { client with io_buffer } MsgHeader.HEADER_SIZE)
              (read_fields client.io_offset client MsgHeader.HEADER_SIZE) ∧
            ({ client with io_buffer }.fence_action fence success_flag).outcome =
              (client.fence_action fence success_flag).outcome ∧
            ∀ nodename secret, { client with io_buffer }.FenceCalled fence success_flag nodename secret ↔
              client.FenceCalled fence success_flag nodename secret) ∧
      ∀ nodename secret, client.FenceCalled fence success_flag nodename secret ↔
        ∃ fields, (client.io_buffer.take client.io_offset).drop MsgHeader.HEADER_SIZE = protocol.encode_fields fields ∧
          protocol.FenceRequest fields ∧ nodename = protocol.value_of protocol.NODENAME fields ∧
          secret = protocol.value_of protocol.SECRET fields := by
  refine ⟨⟨_, field_loop_ends _ client _ (Nat.sub_le ..), rfl⟩, ?_, ?_⟩
  · intro io_buffer hlength hsame
    have hother : { client with io_buffer }.Fresh :=
      ⟨⟨h.capacities.key_buffer, h.capacities.value_buffer, h.capacities.nodename, h.capacities.secret⟩, hlength,
        h.io_offset, h.nodename, h.secret⟩
    have hpayload : { client with io_buffer }.payload_from MsgHeader.HEADER_SIZE =
        client.payload_from MsgHeader.HEADER_SIZE :=
      congrArg (List.drop MsgHeader.HEADER_SIZE) hsame
    have houtcome : ∀ {client : NetClient Buf}, client.Fresh →
        (client.fence_action fence success_flag).outcome =
          if protocol.parse_request (client.payload_from MsgHeader.HEADER_SIZE) = .raises then .error .RangeException
          else .ok () := by
      intro client h
      have hoffset := h.io_offset
      have hlength := h.io_buffer
      obtain ⟨parsed, _, _, _, hspec⟩ := fence_action_spec fence success_flag client (by omega) hoffset h.capacities
        h.nodename h.secret
      rw [hspec]
      cases protocol.parse_request (client.payload_from MsgHeader.HEADER_SIZE) with
      | malformed => rfl
      | raises => rfl
      | no_nodename => rfl
      | fence nodename secret => rfl
    have hoffset := h.io_offset
    have halike : Alike { client with io_buffer } client :=
      ⟨hother.capacities, h.capacities, by rw [hlength]; exact hoffset, by rw [h.io_buffer]; exact hoffset, hoffset,
        hsame, ⟨rfl, rfl, rfl, rfl⟩, rfl⟩
    refine ⟨read_fields_alike _ halike rfl, ?_, fun nodename secret => ?_⟩
    · rw [houtcome hother, houtcome h, hpayload]
    · rw [fence_called_iff hother, fence_called_iff h, hpayload]
  · intro nodename secret
    rw [fence_called_iff h]
    exact protocol.parse_request_fence

/-- The fields of a request that names two nodes, gives a secret and has a field with another key. -/
def request_fields_four : List Bytes :=
  [protocol.NODENAME ++ [protocol.SPLIT_BYTE, 0x61], [0x6B, protocol.SPLIT_BYTE],
    protocol.SECRET ++ [protocol.SPLIT_BYTE, 0x73, 0x74], protocol.NODENAME ++ [protocol.SPLIT_BYTE, 0x62]]

/-- The request as it has been received. -/
def node_request : NetClient BoundedBuffer :=
  { NetClient.new BoundedBuffer
      (store (zero_memory IO_BUFFER_SIZE) MsgHeader.HEADER_SIZE (protocol.encode_fields request_fields_four)) with
    io_offset := MsgHeader.HEADER_SIZE + (protocol.encode_fields request_fields_four).length }

theorem fence_request_grammar_node :
    node_request.Fresh ∧ node_request.FenceCalled .fence_action_off true [0x62] [0x73, 0x74] := by
  have hfresh : node_request.Fresh :=
    ⟨⟨rfl, rfl, rfl, rfl⟩, (length_store (by rw [length_zero_memory]; decide)).trans (length_zero_memory _), by decide,
      rfl, rfl⟩
  obtain ⟨_, _, hcalled⟩ := fence_request_grammar .fence_action_off true hfresh
  refine ⟨hfresh, (hcalled [0x62] [0x73, 0x74]).mpr ⟨request_fields_four, ?_, ?_, ?_, ?_⟩⟩
  · decide +kernel
  · exact ⟨by decide, by decide, by decide, by decide, by decide⟩
  · decide
  · decide

end NetClient

end ufh
