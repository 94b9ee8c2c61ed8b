import UniversalFencingHub.ServerConnector.ProcessMessage

open ufh.CharBuffer

namespace ufh

namespace protocol

/-- The key and value pairs at the front of a payload up to the first malformed
field, and whether they make up the whole payload. -/
def leading_pairs : Nat → Bytes → List (Bytes × Bytes) × Bool
  | 0, payload => ([], payload.isEmpty)
  | fuel + 1, payload =>
    if payload = [] then ([], true)
    else
      match take_field payload with
      | none => ([], false)
      | some (field, rest) =>
        match split_pair field with
        | none => ([], false)
        | some pair =>
          let (pairs, complete) := leading_pairs fuel rest
          (pair :: pairs, complete)

/-- A value that does not fit the buffer it is assigned to. -/
def oversized (pair : Bytes × Bytes) : Bool :=
  (pair.1 == NODENAME && pair.2.length > NetClient.NODENAME_SIZE) ||
    (pair.1 == SECRET && pair.2.length > MAX_SECRET_LENGTH)

/-- The value of the last pair with a given key. -/
def last_value (key : Bytes) : List (Bytes × Bytes) → Bytes → Bytes
  | [], value => value
  | pair :: rest, value => last_value key rest (if pair.1 = key then pair.2 else value)

/-- What a fence request asks for. -/
inductive Request where
  | malformed
  | raises
  | no_nodename
  | fence (nodename secret : Bytes)
  deriving DecidableEq

/-- The request that the payload of a fence message makes. -/
def parse_request (payload : Bytes) : Request :=
  let (pairs, complete) := leading_pairs payload.length payload
  if pairs.any oversized then .raises
  else if !complete then .malformed
  else if last_value NODENAME pairs [] = [] then .no_nodename
  else .fence (last_value NODENAME pairs []) (last_value SECRET pairs [])

/-- More fuel than the payload is long makes no difference. -/
theorem leading_pairs_fuel {payload : Bytes} {more less : Nat} (hpayload : payload.length ≤ less) (hle : less ≤ more) :
    leading_pairs more payload = leading_pairs less payload := by
  induction less generalizing more payload with
  | zero =>
    have hempty : payload = [] := List.eq_nil_of_length_eq_zero (by omega)
    cases more <;> simp [leading_pairs, hempty]
  | succ less ih =>
    obtain ⟨more, rfl⟩ : ∃ smaller, more = smaller + 1 := ⟨more - 1, by omega⟩
    unfold leading_pairs
    by_cases hempty : payload = []
    · rw [if_pos hempty, if_pos hempty]
    · rw [if_neg hempty, if_neg hempty]
      cases htake : take_field payload with
      | none => rfl
      | some taken =>
        obtain ⟨field, rest⟩ := taken
        have hshorter := take_field_length htake
        simp only
        rw [ih (show rest.length ≤ less by omega) (show less ≤ more by omega)]

end protocol

namespace NetClient

/-- The buffers have the capacities that the constructor gives them. -/
structure Capacities {Buf : Type} [CharBuffer Buf] (client : NetClient Buf) : Prop where
  key_buffer : capacity client.key_buffer = FIELD_SIZE
  value_buffer : capacity client.value_buffer = FIELD_SIZE
  nodename : capacity client.nodename = NODENAME_SIZE
  secret : capacity client.secret = protocol.MAX_SECRET_LENGTH

/-- Two clients that differ in the four text buffers at most. -/
def SameExceptBuffers {Buf : Type} (after before : NetClient Buf) : Prop :=
  ∃ key_buffer value_buffer nodename secret,
    after = { before with key_buffer, value_buffer, nodename, secret }

theorem SameExceptBuffers.refl {Buf : Type} (client : NetClient Buf) : SameExceptBuffers client client :=
  ⟨_, _, _, _, rfl⟩

theorem SameExceptBuffers.trans {Buf : Type} {first second third : NetClient Buf}
    (hsecond : SameExceptBuffers third second) (hfirst : SameExceptBuffers second first) :
    SameExceptBuffers third first := by
  obtain ⟨k, v, n, s, rfl⟩ := hsecond
  obtain ⟨k', v', n', s', rfl⟩ := hfirst
  exact ⟨k, v, n, s, rfl⟩

/-- The payload bytes from a field offset on. -/
def payload_from {Buf : Type} (client : NetClient Buf) (field_offset : Nat) : Bytes :=
  (client.io_buffer.take client.io_offset).drop field_offset

theorem SameExceptBuffers.payload_from {Buf : Type} {after before : NetClient Buf}
    (h : SameExceptBuffers after before) : after.payload_from = before.payload_from := by
  obtain ⟨_, _, _, _, rfl⟩ := h
  rfl

/-- The outcome of the field loop on a list of pairs. A value that does not fit
its buffer raises `RangeException`, a malformed field `ProtocolException`,
whichever comes first. -/
structure FieldsRead {Buf : Type} [CharBuffer Buf] (before after : NetClient Buf) (outcome : Except Exception Unit)
    (pairs : List (Bytes × Bytes)) (complete : Bool) : Prop where
  same : SameExceptBuffers after before
  capacities : after.Capacities
  outcome : outcome =
    if pairs.any protocol.oversized then .error .RangeException
    else if complete then .ok () else .error .ProtocolException
  nodename : pairs.any protocol.oversized = false →
    contents after.nodename = protocol.last_value protocol.NODENAME pairs (contents before.nodename)
  secret : pairs.any protocol.oversized = false →
    contents after.secret = protocol.last_value protocol.SECRET pairs (contents before.secret)

theorem FieldsRead.nil {Buf : Type} [CharBuffer Buf] {before after : NetClient Buf} (complete : Bool)
    (hsame : SameExceptBuffers after before) (hcapacities : after.Capacities)
    (hnodename : after.nodename = before.nodename) (hsecret : after.secret = before.secret) :
    FieldsRead before after (if complete then .ok () else .error .ProtocolException) [] complete where
  same := hsame
  capacities := hcapacities
  outcome := rfl
  nodename _ := by rw [hnodename, protocol.last_value]
  secret _ := by rw [hsecret, protocol.last_value]

theorem FieldsRead.cons {Buf : Type} [CharBuffer Buf] {before middle after : NetClient Buf}
    {outcome : Except Exception Unit} {pair : Bytes × Bytes} {pairs : List (Bytes × Bytes)} {complete : Bool}
    (hrest : FieldsRead middle after outcome pairs complete) (hfits : protocol.oversized pair = false)
    (hsame : SameExceptBuffers middle before)
    (hnodename : contents middle.nodename = if pair.1 = protocol.NODENAME then pair.2 else contents before.nodename)
    (hsecret : contents middle.secret = if pair.1 = protocol.SECRET then pair.2 else contents before.secret) :
    FieldsRead before after outcome (pair :: pairs) complete where
  same := hrest.same.trans hsame
  capacities := hrest.capacities
  outcome := by rw [List.any_cons, hfits, Bool.false_or, hrest.outcome]
  nodename h := by
    rw [List.any_cons, hfits, Bool.false_or] at h
    rw [hrest.nodename h, hnodename, protocol.last_value]
  secret h := by
    rw [List.any_cons, hfits, Bool.false_or] at h
    rw [hrest.secret h, hsecret, protocol.last_value]

theorem FieldsRead.exceeds {Buf : Type} [CharBuffer Buf] {before after : NetClient Buf} {pair : Bytes × Bytes}
    {pairs : List (Bytes × Bytes)} {complete : Bool} (hexceeds : protocol.oversized pair = true)
    (hsame : SameExceptBuffers after before) (hcapacities : after.Capacities) :
    FieldsRead before after (.error .RangeException) (pair :: pairs) complete where
  same := hsame
  capacities := hcapacities
  outcome := by simp [hexceeds]
  nodename h := by simp [hexceeds] at h
  secret h := by simp [hexceeds] at h

private theorem nodename_ne_secret : protocol.NODENAME ≠ protocol.SECRET := by decide

/-- The field loop computes the pairs of the payload. -/
theorem read_fields_spec {Buf : Type} [CharBuffer Buf] [LawfulCharBuffer Buf] (fuel : Nat) (client : NetClient Buf)
    (field_offset : Nat) (hbuffer : client.io_offset ≤ client.io_buffer.length)
    (hsize : client.io_offset ≤ FIELD_SIZE) (hcapacities : client.Capacities)
    (hfuel : (client.payload_from field_offset).length ≤ fuel) :
    FieldsRead client (read_fields fuel client field_offset).1 (read_fields fuel client field_offset).2
      (protocol.leading_pairs fuel (client.payload_from field_offset)).1
      (protocol.leading_pairs fuel (client.payload_from field_offset)).2 := by
  induction fuel generalizing client field_offset with
  | zero =>
    have hempty : client.payload_from field_offset = [] := List.eq_nil_of_length_eq_zero (by omega)
    rw [hempty]
    exact .nil true (.refl client) hcapacities rfl rfl
  | succ fuel ih =>
    by_cases hmore : field_offset < client.io_offset
    · have hlength : (client.payload_from field_offset).length = client.io_offset - field_offset := by
        simp [NetClient.payload_from, hbuffer]
      have hnonempty : client.payload_from field_offset ≠ [] := by
        intro heq
        rw [heq, List.length_nil] at hlength
        omega
      rw [read_fields, if_pos hmore, protocol.leading_pairs, if_neg hnonempty]
      have hkeyCapacity := hcapacities.key_buffer
      have hvalueCapacity := hcapacities.value_buffer
      have hnodenameCapacity := hcapacities.nodename
      have hsecretCapacity := hcapacities.secret
      cases htake : protocol.take_field (client.payload_from field_offset) with
      | none =>
        rw [protocol.read_field_none hbuffer htake]
        exact .nil false (.refl client) hcapacities rfl rfl
      | some taken =>
        obtain ⟨field, rest⟩ := taken
        have htaken := protocol.take_field_length htake
        obtain ⟨field_buffer, hread, hfield, hfieldCapacity, hrest, hend⟩ :=
          protocol.read_field_some client.key_buffer hbuffer htake (by omega)
        simp only [hread]
        cases hsplit : protocol.split_pair field with
        | none =>
          rw [protocol.split_key_value_pair_none (hfield ▸ hsplit)]
          refine .nil false ⟨_, _, _, _, rfl⟩ ?_ rfl rfl
          exact ⟨hfieldCapacity.trans hkeyCapacity, hvalueCapacity, hnodenameCapacity, hsecretCapacity⟩
        | some pair =>
          obtain ⟨key, value⟩ := pair
          obtain ⟨key_buffer, value_buffer, hpair, hkey, hvalue, hkeyCapacity', hvalueCapacity'⟩ :=
            protocol.split_key_value_pair_some client.value_buffer (by rw [hfield]; omega) (hfield ▸ hsplit)
          simp only [hpair]
          have hnext : ∀ middle : NetClient Buf, SameExceptBuffers middle client → middle.Capacities →
              FieldsRead middle (read_fields fuel middle (field_offset + (field.length + 2))).1
                (read_fields fuel middle (field_offset + (field.length + 2))).2
                (protocol.leading_pairs fuel rest).1 (protocol.leading_pairs fuel rest).2 := by
            intro middle hmiddle hmiddleCapacities
            have hpayload : middle.payload_from (field_offset + (field.length + 2)) = rest := by
              rw [hmiddle.payload_from, hrest, NetClient.payload_from]
            obtain ⟨hoffset, hio⟩ : middle.io_offset = client.io_offset ∧ middle.io_buffer = client.io_buffer := by
              obtain ⟨_, _, _, _, rfl⟩ := hmiddle
              exact ⟨rfl, rfl⟩
            have hloop := ih middle (field_offset + (field.length + 2)) (by rw [hoffset, hio]; exact hbuffer)
              (by rw [hoffset]; exact hsize) hmiddleCapacities (by rw [hpayload]; omega)
            rwa [hpayload] at hloop
          have hkeyField : capacity key_buffer = FIELD_SIZE := by omega
          have hvalueField : capacity value_buffer = FIELD_SIZE := by omega
          by_cases hnode : key = protocol.NODENAME
          · have hequals : equals key_buffer protocol.NODENAME = true :=
              (LawfulCharBuffer.equals_iff _ _).mpr (hkey.trans hnode)
            have hother : key ≠ protocol.SECRET := fun heq => nodename_ne_secret (hnode.symm.trans heq)
            rw [if_pos hequals]
            by_cases hfits : value.length ≤ NODENAME_SIZE
            · obtain ⟨nodename, hassign, hnodename, hcapacity⟩ :=
                LawfulCharBuffer.assign_fits client.nodename value_buffer (by rw [hvalue]; omega)
              simp only [hassign]
              refine (hnext _ ⟨_, _, _, _, rfl⟩ ⟨hkeyField, hvalueField, ?_, hsecretCapacity⟩).cons ?_ ⟨_, _, _, _, rfl⟩
                ?_ ?_
              · exact hcapacity.trans hnodenameCapacity
              · simp [protocol.oversized, hother, hfits]
              · simp [hnode, hnodename, hvalue]
              · simp [hother]
            · rw [LawfulCharBuffer.assign_exceeds client.nodename value_buffer (by rw [hvalue]; omega)]
              refine .exceeds ?_ ⟨_, _, _, _, rfl⟩ ⟨hkeyField, hvalueField, hnodenameCapacity, hsecretCapacity⟩
              simp only [protocol.oversized, hnode, beq_self_eq_true, Bool.true_and, Bool.or_eq_true, decide_eq_true_eq]
              omega
          · have hequals : ¬ equals key_buffer protocol.NODENAME = true := by
              rw [LawfulCharBuffer.equals_iff, hkey]
              exact hnode
            rw [if_neg hequals]
            by_cases hsec : key = protocol.SECRET
            · have hequals : equals key_buffer protocol.SECRET = true :=
                (LawfulCharBuffer.equals_iff _ _).mpr (hkey.trans hsec)
              rw [if_pos hequals]
              by_cases hfits : value.length ≤ protocol.MAX_SECRET_LENGTH
              · obtain ⟨secret, hassign, hsecret, hcapacity⟩ :=
                  LawfulCharBuffer.assign_fits client.secret value_buffer (by rw [hvalue]; omega)
                simp only [hassign]
                refine (hnext _ ⟨_, _, _, _, rfl⟩ ⟨hkeyField, hvalueField, hnodenameCapacity, ?_⟩).cons ?_
                  ⟨_, _, _, _, rfl⟩ ?_ ?_
                · exact hcapacity.trans hsecretCapacity
                · simp [protocol.oversized, hnode, hfits]
                · simp [hnode]
                · simp [hsec, hsecret, hvalue]
              · rw [LawfulCharBuffer.assign_exceeds client.secret value_buffer (by rw [hvalue]; omega)]
                refine .exceeds ?_ ⟨_, _, _, _, rfl⟩ ⟨hkeyField, hvalueField, hnodenameCapacity, hsecretCapacity⟩
                simp only [protocol.oversized, hsec, beq_self_eq_true, Bool.true_and, Bool.or_eq_true,
                  decide_eq_true_eq]
                omega
            · have hequals : ¬ equals key_buffer protocol.SECRET = true := by
                rw [LawfulCharBuffer.equals_iff, hkey]
                exact hsec
              rw [if_neg hequals]
              refine (hnext _ ⟨_, _, _, _, rfl⟩ ⟨hkeyField, hvalueField, hnodenameCapacity, hsecretCapacity⟩).cons ?_
                ⟨_, _, _, _, rfl⟩ ?_ ?_
              · simp [protocol.oversized, hnode, hsec]
              · simp [hnode]
              · simp [hsec]
    · have hempty : client.payload_from field_offset = [] := by
        apply List.drop_eq_nil_of_le
        simp only [List.length_take]
        omega
      rw [read_fields, if_neg hmore, hempty]
      exact .nil true (.refl client) hcapacities rfl rfl

/-- What a method leaves of its client, by the request in the payload. -/
theorem fence_action_spec {Buf : Type} [CharBuffer Buf] [LawfulCharBuffer Buf] (fence : Server.FenceActionMethod)
    (success_flag : Bool) (client : NetClient Buf) (hbuffer : client.io_offset ≤ client.io_buffer.length)
    (hsize : client.io_offset ≤ FIELD_SIZE) (hcapacities : client.Capacities)
    (hnodename : contents client.nodename = []) (hempty : contents client.secret = []) :
    ∃ parsed, SameExceptBuffers parsed client ∧ parsed.Capacities ∧
      (∀ nodename secret, protocol.parse_request (client.payload_from MsgHeader.HEADER_SIZE) = .fence nodename secret →
        contents parsed.nodename = nodename ∧ contents parsed.secret = secret) ∧
      fence_action fence success_flag client =
        match protocol.parse_request (client.payload_from MsgHeader.HEADER_SIZE) with
        | .raises => { client := parsed, outcome := .error .RangeException }
        | .malformed => { client := { parsed with current_phase := .CANCELED, io_state := .NOOP } }
        | .no_nodename => { client := { parsed.clear_io_buffer with header := MsgHeader.clear } }
        | .fence nodename _ =>
          { client :=
              { parsed.clear_io_buffer with
                header :=
                  { msg_type :=
                      (if success_flag then protocol.MsgType.FENCE_SUCCESS else protocol.MsgType.FENCE_FAIL).value
                    data_length := MsgHeader.HEADER_SIZE.toUInt16 }
                current_phase := .SEND
                next_phase := .CANCELED
                io_state := .WRITE }
            call := some { function := fence.plugin_function, nodename } } := by
  have hlength : (client.payload_from MsgHeader.HEADER_SIZE).length ≤ client.io_offset := by
    simp only [NetClient.payload_from, List.length_drop, List.length_take]
    omega
  have hread := read_fields_spec client.io_offset client MsgHeader.HEADER_SIZE hbuffer hsize hcapacities hlength
  rw [protocol.leading_pairs_fuel (Nat.le_refl _) hlength] at hread
  unfold protocol.parse_request fence_action
  generalize protocol.leading_pairs (client.payload_from MsgHeader.HEADER_SIZE).length
    (client.payload_from MsgHeader.HEADER_SIZE) = result at hread
  obtain ⟨pairs, complete⟩ := result
  generalize read_fields client.io_offset client MsgHeader.HEADER_SIZE = loop at hread
  obtain ⟨parsed, outcome⟩ := loop
  obtain ⟨hsame, hparsed, houtcome, hnode, hsecret⟩ := hread
  simp only at houtcome hnode hsecret
  refine ⟨parsed, hsame, hparsed, fun nodename secret hparse => ?_, ?_⟩
  · simp only [Bool.not_eq_true'] at hparse
    split at hparse
    · cases hparse
    · next hfits =>
      rw [Bool.not_eq_true] at hfits
      have hnodeValue := hnode hfits
      have hsecretValue := hsecret hfits
      rw [hnodename] at hnodeValue
      rw [hempty] at hsecretValue
      split at hparse
      · cases hparse
      · split at hparse
        · cases hparse
        · cases hparse
          exact ⟨hnodeValue, hsecretValue⟩
  cases hany : pairs.any protocol.oversized with
  | true =>
    rw [hany, if_pos rfl] at houtcome
    simp [houtcome, hany]
  | false =>
    rw [hany, if_neg (by decide)] at houtcome
    have hvalue := hnode hany
    rw [hnodename] at hvalue
    cases complete with
    | false =>
      rw [if_neg (by decide)] at houtcome
      simp [houtcome, hany]
    | true =>
      rw [if_pos rfl] at houtcome
      by_cases hempty : protocol.last_value protocol.NODENAME pairs [] = []
      · have hnone : contents parsed.nodename = [] := hvalue.trans hempty
        simp [houtcome, hany, hempty, clear_io_buffer, hnone]
      · simp [houtcome, hany, hempty, clear_io_buffer, Server.FenceActionMethod.call, hvalue]

end NetClient

end ufh
