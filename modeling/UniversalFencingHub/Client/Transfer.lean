import UniversalFencingHub.Client.Connector

open looping

namespace ufh

namespace client

/-- The number of bytes that the calls of `send()` from a position on accept until one of them
returns -1. -/
def System.accepts (system : System) : Nat → Nat → Nat
  | 0, _ => 0
  | rounds + 1, first =>
    if system.send first = -1 then 0 else (system.send first).toNat + system.accepts rounds (first + 1)

/-- What the calls of `recv()` from a position on return until one of them returns -1. -/
def System.delivers (system : System) : Nat → Nat → List Bytes
  | 0, _ => []
  | rounds + 1, first =>
    match system.recv first with
    | some data => data :: system.delivers rounds (first + 1)
    | none => []

/-- From a call on, the peer is gone: `send()` and `recv()` return 0 or -1. -/
def System.PeerGone (system : System) (last : Nat) : Prop :=
  ∀ call ≥ last, (system.send call = 0 ∨ system.send call = -1) ∧
    (system.recv call = some [] ∨ system.recv call = none)

namespace ClientConnector

variable {system : System} {send_length io_offset last fuel : Nat} {connector : ClientConnector}

theorem send_open (hopen : 0 ≤ connector.socket_fd) (req_write_size : Nat) :
    connector.send system req_write_size = min (system.send connector.calls) req_write_size :=
  if_neg (by omega)

theorem send_closed (hclosed : connector.socket_fd < 0) (req_write_size : Nat) :
    connector.send system req_write_size = -1 :=
  if_pos hclosed

/-- The message is not complete, and what the kernel accepts up to the given call does not suffice
for the rest of it. -/
def SendStuck (system : System) (send_length last : Nat) : Nat × ClientConnector → Prop
  | (io_offset, connector) => io_offset < send_length ∧ (connector.socket_fd < 0 ∨
      io_offset + system.accepts (last - connector.calls) connector.calls < send_length)

theorem accepts_of_lt (system : System) {first : Nat} (h : first < last) :
    system.accepts (last - first) first = if system.send first = -1 then 0
      else (system.send first).toNat + system.accepts (last - (first + 1)) (first + 1) := by
  obtain ⟨rounds, hrounds⟩ : ∃ rounds, last - first = rounds + 1 := ⟨last - first - 1, by omega⟩
  have hrest : last - (first + 1) = rounds := by omega
  rw [hrounds, hrest]
  rfl

theorem delivers_of_lt (system : System) {first : Nat} (h : first < last) :
    system.delivers (last - first) first =
      match system.recv first with
      | some data => data :: system.delivers (last - (first + 1)) (first + 1)
      | none => [] := by
  obtain ⟨rounds, hrounds⟩ : ∃ rounds, last - first = rounds + 1 := ⟨last - first - 1, by omega⟩
  have hrest : last - (first + 1) = rounds := by omega
  rw [hrounds, hrest]
  rfl

/-- An incomplete message stays incomplete. -/
theorem SendStuck.round (hgone : system.PeerGone last) {state : Nat × ClientConnector}
    (h : SendStuck system send_length last state) :
    ∃ next, send_round system send_length state = .inl next ∧ SendStuck system send_length last next := by
  obtain ⟨io_offset, connector⟩ := state
  obtain ⟨hmore, hrest⟩ := h
  unfold send_round
  simp only [if_pos hmore]
  by_cases hclosed : connector.socket_fd < 0
  · rw [send_closed hclosed, if_neg (by omega), if_pos rfl]
    exact ⟨_, rfl, hmore, Or.inl (by simp [disconnect_from_server, sys.FD_NONE])⟩
  · have hshort := hrest.resolve_left hclosed
    rw [send_open (by omega)]
    by_cases hpositive : min (system.send connector.calls) ((send_length - io_offset : Nat) : Int) > 0
    · have hbefore : connector.calls < last := by
        by_contra hlast
        have hresult := (hgone connector.calls (by omega)).1
        omega
      rw [accepts_of_lt system hbefore, if_neg (by omega)] at hshort
      rw [if_pos hpositive]
      refine ⟨_, rfl, by omega, Or.inr ?_⟩
      change io_offset + _ + system.accepts (last - (connector.calls + 1)) (connector.calls + 1) < send_length
      omega
    · rw [if_neg hpositive]
      by_cases hfailed : min (system.send connector.calls) ((send_length - io_offset : Nat) : Int) = -1
      · rw [if_pos hfailed]
        exact ⟨_, rfl, hmore, Or.inl (by simp [disconnect_from_server, sys.FD_NONE])⟩
      · rw [if_neg hfailed]
        refine ⟨_, rfl, hmore, Or.inr ?_⟩
        change io_offset + system.accepts (last - (connector.calls + 1)) (connector.calls + 1) < send_length
        by_cases hbefore : connector.calls < last
        · rw [accepts_of_lt system hbefore, if_neg (by omega)] at hshort
          omega
        · have hnone : last - (connector.calls + 1) = 0 := by omega
          rw [hnone]
          exact hmore

/-- A message that the kernel accepts as a whole gets sent. -/
theorem ends_of_accepts {rounds : Nat} (hopen : 0 ≤ connector.socket_fd) (hoffset : io_offset ≤ send_length)
    (haccepts : send_length ≤ io_offset + system.accepts rounds connector.calls) :
    ∃ result, Ends (send_round system send_length) (io_offset, connector) result := by
  induction rounds generalizing io_offset connector with
  | zero =>
    have hdone : send_round system send_length (io_offset, connector) = .inr (io_offset, connector) :=
      if_neg (Nat.not_lt_of_le haccepts)
    exact ⟨_, .finish hdone⟩
  | succ rounds ih =>
    by_cases hmore : io_offset < send_length
    · by_cases hfailed : system.send connector.calls = -1
      · rw [System.accepts, if_pos hfailed] at haccepts
        omega
      · rw [System.accepts, if_neg hfailed] at haccepts
        obtain ⟨next_offset, next, hround, hfd, hnext, hrest⟩ : ∃ next_offset next,
            send_round system send_length (io_offset, connector) = .inl (next_offset, next) ∧ 0 ≤ next.socket_fd ∧
              next_offset ≤ send_length ∧ send_length ≤ next_offset + system.accepts rounds next.calls := by
          unfold send_round
          simp only [if_pos hmore, send_open hopen]
          by_cases hpositive : min (system.send connector.calls) ((send_length - io_offset : Nat) : Int) > 0
          · rw [if_pos hpositive]
            refine ⟨_, _, rfl, hopen, by omega, ?_⟩
            change send_length ≤ _ + system.accepts rounds (connector.calls + 1)
            omega
          · rw [if_neg hpositive, if_neg (by omega)]
            refine ⟨_, _, rfl, hopen, hoffset, ?_⟩
            change send_length ≤ io_offset + system.accepts rounds (connector.calls + 1)
            omega
        obtain ⟨result, hends⟩ := ih hfd hnext hrest
        exact ⟨result, (ends_next hround).mpr hends⟩
    · have hdone : send_round system send_length (io_offset, connector) = .inr (io_offset, connector) := if_neg hmore
      exact ⟨_, .finish hdone⟩

/-- The loop that sends a message ends exactly when the kernel accepts the whole message before the
peer is gone. -/
theorem send_ends_iff (hgone : system.PeerGone last) (hopen : 0 ≤ connector.socket_fd) :
    (∃ result, Ends (send_round system send_length) (0, connector) result) ↔
      send_length ≤ system.accepts (last - connector.calls) connector.calls := by
  constructor
  · rintro ⟨result, fuel, hrun⟩
    by_contra hshort
    have hstuck : SendStuck system send_length last (0, connector) := ⟨by omega, Or.inr (by omega)⟩
    rw [not_ends_of_invariant (fun _ => SendStuck.round hgone) hstuck] at hrun
    cases hrun
  · intro haccepts
    rw [← Nat.zero_add (system.accepts _ _)] at haccepts
    exact ends_of_accepts hopen (Nat.zero_le _) haccepts

/-- What a loop that sends a message keeps: the object, and the part of the message that has been
sent. -/
structure SendKept (send_length : Nat) (connector : ClientConnector) (state : Nat × ClientConnector) : Prop where
  offset : state.1 ≤ send_length
  header : state.2.header = connector.header
  io_buffer : state.2.io_buffer = connector.io_buffer
  received : state.2.received = connector.received
  sent : state.2.sent = connector.sent ++ connector.io_buffer.take state.1

theorem SendKept.round {state next : Nat × ClientConnector} (h : SendKept send_length connector state)
    (hround : send_round system send_length state = .inl next) : SendKept send_length connector next := by
  obtain ⟨io_offset, object⟩ := state
  obtain ⟨hoffset, hheader, hbuffer, hreceived, hsent⟩ := h
  unfold send_round at hround
  simp only at hround hoffset hheader hbuffer hreceived hsent
  split at hround
  · next hmore =>
    split at hround
    · next hpositive =>
      have hsize : object.send system (send_length - io_offset) ≤ ((send_length - io_offset : Nat) : Int) := by
        by_cases hclosed : object.socket_fd < 0
        · rw [send_closed hclosed]
          omega
        · rw [send_open (by omega)]
          omega
      obtain ⟨rfl⟩ := Sum.inl.inj hround
      refine ⟨?_, hheader, hbuffer, hreceived, ?_⟩
      · simp only
        omega
      · simp only
        rw [hsent, hbuffer, List.append_assoc, ← List.take_add]
    · split at hround
      · obtain ⟨rfl⟩ := Sum.inl.inj hround
        exact ⟨hoffset, hheader, hbuffer, hreceived, hsent⟩
      · obtain ⟨rfl⟩ := Sum.inl.inj hround
        exact ⟨hoffset, hheader, hbuffer, hreceived, hsent⟩
  · cases hround

/-- A loop that sends a message ends with the whole message. -/
theorem send_result {state : Nat × ClientConnector}
    (hrun : run (send_round system send_length) fuel (0, connector) = some state) :
    state.1 = send_length ∧ SendKept send_length connector state := by
  have hfirst : SendKept send_length connector (0, connector) :=
    ⟨Nat.zero_le _, rfl, rfl, rfl, (List.append_nil _).symm⟩
  obtain ⟨⟨io_offset, object⟩, hkept, hlast⟩ := invariant_of_run (fun _ _ => SendKept.round) hfirst hrun
  unfold send_round at hlast
  simp only at hlast
  split at hlast
  · split at hlast
    · cases hlast
    · split at hlast
      · cases hlast
      · cases hlast
  · next hdone =>
    obtain ⟨rfl⟩ := Sum.inr.inj hlast
    have hoffset := hkept.offset
    exact ⟨by simp only at hoffset ⊢; omega, hkept⟩

/-- Whatever `receive_message` has read stands in the buffer. -/
structure ReceiveKept (connector : ClientConnector) (reception : Reception) : Prop where
  size : reception.connector.io_buffer.length = IO_BUFFER_SIZE
  length : reception.receive_length ≤ IO_BUFFER_SIZE
  waiting : reception.have_header = false →
    reception.receive_length = MsgHeader.HEADER_SIZE ∧ reception.io_offset < MsgHeader.HEADER_SIZE
  header : reception.have_header = true → MsgHeader.HEADER_SIZE ≤ reception.io_offset ∧
    reception.connector.header = MsgHeader.deserialize (reception.connector.io_buffer.take reception.io_offset) ∧
    reception.receive_length = min reception.connector.header.data_length.toNat IO_BUFFER_SIZE
  offset : reception.io_offset ≤ max MsgHeader.HEADER_SIZE reception.receive_length
  sent : reception.connector.sent = connector.sent
  received : reception.connector.received =
    connector.received ++ reception.connector.io_buffer.take reception.io_offset

theorem recv_open (hopen : 0 ≤ connector.socket_fd) (req_read_size : Nat) :
    connector.recv system req_read_size = (system.recv connector.calls).map (·.take req_read_size) :=
  if_neg (by omega)

theorem recv_closed (hclosed : connector.socket_fd < 0) (req_read_size : Nat) :
    connector.recv system req_read_size = none :=
  if_pos hclosed

theorem length_recv {req_read_size : Nat} {data : Bytes} (h : connector.recv system req_read_size = some data) :
    data.length ≤ req_read_size := by
  by_cases hclosed : connector.socket_fd < 0
  · rw [recv_closed hclosed] at h
    cases h
  · rw [recv_open (by omega)] at h
    obtain ⟨delivered, _, rfl⟩ := Option.map_eq_some_iff.mp h
    exact List.length_take_le ..

theorem deserialize_prefix {front : Bytes} (back : Bytes) (h : MsgHeader.HEADER_SIZE ≤ front.length) :
    MsgHeader.deserialize (front ++ back) = MsgHeader.deserialize front := by
  match front, h with
  | _ :: _ :: _ :: _ :: _, _ => rfl

theorem ReceiveKept.store {reception : Reception} (h : ReceiveKept connector reception) {data : Bytes}
    (hmore : reception.io_offset < reception.receive_length)
    (hdata : data.length ≤ reception.receive_length - reception.io_offset) :
    ReceiveKept connector (reception.store data) := by
  obtain ⟨hsize, hlength, hwaiting, hheader, hoffset, hsent, hreceived⟩ := h
  have hroom : reception.io_offset + data.length ≤ reception.connector.io_buffer.length := by omega
  have htake : (ufh.store reception.connector.io_buffer reception.io_offset data).take
      (reception.io_offset + data.length) = reception.connector.io_buffer.take reception.io_offset ++ data :=
    take_store (by omega)
  have hstored : (ufh.store reception.connector.io_buffer reception.io_offset data).length = IO_BUFFER_SIZE := by
    rw [length_store hroom, hsize]
  unfold Reception.store
  simp only
  split
  · next hcomplete =>
    obtain ⟨hfour, hbelow⟩ := hwaiting hcomplete.1
    have hend : reception.io_offset + data.length = MsgHeader.HEADER_SIZE := by omega
    refine ⟨hstored, Nat.min_le_right .., nofun, fun _ => ⟨hcomplete.2, ?_, rfl⟩, by simp only; omega, hsent, ?_⟩
    · have hfront : MsgHeader.HEADER_SIZE ≤ ((ufh.store reception.connector.io_buffer reception.io_offset data).take
          (reception.io_offset + data.length)).length := by
        rw [List.length_take]
        omega
      have hdecoded := deserialize_prefix
        ((ufh.store reception.connector.io_buffer reception.io_offset data).drop
            (reception.io_offset + data.length)) hfront
      rw [List.take_append_drop] at hdecoded
      exact hdecoded
    · simp only
      rw [htake, hreceived, List.append_assoc]
  · next hincomplete =>
    refine ⟨hstored, hlength, fun hnone => ?_, fun hsome => ?_, by simp only; omega, hsent, ?_⟩
    · obtain ⟨hfour, _⟩ := hwaiting hnone
      exact ⟨hfour, Nat.not_le.mp (fun hle => hincomplete ⟨hnone, hle⟩)⟩
    · obtain ⟨hfour, hdecoded, hrest⟩ := hheader hsome
      refine ⟨by simp only; omega, ?_, hrest⟩
      simp only
      rw [htake, deserialize_prefix data (by rw [List.length_take]; omega)]
      exact hdecoded
    · simp only
      rw [htake, hreceived, List.append_assoc]

theorem ReceiveKept.round {reception next : Reception} (h : ReceiveKept connector reception)
    (hround : receive_round system reception = .inl next) : ReceiveKept connector next := by
  unfold receive_round at hround
  simp only at hround
  split at hround
  · next hmore =>
    have hcalled : ReceiveKept connector
        { reception with connector := { reception.connector with calls := reception.connector.calls + 1 } } :=
      ⟨h.size, h.length, h.waiting, h.header, h.offset, h.sent, h.received⟩
    split at hround
    · obtain ⟨rfl⟩ := Sum.inl.inj hround
      exact hcalled
    · next data hread =>
      obtain ⟨rfl⟩ := Sum.inl.inj hround
      exact hcalled.store hmore (length_recv hread)
    · obtain ⟨rfl⟩ := Sum.inl.inj hround
      exact ⟨h.size, h.length, h.waiting, h.header, h.offset, h.sent, h.received⟩
  · cases hround

theorem initial_receive_kept (hsize : connector.io_buffer.length = IO_BUFFER_SIZE) :
    ReceiveKept connector { connector } :=
  ⟨hsize, show MsgHeader.HEADER_SIZE ≤ IO_BUFFER_SIZE by decide,
      fun _ => ⟨rfl, show 0 < MsgHeader.HEADER_SIZE by decide⟩,
    nofun, Nat.zero_le _, rfl, (List.append_nil _).symm⟩

/-- What `receive_message` has read when its loop ends: a header, and as many bytes as it says
and as the buffer takes. -/
theorem receive_result (hsize : connector.io_buffer.length = IO_BUFFER_SIZE) {reception : Reception}
    (hrun : run (receive_round system) fuel { connector } = some reception) :
    reception.receive_length ≤ reception.io_offset ∧ reception.have_header = true ∧
    ReceiveKept connector reception := by
  obtain ⟨last, hkept, hlast⟩ := invariant_of_run (fun _ _ => ReceiveKept.round) (initial_receive_kept hsize) hrun
  unfold receive_round at hlast
  simp only at hlast
  split at hlast
  · split at hlast
    · cases hlast
    · cases hlast
    · cases hlast
  · next hdone =>
    obtain ⟨rfl⟩ := Sum.inr.inj hlast
    refine ⟨by omega, ?_, hkept⟩
    cases hheader : reception.have_header with
    | true => rfl
    | false =>
      obtain ⟨hfour, hbelow⟩ := hkept.waiting hheader
      omega

/-- What `recv()` returns up to the given call suffices for the rest of the message. -/
def Reception.Completes (system : System) (last : Nat) (reception : Reception) : Prop :=
  let chunks := system.delivers (last - reception.connector.calls) reception.connector.calls
  if reception.have_header then reception.receive_length ≤ reception.io_offset + chunks.flatten.length
  else ∃ front back, chunks = front ++ back ∧ MsgHeader.HEADER_SIZE ≤ reception.io_offset + front.flatten.length ∧
    min (MsgHeader.deserialize (reception.connector.io_buffer.take reception.io_offset ++
        front.flatten)).data_length.toNat
      IO_BUFFER_SIZE ≤ MsgHeader.HEADER_SIZE + back.flatten.length

theorem not_completes_of_empty {reception : Reception} (hkept : ReceiveKept connector reception)
    (hmore : reception.io_offset < reception.receive_length)
    (hempty : system.delivers (last - reception.connector.calls) reception.connector.calls = []) :
    ¬ reception.Completes system last := by
  intro hcompletes
  unfold Reception.Completes at hcompletes
  simp only [hempty] at hcompletes
  split at hcompletes
  · simp only [List.flatten_nil, List.length_nil] at hcompletes
    omega
  · next hheader =>
    obtain ⟨front, back, hchunks, hfour, _⟩ := hcompletes
    obtain ⟨rfl, _⟩ := List.append_eq_nil_iff.mp hchunks.symm
    have hwaiting := hkept.waiting (by simpa using hheader)
    simp only [List.flatten_nil, List.length_nil] at hfour
    omega

/-- The chunks in front of a split that brings the header to its end start with the first chunk. -/
theorem front_eq_cons {data : Bytes} {rest front back : List Bytes} {io_offset : Nat}
    (hchunks : data :: rest = front ++ back) (hbelow : io_offset < MsgHeader.HEADER_SIZE)
    (hfour : MsgHeader.HEADER_SIZE ≤ io_offset + front.flatten.length) : ∃ others, front = data :: others ∧
    rest = others ++ back := by
  cases front with
  | nil =>
    simp only [List.flatten_nil, List.length_nil] at hfour
    omega
  | cons first others =>
    obtain ⟨rfl, hrest⟩ := List.cons.inj hchunks
    exact ⟨others, rfl, hrest⟩

section

variable {reception : Reception} {data : Bytes} {rest : List Bytes} {calls : Nat}

/-- The next bytes of a message whose header is complete. -/
theorem completes_store_payload (hheader : reception.have_header = true)
    (hmore : reception.io_offset < reception.receive_length)
    (hchunks : system.delivers (last - reception.connector.calls) reception.connector.calls = data :: rest)
    (hrest : system.delivers (last - calls) calls = rest) :
    (Reception.store { reception with connector := { reception.connector with calls } }
        (data.take (reception.receive_length - reception.io_offset))).Completes system last ↔
      reception.Completes system last := by
  unfold Reception.store
  simp only
  rw [if_neg (by simp [hheader])]
  unfold Reception.Completes
  simp only [hheader, hchunks, hrest, if_true, List.flatten_cons, List.length_append, List.length_take]
  omega

/-- The bytes that bring the header to its end. -/
theorem completes_store_header (hkept : ReceiveKept connector reception) (hheader : reception.have_header = false)
    (hlong : MsgHeader.HEADER_SIZE - reception.io_offset ≤ data.length)
    (hchunks : system.delivers (last - reception.connector.calls) reception.connector.calls = data :: rest)
    (hrest : system.delivers (last - calls) calls = rest) :
    (Reception.store { reception with connector := { reception.connector with calls } }
        (data.take (MsgHeader.HEADER_SIZE - reception.io_offset))).Completes system last ↔
      reception.Completes system last := by
  have hbelow := (hkept.waiting hheader).2
  have hsize := hkept.size
  have hfour : MsgHeader.HEADER_SIZE ≤ IO_BUFFER_SIZE := by decide
  have htaken : (data.take (MsgHeader.HEADER_SIZE - reception.io_offset)).length =
      MsgHeader.HEADER_SIZE - reception.io_offset := by rw [List.length_take]; omega
  have hfront : MsgHeader.HEADER_SIZE ≤ (reception.connector.io_buffer.take reception.io_offset ++
      data.take (MsgHeader.HEADER_SIZE - reception.io_offset)).length := by
    rw [List.length_append, List.length_take, htaken]
    omega
  have hstored : (ufh.store reception.connector.io_buffer reception.io_offset
      (data.take (MsgHeader.HEADER_SIZE - reception.io_offset))).take (reception.io_offset +
        (data.take (MsgHeader.HEADER_SIZE - reception.io_offset)).length) =
      reception.connector.io_buffer.take reception.io_offset ++
        data.take (MsgHeader.HEADER_SIZE - reception.io_offset) := take_store (by omega)
  have hdecoded : MsgHeader.deserialize (ufh.store reception.connector.io_buffer reception.io_offset
      (data.take (MsgHeader.HEADER_SIZE - reception.io_offset))) =
      MsgHeader.deserialize (reception.connector.io_buffer.take reception.io_offset ++
        data.take (MsgHeader.HEADER_SIZE - reception.io_offset)) := by
    rw [← hstored] at hfront ⊢
    conv_lhs => rw [← List.take_append_drop (reception.io_offset +
      (data.take (MsgHeader.HEADER_SIZE - reception.io_offset)).length)
      (ufh.store reception.connector.io_buffer reception.io_offset
        (data.take (MsgHeader.HEADER_SIZE - reception.io_offset)))]
    exact deserialize_prefix _ hfront
  have hlonger : ∀ others : Bytes, MsgHeader.deserialize (reception.connector.io_buffer.take reception.io_offset ++
      (data ++ others)) = MsgHeader.deserialize (reception.connector.io_buffer.take reception.io_offset ++
        data.take (MsgHeader.HEADER_SIZE - reception.io_offset)) := by
    intro others
    rw [← deserialize_prefix (data.drop (MsgHeader.HEADER_SIZE - reception.io_offset) ++ others) hfront,
      List.append_assoc, ← List.append_assoc (data.take _), List.take_append_drop]
  unfold Reception.store
  simp only
  rw [if_pos ⟨hheader, by omega⟩]
  unfold Reception.Completes
  simp only [hheader, hchunks, hrest, hdecoded, if_true, if_false, Bool.false_eq_true]
  constructor
  · intro hsuffices
    refine ⟨[data], rest, rfl, ?_, ?_⟩
    · simp only [List.flatten_cons, List.flatten_nil, List.append_nil]
      omega
    · simp only [List.flatten_cons, List.flatten_nil, hlonger]
      omega
  · rintro ⟨front, back, hsplit, henough, hsuffices⟩
    obtain ⟨others, rfl, rfl⟩ := front_eq_cons hsplit hbelow henough
    rw [List.flatten_cons, hlonger] at hsuffices
    rw [List.flatten_append, List.length_append]
    omega

/-- Bytes of a header that is still incomplete. -/
theorem completes_store_part (hkept : ReceiveKept connector reception) (hheader : reception.have_header = false)
    (hshort : data.length < MsgHeader.HEADER_SIZE - reception.io_offset)
    (hchunks : system.delivers (last - reception.connector.calls) reception.connector.calls = data :: rest)
    (hrest : system.delivers (last - calls) calls = rest) :
    (Reception.store { reception with connector := { reception.connector with calls } } data).Completes system last ↔
      reception.Completes system last := by
  have hbelow := (hkept.waiting hheader).2
  have hsize := hkept.size
  have hfour : MsgHeader.HEADER_SIZE ≤ IO_BUFFER_SIZE := by decide
  have hstored : (ufh.store reception.connector.io_buffer reception.io_offset data).take
      (reception.io_offset + data.length) = reception.connector.io_buffer.take reception.io_offset ++ data :=
    take_store (by omega)
  unfold Reception.store
  simp only
  rw [if_neg (by omega)]
  unfold Reception.Completes
  simp only [hheader, hchunks, hrest, hstored, if_false, Bool.false_eq_true]
  constructor
  · rintro ⟨front, back, rfl, henough, hsuffices⟩
    refine ⟨data :: front, back, rfl, ?_, ?_⟩
    · rw [List.flatten_cons, List.length_append]
      omega
    · rwa [List.flatten_cons, ← List.append_assoc]
  · rintro ⟨front, back, hsplit, henough, hsuffices⟩
    obtain ⟨others, rfl, rfl⟩ := front_eq_cons hsplit hbelow henough
    rw [List.flatten_cons, List.length_append] at henough
    rw [List.flatten_cons, ← List.append_assoc] at hsuffices
    exact ⟨others, back, rfl, by omega, hsuffices⟩

/-- Storing a chunk leaves as much to be delivered as before. -/
theorem completes_store (hkept : ReceiveKept connector reception)
    (hmore : reception.io_offset < reception.receive_length)
    (hchunks : system.delivers (last - reception.connector.calls) reception.connector.calls = data :: rest)
    (hrest : system.delivers (last - calls) calls = rest) :
    (Reception.store { reception with connector := { reception.connector with calls } }
        (data.take (reception.receive_length - reception.io_offset))).Completes system last ↔
      reception.Completes system last := by
  by_cases hheader : reception.have_header = true
  · exact completes_store_payload hheader hmore hchunks hrest
  · have hwaiting : reception.have_header = false := by simpa using hheader
    have hfour := (hkept.waiting hwaiting).1
    by_cases hlong : MsgHeader.HEADER_SIZE - reception.io_offset ≤ data.length
    · have htake : data.take (reception.receive_length - reception.io_offset) =
          data.take (MsgHeader.HEADER_SIZE - reception.io_offset) := by rw [hfour]
      rw [htake]
      exact completes_store_header hkept hwaiting hlong hchunks hrest
    · rw [List.take_of_length_le (by omega)]
      exact completes_store_part hkept hwaiting (by omega) hchunks hrest

end

theorem Reception.store_connector (reception : Reception) (data : Bytes) :
    (reception.store data).connector.calls = reception.connector.calls ∧
      (reception.store data).connector.socket_fd = reception.connector.socket_fd := by
  unfold Reception.store
  simp only
  split
  · exact ⟨rfl, rfl⟩
  · exact ⟨rfl, rfl⟩

theorem Reception.store_empty (reception : Reception)
    (hwaiting : reception.have_header = false → reception.io_offset < MsgHeader.HEADER_SIZE) :
    reception.store [] = reception := by
  unfold Reception.store
  simp only [store_nil, List.append_nil, List.length_nil, Nat.add_zero]
  exact if_neg (fun hcomplete => absurd (hwaiting hcomplete.1) (Nat.not_lt_of_le hcomplete.2))

/-- One round of the loop that receives a message either loses the socket, which happens only to
messages that will not be completed, or leaves as much to be delivered as before. -/
theorem completes_round {reception : Reception} (hkept : ReceiveKept connector reception)
    (hgone : system.PeerGone last) (hmore : reception.io_offset < reception.receive_length)
    (hopen : 0 ≤ reception.connector.socket_fd) :
    ∃ next, receive_round system reception = .inl next ∧ next.connector.calls = reception.connector.calls + 1 ∧
      (next.connector.socket_fd < 0 ∧ next.io_offset < next.receive_length ∧ ¬ reception.Completes system last ∨
        next.connector.socket_fd = reception.connector.socket_fd ∧
          (next.Completes system last ↔ reception.Completes system last)) := by
  unfold receive_round
  simp only [if_pos hmore, recv_open hopen]
  by_cases hlast : last ≤ reception.connector.calls
  · have hnone : last - reception.connector.calls = 0 := by omega
    have hempty : system.delivers (last - reception.connector.calls) reception.connector.calls = [] := by
      rw [hnone]
      rfl
    have hincomplete := not_completes_of_empty hkept hmore hempty
    cases (hgone reception.connector.calls hlast).2 with
    | inl hzero =>
      simp only [hzero, Option.map_some, List.take_nil]
      refine ⟨_, rfl, rfl, Or.inr ⟨rfl, iff_of_false ?_ hincomplete⟩⟩
      have hkept' : ReceiveKept connector
          { reception with connector := { reception.connector with calls := reception.connector.calls + 1 } } :=
        ⟨hkept.size, hkept.length, hkept.waiting, hkept.header, hkept.offset, hkept.sent, hkept.received⟩
      refine not_completes_of_empty hkept' hmore ?_
      change system.delivers (last - (reception.connector.calls + 1)) _ = []
      rw [show last - (reception.connector.calls + 1) = 0 by omega]
      rfl
    | inr hfailed =>
      simp only [hfailed, Option.map_none]
      exact ⟨_, rfl, rfl, Or.inl ⟨by simp [disconnect_from_server, sys.FD_NONE], hmore, hincomplete⟩⟩
  · have hchunks := delivers_of_lt system (show reception.connector.calls < last by omega)
    cases hrecv : system.recv reception.connector.calls with
    | none =>
      rw [hrecv] at hchunks
      simp only [Option.map_none]
      exact ⟨_, rfl, rfl, Or.inl ⟨by simp [disconnect_from_server, sys.FD_NONE], hmore,
        not_completes_of_empty hkept hmore hchunks⟩⟩
    | some data =>
      rw [hrecv] at hchunks
      have hstored := completes_store hkept hmore hchunks rfl
      simp only [Option.map_some]
      cases hread : data.take (reception.receive_length - reception.io_offset) with
      | nil =>
        refine ⟨_, rfl, rfl, Or.inr ⟨rfl, ?_⟩⟩
        rw [hread] at hstored
        rwa [Reception.store_empty
          { reception with connector := { reception.connector with calls := reception.connector.calls + 1 } }
          (fun hheader => (hkept.waiting hheader).2)] at hstored
      | cons first others =>
        simp only
        obtain ⟨hcalls, hfd⟩ := Reception.store_connector
          { reception with connector := { reception.connector with calls := reception.connector.calls + 1 } }
          (first :: others)
        rw [hread] at hstored
        exact ⟨_, rfl, hcalls, Or.inr ⟨hfd, hstored⟩⟩

/-- The message is not complete, and what is delivered up to the given call does not suffice for
the rest of it. -/
def ReceiveStuck (system : System) (last : Nat) (connector : ClientConnector) (reception : Reception) : Prop :=
  ReceiveKept connector reception ∧ reception.io_offset < reception.receive_length ∧
    (reception.connector.socket_fd < 0 ∨ ¬ reception.Completes system last)

/-- A message of which nothing is missing is complete. -/
theorem completes_of_done {reception : Reception} (hkept : ReceiveKept connector reception)
    (hdone : reception.receive_length ≤ reception.io_offset) : reception.Completes system last := by
  have hheader : reception.have_header = true := by
    by_contra hnone
    obtain ⟨hfour, hbelow⟩ := hkept.waiting (by simpa using hnone)
    omega
  unfold Reception.Completes
  simp only [hheader, if_true]
  omega

theorem ReceiveStuck.round (hgone : system.PeerGone last) {reception : Reception}
    (h : ReceiveStuck system last connector reception) :
    ∃ next, receive_round system reception = .inl next ∧ ReceiveStuck system last connector next := by
  obtain ⟨hkept, hmore, hrest⟩ := h
  by_cases hclosed : reception.connector.socket_fd < 0
  · have hround : receive_round system reception = .inl
        { reception with
          connector :=
            { reception.connector with calls := reception.connector.calls + 1 }.disconnect_from_server } := by
      unfold receive_round
      simp only [if_pos hmore, recv_closed hclosed]
    exact ⟨_, hround, hkept.round hround, hmore, Or.inl (by simp [disconnect_from_server, sys.FD_NONE])⟩
  · have hincomplete := hrest.resolve_left hclosed
    obtain ⟨next, hround, _, hnext⟩ := completes_round hkept hgone hmore (by omega)
    have hkept' := hkept.round hround
    obtain ⟨hclosed', hmore', _⟩ | ⟨_, hsame⟩ := hnext
    · exact ⟨next, hround, hkept', hmore', Or.inl hclosed'⟩
    · have hincomplete' : ¬ next.Completes system last := fun hcompletes => hincomplete (hsame.mp hcompletes)
      have hmore' : next.io_offset < next.receive_length := by
        by_contra hdone
        exact hincomplete' (completes_of_done hkept' (by omega))
      exact ⟨next, hround, hkept', hmore', Or.inr hincomplete'⟩

/-- A message that is delivered as a whole gets received. -/
theorem ends_of_completes {rounds : Nat} (hgone : system.PeerGone last) {reception : Reception}
    (hkept : ReceiveKept connector reception) (hopen : 0 ≤ reception.connector.socket_fd)
    (hrounds : last ≤ reception.connector.calls + rounds) (hcompletes : reception.Completes system last) :
    ∃ result, Ends (receive_round system) reception result := by
  induction rounds generalizing reception with
  | zero =>
    have hdone : ¬ reception.io_offset < reception.receive_length := by
      intro hmore
      refine not_completes_of_empty hkept hmore ?_ hcompletes
      rw [show last - reception.connector.calls = 0 by omega]
      rfl
    exact ⟨_, .finish (if_neg hdone)⟩
  | succ rounds ih =>
    by_cases hmore : reception.io_offset < reception.receive_length
    · obtain ⟨next, hround, hcalls, hnext⟩ := completes_round hkept hgone hmore hopen
      obtain ⟨_, _, hincomplete⟩ | ⟨hfd, hsame⟩ := hnext
      · exact absurd hcompletes hincomplete
      · obtain ⟨result, hends⟩ := ih (hkept.round hround) (by rw [hfd]; exact hopen) (by omega) (hsame.mpr hcompletes)
        exact ⟨result, (ends_next hround).mpr hends⟩
    · exact ⟨_, .finish (if_neg hmore)⟩

/-- The loop that receives a message ends exactly when a whole message is delivered before the peer
is gone. -/
theorem receive_ends_iff (hsize : connector.io_buffer.length = IO_BUFFER_SIZE) (hgone : system.PeerGone last)
    (hopen : 0 ≤ connector.socket_fd) : (∃ result, Ends (receive_round system) { connector } result) ↔
      ∃ front back, system.delivers (last - connector.calls) connector.calls = front ++ back ∧
        MsgHeader.HEADER_SIZE ≤ front.flatten.length ∧
        min (MsgHeader.deserialize front.flatten).data_length.toNat IO_BUFFER_SIZE ≤
          MsgHeader.HEADER_SIZE + back.flatten.length := by
  have hkept := initial_receive_kept hsize
  have hcompletes : Reception.Completes system last { connector } ↔ ∃ front back,
      system.delivers (last - connector.calls) connector.calls = front ++ back ∧
        MsgHeader.HEADER_SIZE ≤ front.flatten.length ∧
        min (MsgHeader.deserialize front.flatten).data_length.toNat IO_BUFFER_SIZE ≤
          MsgHeader.HEADER_SIZE + back.flatten.length := by
    simp only [Reception.Completes, Bool.false_eq_true, if_false, Nat.zero_add, List.take_zero, List.nil_append]
  rw [← hcompletes]
  constructor
  · rintro ⟨result, fuel, hrun⟩
    by_contra hincomplete
    have hstuck : ReceiveStuck system last connector { connector } :=
      ⟨hkept, show 0 < MsgHeader.HEADER_SIZE by decide, Or.inr hincomplete⟩
    rw [not_ends_of_invariant (fun _ => ReceiveStuck.round hgone) hstuck] at hrun
    cases hrun
  · intro hwhole
    exact ends_of_completes hgone hkept hopen (Nat.le_add_left _ _) hwhole

/-- The number of bytes that `send_message` sends. -/
def message_length (connector : ClientConnector) : Nat :=
  min (max MsgHeader.HEADER_SIZE connector.header.data_length.toNat) IO_BUFFER_SIZE

theorem length_serialize (header : MsgHeader) {io_buffer : Bytes} (hsize : io_buffer.length = IO_BUFFER_SIZE) :
    (header.serialize io_buffer).length = IO_BUFFER_SIZE := by
  have hheader : MsgHeader.HEADER_SIZE ≤ io_buffer.length := hsize ▸ (by decide)
  rw [header.serialize_eq hheader, List.length_append, MsgHeader.length_wire, List.length_drop, hsize]
  rfl

/-- `send_message` returns, and raises an exception for a message that is longer than the buffer. -/
theorem send_message_spec {after : ClientConnector} {result : Except Thrown Unit}
    (hrun : connector.send_message system fuel = some (after, result)) :
    after.header = connector.header ∧ after.received = connector.received ∧
      after.io_buffer = connector.header.serialize connector.io_buffer ∧
      after.sent = connector.sent ++ (connector.header.serialize connector.io_buffer).take connector.message_length ∧
      result = if connector.message_length < connector.header.data_length.toNat then .error (.OsException .IO_ERROR)
        else .ok () := by
  unfold send_message at hrun
  simp only at hrun
  split at hrun
  · next hloop =>
    obtain ⟨hoffset, hkept⟩ := send_result hloop
    have hheader := hkept.header
    have hsent := hkept.sent
    simp only at hoffset hheader hsent
    rw [hoffset] at hsent
    rw [hoffset, hheader] at hrun
    split at hrun
    · next hlong =>
      obtain ⟨rfl, rfl⟩ := Prod.mk.inj (Option.some.inj hrun)
      exact ⟨hheader, hkept.received, hkept.io_buffer, hsent, (if_pos hlong).symm⟩
    · next hshort =>
      obtain ⟨rfl, rfl⟩ := Prod.mk.inj (Option.some.inj hrun)
      exact ⟨hheader, hkept.received, hkept.io_buffer, hsent, (if_neg hshort).symm⟩
  · cases hrun

theorem send_message_ends_iff (hgone : system.PeerGone last) (hopen : 0 ≤ connector.socket_fd) :
    (∃ fuel after result, connector.send_message system fuel = some (after, result)) ↔
      connector.message_length ≤ system.accepts (last - connector.calls) connector.calls := by
  have hends : (∃ result, Ends (send_round system connector.message_length)
      (0, { connector with io_buffer := connector.header.serialize connector.io_buffer }) result) ↔
      connector.message_length ≤ system.accepts (last - connector.calls) connector.calls := send_ends_iff hgone hopen
  rw [← hends]
  constructor
  · rintro ⟨fuel, after, result, hrun⟩
    unfold send_message at hrun
    simp only at hrun
    split at hrun
    · next hloop => exact ⟨_, fuel, hloop⟩
    · cases hrun
  · rintro ⟨⟨io_offset, after⟩, fuel, hloop⟩
    unfold message_length at hloop
    unfold send_message
    by_cases hlong : io_offset < after.header.data_length.toNat
    · refine ⟨fuel, after, .error (.OsException .IO_ERROR), ?_⟩
      simp only [hloop, if_pos hlong]
    · refine ⟨fuel, after, .ok (), ?_⟩
      simp only [hloop, if_neg hlong]

/-- `receive_message` returns with a header and the bytes that it announces, and raises an exception
when these are more than the buffer takes. -/
theorem receive_message_spec {after : ClientConnector} {result : Except Thrown Unit}
    (hrun : connector.receive_message system fuel = some (after, result)) :
    ∃ message, after.received = connector.received ++ message ∧ after.sent = connector.sent ∧
      MsgHeader.HEADER_SIZE ≤ message.length ∧ after.header = MsgHeader.deserialize message ∧
      message.length = max MsgHeader.HEADER_SIZE (min after.header.data_length.toNat IO_BUFFER_SIZE) ∧
      result = if IO_BUFFER_SIZE < after.header.data_length.toNat then .error (.OsException .IO_ERROR) else .ok () := by
  have hcleared : (zero_memory IO_BUFFER_SIZE).length = IO_BUFFER_SIZE := length_zero_memory _
  unfold receive_message at hrun
  simp only [clear_io_buffer] at hrun
  split at hrun
  · next reception hloop =>
    obtain ⟨hdone, hheader, hkept⟩ := receive_result hcleared hloop
    obtain ⟨hfour, hdecoded, hlength⟩ := hkept.header hheader
    have hsize' := hkept.size
    have hoffset := hkept.offset
    have hbuffer : MsgHeader.HEADER_SIZE ≤ IO_BUFFER_SIZE := by decide
    have hmessage : (reception.connector.io_buffer.take reception.io_offset).length = reception.io_offset := by
      rw [List.length_take]
      omega
    have hshort : (reception.have_header = false ∨
        reception.io_offset < reception.connector.header.data_length.toNat) ↔
        IO_BUFFER_SIZE < reception.connector.header.data_length.toNat := by
      rw [hheader]
      simp only [Bool.true_eq_false, false_or]
      omega
    have hrest : reception.connector.received = connector.received ++
        reception.connector.io_buffer.take reception.io_offset ∧ reception.connector.sent = connector.sent ∧
        MsgHeader.HEADER_SIZE ≤ (reception.connector.io_buffer.take reception.io_offset).length ∧
        reception.connector.header = MsgHeader.deserialize (reception.connector.io_buffer.take reception.io_offset) ∧
        (reception.connector.io_buffer.take reception.io_offset).length =
          max MsgHeader.HEADER_SIZE (min reception.connector.header.data_length.toNat IO_BUFFER_SIZE) := by
      rw [hmessage]
      exact ⟨hkept.received, hkept.sent, hfour, hdecoded, by omega⟩
    obtain ⟨hreceived, hsent, hlong, hdecoded', hexact⟩ := hrest
    by_cases hlonger : IO_BUFFER_SIZE < reception.connector.header.data_length.toNat
    · rw [if_pos (hshort.mpr hlonger)] at hrun
      obtain ⟨rfl, rfl⟩ := Prod.mk.inj (Option.some.inj hrun)
      exact ⟨_, hreceived, hsent, hlong, hdecoded', hexact, (if_pos hlonger).symm⟩
    · rw [if_neg (fun h => hlonger (hshort.mp h))] at hrun
      obtain ⟨rfl, rfl⟩ := Prod.mk.inj (Option.some.inj hrun)
      exact ⟨_, hreceived, hsent, hlong, hdecoded', hexact, (if_neg hlonger).symm⟩
  · cases hrun

theorem receive_message_ends_iff (hgone : system.PeerGone last) (hopen : 0 ≤ connector.socket_fd) :
    (∃ fuel after result, connector.receive_message system fuel = some (after, result)) ↔
      ∃ front back, system.delivers (last - connector.calls) connector.calls = front ++ back ∧
        MsgHeader.HEADER_SIZE ≤ front.flatten.length ∧
        min (MsgHeader.deserialize front.flatten).data_length.toNat IO_BUFFER_SIZE ≤
          MsgHeader.HEADER_SIZE + back.flatten.length := by
  have hcleared : (zero_memory IO_BUFFER_SIZE).length = IO_BUFFER_SIZE := length_zero_memory _
  have hends : (∃ result, Ends (receive_round system) { connector := { connector with
      header := MsgHeader.clear, io_buffer := zero_memory IO_BUFFER_SIZE } } result) ↔ _ :=
    receive_ends_iff hcleared hgone hopen
  rw [← hends]
  constructor
  · rintro ⟨fuel, after, result, hrun⟩
    unfold receive_message at hrun
    simp only [clear_io_buffer] at hrun
    split at hrun
    · next hloop => exact ⟨_, fuel, hloop⟩
    · cases hrun
  · rintro ⟨reception, fuel, hloop⟩
    unfold receive_message
    simp only [clear_io_buffer]
    by_cases hincomplete : reception.have_header = false ∨
        reception.io_offset < reception.connector.header.data_length.toNat
    · refine ⟨fuel, reception.connector, .error (.OsException .IO_ERROR), ?_⟩
      simp only [hloop, if_pos hincomplete]
    · refine ⟨fuel, reception.connector, .ok (), ?_⟩
      simp only [hloop, if_neg hincomplete]

end ClientConnector

end client

end ufh
