import UniversalFencingHub.Client.Transfer

open looping

namespace ufh

namespace client

/-- The header with which the peer replies: the first bytes that `recv()` returns from a call on. -/
def System.Replies (system : System) (first : Nat) (header : MsgHeader) : Prop :=
  ∃ rounds, MsgHeader.HEADER_SIZE ≤ (system.delivers rounds first).flatten.length ∧
    header = MsgHeader.deserialize (system.delivers rounds first).flatten

theorem delivers_prefix (system : System) {rounds more first : Nat} (hle : rounds ≤ more) :
    system.delivers rounds first <+: system.delivers more first := by
  induction rounds generalizing more first with
  | zero => exact List.nil_prefix
  | succ rounds ih =>
    obtain ⟨rest, rfl⟩ : ∃ rest, more = rest + 1 := ⟨more - 1, by omega⟩
    unfold System.delivers
    cases system.recv first with
    | none => exact List.prefix_rfl
    | some data => exact List.cons_prefix_cons.mpr ⟨rfl, ih (by omega)⟩

theorem delivers_succ {system : System} {first : Nat} {data : Bytes} (hrecv : system.recv first = some data)
    (rounds : Nat) : system.delivers (rounds + 1) first = data :: system.delivers rounds (first + 1) := by
  unfold System.delivers
  rw [hrecv]
  cases rounds with
  | zero => rfl
  | succ rounds => rfl

/-- A peer replies with one header. -/
theorem System.Replies.unique {system : System} {first : Nat} {header other : MsgHeader}
    (h : system.Replies first header) (hother : system.Replies first other) : header = other := by
  obtain ⟨rounds, hlong, rfl⟩ := h
  obtain ⟨more, hlonger, rfl⟩ := hother
  have hdecoded : ∀ {fewer later : Nat}, fewer ≤ later →
      MsgHeader.HEADER_SIZE ≤ (system.delivers fewer first).flatten.length →
      MsgHeader.deserialize (system.delivers fewer first).flatten =
        MsgHeader.deserialize (system.delivers later first).flatten := by
    intro fewer later hle henough
    have hbegins : system.delivers fewer first <+: system.delivers later first := delivers_prefix system hle
    obtain ⟨rest, hrest⟩ := hbegins
    rw [← hrest, List.flatten_append, ClientConnector.deserialize_prefix _ henough]
  obtain hle | hle := Nat.le_total rounds more
  · exact hdecoded hle hlong
  · exact (hdecoded hle hlonger).symm

namespace ClientConnector

variable {system : System} {fuel : Nat} {connector : ClientConnector}

/-- Without a socket, a message that is not complete is never received. -/
theorem run_receive_closed {reception : Reception} (hclosed : reception.connector.socket_fd < 0)
    (hmore : reception.io_offset < reception.receive_length) : run (receive_round system) fuel reception = none := by
  refine not_ends_of_invariant (P := fun reception : Reception =>
    reception.connector.socket_fd < 0 ∧ reception.io_offset < reception.receive_length) ?_ ⟨hclosed, hmore⟩
  rintro reception ⟨hclosed, hmore⟩
  unfold receive_round
  simp only [if_pos hmore, recv_closed hclosed]
  exact ⟨_, rfl, show sys.FD_NONE < 0 by decide, hmore⟩

/-- What has been received stays at the start of the buffer. -/
theorem Reception.store_taken (reception : Reception) (data : Bytes)
    (hsize : reception.connector.io_buffer.length = IO_BUFFER_SIZE)
    (hroom : reception.io_offset + data.length ≤ IO_BUFFER_SIZE) :
    (reception.store data).io_offset = reception.io_offset + data.length ∧
      (reception.store data).connector.io_buffer.take (reception.store data).io_offset =
        reception.connector.io_buffer.take reception.io_offset ++ data := by
  have hstored : (ufh.store reception.connector.io_buffer reception.io_offset data).take
      (reception.io_offset + data.length) = reception.connector.io_buffer.take reception.io_offset ++ data :=
    take_store (by omega)
  unfold Reception.store
  simp only
  split
  · exact ⟨rfl, hstored⟩
  · exact ⟨rfl, hstored⟩

/-- A complete header does not change any more. -/
theorem header_round {reception next : Reception} (hheader : reception.have_header = true)
    (hround : receive_round system reception = .inl next) :
    next.have_header = true ∧ next.connector.header = reception.connector.header := by
  unfold receive_round at hround
  simp only at hround
  split at hround
  · split at hround
    · obtain ⟨rfl⟩ := Sum.inl.inj hround
      exact ⟨hheader, rfl⟩
    · obtain ⟨rfl⟩ := Sum.inl.inj hround
      unfold Reception.store
      simp only
      rw [if_neg (fun hnone => absurd (hheader.symm.trans hnone.1) (by decide))]
      exact ⟨hheader, rfl⟩
    · obtain ⟨rfl⟩ := Sum.inl.inj hround
      exact ⟨hheader, rfl⟩
  · cases hround

theorem header_of_run {reception last : Reception} (hheader : reception.have_header = true)
    (hrun : run (receive_round system) fuel reception = some last) :
    last.connector.header = reception.connector.header := by
  have hkept : ∀ current next : Reception,
      current.have_header = true ∧ current.connector.header = reception.connector.header →
      receive_round system current = .inl next →
      next.have_header = true ∧ next.connector.header = reception.connector.header := by
    rintro current next ⟨hcurrent, hsame⟩ hround
    obtain ⟨hnext, heq⟩ := header_round hcurrent hround
    exact ⟨hnext, heq.trans hsame⟩
  obtain ⟨current, ⟨_, hsame⟩, hlast⟩ := invariant_of_run hkept ⟨hheader, rfl⟩ hrun
  unfold receive_round at hlast
  simp only at hlast
  split at hlast
  · split at hlast
    · cases hlast
    · cases hlast
    · cases hlast
  · obtain ⟨rfl⟩ := Sum.inr.inj hlast
    exact hsame

/-- The header that `receive_message` leaves behind consists of the next bytes that the peer sends. -/
theorem reply_of_run {reception last : Reception} (hkept : ReceiveKept connector reception)
    (hwaiting : reception.have_header = false) (hrun : run (receive_round system) fuel reception = some last) :
    ∃ rounds, MsgHeader.HEADER_SIZE ≤
        reception.io_offset + (system.delivers rounds reception.connector.calls).flatten.length ∧
      last.connector.header = MsgHeader.deserialize (reception.connector.io_buffer.take reception.io_offset ++
        (system.delivers rounds reception.connector.calls).flatten) := by
  induction fuel generalizing reception with
  | zero => cases hrun
  | succ fuel ih =>
    obtain ⟨hfour, hbelow⟩ := hkept.waiting hwaiting
    have hmore : reception.io_offset < reception.receive_length := by omega
    by_cases hclosed : reception.connector.socket_fd < 0
    · rw [run_receive_closed hclosed hmore] at hrun
      cases hrun
    · cases hrecv : system.recv reception.connector.calls with
      | none =>
        have hround : receive_round system reception = .inl
            { reception with
              connector :=
                { reception.connector with calls := reception.connector.calls + 1 }.disconnect_from_server } := by
          unfold receive_round
          simp only [if_pos hmore, recv_open (Int.not_lt.mp hclosed), hrecv, Option.map_none]
        rw [run_next hround] at hrun
        have hnever : run (receive_round system) fuel
            { reception with
              connector :=
                { reception.connector with calls := reception.connector.calls + 1 }.disconnect_from_server } =
              none :=
          run_receive_closed (show sys.FD_NONE < 0 by decide) hmore
        rw [hnever] at hrun
        cases hrun
      | some data =>
        have hround : receive_round system reception = .inl (Reception.store
            { reception with connector := { reception.connector with calls := reception.connector.calls + 1 } }
            (data.take (reception.receive_length - reception.io_offset))) := by
          have hstays := Reception.store_empty
            { reception with connector := { reception.connector with calls := reception.connector.calls + 1 } }
            (fun _ => hbelow)
          unfold receive_round
          simp only [if_pos hmore, recv_open (Int.not_lt.mp hclosed), hrecv, Option.map_some]
          cases htaken : data.take (reception.receive_length - reception.io_offset) with
          | nil => exact congrArg Sum.inl hstays.symm
          | cons byte rest => rfl
        have hnext := hkept.round hround
        rw [run_next hround] at hrun
        obtain ⟨hoffset, hbuffer⟩ := Reception.store_taken
          { reception with connector := { reception.connector with calls := reception.connector.calls + 1 } }
          (data.take (reception.receive_length - reception.io_offset)) hkept.size
          (by have := hkept.length; rw [List.length_take]; simp only; omega)
        have hcalls := (Reception.store_connector
          { reception with connector := { reception.connector with calls := reception.connector.calls + 1 } }
          (data.take (reception.receive_length - reception.io_offset))).1
        generalize Reception.store _ _ = next at hnext hrun hoffset hbuffer hcalls
        simp only at hoffset hbuffer hcalls
        rw [hfour, List.length_take] at hoffset
        rw [hfour] at hbuffer
        have hlength : (reception.connector.io_buffer.take reception.io_offset).length = reception.io_offset := by
          have hsize := hkept.size
          have hsmall : MsgHeader.HEADER_SIZE ≤ IO_BUFFER_SIZE := by decide
          rw [List.length_take]
          omega
        cases hheader : next.have_header with
        | true =>
          obtain ⟨hlong, hdecoded, _⟩ := hnext.header hheader
          have hfront : MsgHeader.HEADER_SIZE ≤ (reception.connector.io_buffer.take reception.io_offset ++
              data.take (MsgHeader.HEADER_SIZE - reception.io_offset)).length := by
            rw [List.length_append, List.length_take, List.length_take]
            rw [List.length_take] at hlength
            omega
          refine ⟨1, ?_, ?_⟩
          · rw [delivers_succ hrecv]
            simp only [System.delivers, List.flatten_cons, List.flatten_nil, List.append_nil]
            omega
          · rw [header_of_run hheader hrun, hdecoded, hbuffer, delivers_succ hrecv]
            simp only [System.delivers, List.flatten_cons, List.flatten_nil, List.append_nil]
            rw [← deserialize_prefix (data.drop (MsgHeader.HEADER_SIZE - reception.io_offset)) hfront,
                List.append_assoc,
              List.take_append_drop]
        | false =>
          obtain ⟨_, hshort⟩ := hnext.waiting hheader
          obtain ⟨rounds, henough, hdecoded⟩ := ih hnext hheader hrun
          rw [hcalls] at henough hdecoded
          have hwhole : data.take (MsgHeader.HEADER_SIZE - reception.io_offset) = data :=
            List.take_of_length_le (by omega)
          refine ⟨rounds + 1, ?_, ?_⟩
          · rw [delivers_succ hrecv, List.flatten_cons, List.length_append]
            omega
          · rw [hdecoded, hbuffer, hwhole, delivers_succ hrecv, List.flatten_cons, List.append_assoc]

/-- `receive_message` leaves the header behind with which the peer replies. -/
theorem receive_message_replies {after : ClientConnector} {result : Except Thrown Unit}
    (hrun : connector.receive_message system fuel = some (after, result)) :
    system.Replies connector.calls after.header := by
  have hcleared : (zero_memory IO_BUFFER_SIZE).length = IO_BUFFER_SIZE := length_zero_memory _
  unfold receive_message at hrun
  simp only at hrun
  split at hrun
  · next reception hloop =>
    obtain ⟨rounds, henough, hdecoded⟩ := reply_of_run (initial_receive_kept hcleared) rfl hloop
    have hheader : after.header = reception.connector.header := by
      split at hrun
      · cases hrun
        rfl
      · cases hrun
        rfl
    simp only [List.take_zero, List.nil_append, Nat.zero_add] at hdecoded henough
    exact ⟨rounds, henough, hheader.trans hdecoded⟩
  · cases hrun

end ClientConnector

end client

end ufh
