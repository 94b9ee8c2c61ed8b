import UniversalFencingHub.Client.Transfer

namespace ufh

namespace client

namespace ClientConnector

/-- `send_message` ends, and with an exception when the message has not been sent completely. -/
def EndsSending (system : System) (connector : ClientConnector) : Prop :=
  ∃ fuel after result, connector.send_message system fuel = some (after, result) ∧
    (after.sent.length < connector.sent.length + connector.header.data_length.toNat →
      result = .error (.OsException .IO_ERROR))

/-- `receive_message` ends, and with an exception when the message has not been received completely. -/
def EndsReceiving (system : System) (connector : ClientConnector) : Prop :=
  ∃ fuel after result, connector.receive_message system fuel = some (after, result) ∧
    (after.received.length <
        connector.received.length + max MsgHeader.HEADER_SIZE after.header.data_length.toNat →
      result = .error (.OsException .IO_ERROR))

variable {system : System} {last : Nat} {connector : ClientConnector}

theorem ends_sending_iff (hsize : connector.io_buffer.length = IO_BUFFER_SIZE) (hopen : 0 ≤ connector.socket_fd)
    (hgone : system.PeerGone last) : connector.EndsSending system ↔
      connector.message_length ≤ system.accepts (last - connector.calls) connector.calls := by
  rw [← send_message_ends_iff hgone hopen]
  constructor
  · rintro ⟨fuel, after, result, hrun, _⟩
    exact ⟨fuel, after, result, hrun⟩
  · rintro ⟨fuel, after, result, hrun⟩
    obtain ⟨_, _, _, hsent, hresult⟩ := send_message_spec hrun
    refine ⟨fuel, after, result, hrun, fun hincomplete => ?_⟩
    have hlength : connector.message_length ≤ IO_BUFFER_SIZE := Nat.min_le_right ..
    rw [hsent, List.length_append, List.length_take, length_serialize _ hsize, Nat.min_eq_left hlength] at hincomplete
    rw [hresult, if_pos (by omega)]

theorem ends_receiving_iff (hopen : 0 ≤ connector.socket_fd) (hgone : system.PeerGone last) :
    connector.EndsReceiving system ↔ ∃ front back,
      system.delivers (last - connector.calls) connector.calls = front ++ back ∧
        MsgHeader.HEADER_SIZE ≤ front.flatten.length ∧
        min (MsgHeader.deserialize front.flatten).data_length.toNat IO_BUFFER_SIZE ≤
          MsgHeader.HEADER_SIZE + back.flatten.length := by
  rw [← receive_message_ends_iff hgone hopen]
  constructor
  · rintro ⟨fuel, after, result, hrun, _⟩
    exact ⟨fuel, after, result, hrun⟩
  · rintro ⟨fuel, after, result, hrun⟩
    obtain ⟨message, hreceived, _, _, _, hlength, hresult⟩ := receive_message_spec hrun
    refine ⟨fuel, after, result, hrun, fun hincomplete => ?_⟩
    rw [hreceived, List.length_append, hlength] at hincomplete
    rw [hresult, if_pos (by omega)]

/-- When the peer goes away, sending and receiving end exactly when the whole message has gone
through the socket before. -/
theorem transfers_end_iff (hsize : connector.io_buffer.length = IO_BUFFER_SIZE) (hopen : 0 ≤ connector.socket_fd)
    (hgone : system.PeerGone last) :
    (connector.EndsSending system ↔
      min (max MsgHeader.HEADER_SIZE connector.header.data_length.toNat) IO_BUFFER_SIZE ≤
        system.accepts (last - connector.calls) connector.calls) ∧
    (connector.EndsReceiving system ↔ ∃ front back,
      system.delivers (last - connector.calls) connector.calls = front ++ back ∧
        MsgHeader.HEADER_SIZE ≤ front.flatten.length ∧
        min (MsgHeader.deserialize front.flatten).data_length.toNat IO_BUFFER_SIZE ≤
          MsgHeader.HEADER_SIZE + back.flatten.length) :=
  ⟨ends_sending_iff hsize hopen hgone, ends_receiving_iff hopen hgone⟩

theorem replying_gone (chunks : List Bytes) : (replying chunks).PeerGone (chunks.length + 1) := by
  intro call hcall
  refine ⟨Or.inl (if_neg (by omega)), Or.inl ?_⟩
  have hnone : chunks[call]? = none := List.getElem?_eq_none (by omega)
  simp [replying, List.getD_eq_getElem?_getD, hnone]

theorem transfers_end_iff_header_only : connected.EndsReceiving (replying [[0, 0xA0], [0, 4]]) := by
  obtain ⟨_, hreceives⟩ := transfers_end_iff (replying []).length_io_buffer (by decide : 0 ≤ connected.socket_fd)
    (replying_gone [[0, 0xA0], [0, 4]])
  exact hreceives.mpr ⟨[[0, 0xA0], [0, 4]], [[]], rfl, by decide, by decide⟩

/-- The peer closes the connection without a reply, and the client does not end. -/
theorem transfers_not_ended : ¬ ∀ (system : System) (connector : ClientConnector) (last : Nat),
    connector.io_buffer.length = IO_BUFFER_SIZE → 0 ≤ connector.socket_fd → system.PeerGone last →
      connector.EndsSending system ∧ connector.EndsReceiving system := by
  intro hends
  have hopen : 0 ≤ connected.socket_fd := by decide
  obtain ⟨_, hreceives⟩ := hends (replying []) connected 1 (replying []).length_io_buffer hopen (replying_gone [])
  obtain ⟨front, back, hchunks, hheader, _⟩ := (ends_receiving_iff hopen (replying_gone [])).mp hreceives
  have hempty : (front ++ back).flatten = [] := by
    rw [← hchunks]
    rfl
  rw [List.flatten_append] at hempty
  rw [(List.append_eq_nil_iff.mp hempty).1] at hheader
  cases hheader

end ClientConnector

end client

end ufh
