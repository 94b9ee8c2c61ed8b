import UniversalFencingHub.ServerConnector.PerformIo

namespace ufh

/-- What a step on one client leaves alone: the other clients, and the
descriptors that are not its own. The client keeps its descriptor or loses it. -/
structure Affects {Buf : Type} (client : ClientPtr) (before after : Connector Buf) : Prop where
  others : ∀ other, other ≠ client → after.clients other = before.clients other
  open_fds : ∀ fd ∈ before.open_fds, fd ≠ (before.clients client).socket_fd → fd ∈ after.open_fds
  socket_fd : (after.clients client).socket_fd = (before.clients client).socket_fd ∨
    (after.clients client).socket_fd = sys.FD_NONE

/-- What a step on the clients leaves open: all descriptors but those of clients. -/
def KeepsOpen {Buf : Type} (before after : Connector Buf) : Prop :=
  ∀ fd ∈ before.open_fds, (∀ client, (before.clients client).socket_fd ≠ fd) → fd ∈ after.open_fds

section

variable {Buf : Type} {client : ClientPtr} {before after : Connector Buf}

theorem KeepsOpen.of_eq (hopen : after.open_fds = before.open_fds) : KeepsOpen before after := by
  intro fd hfd _
  rw [hopen]
  exact hfd

theorem Affects.keeps_open (h : Affects client before after) : KeepsOpen before after :=
  fun fd hfd hclients => h.open_fds fd hfd (hclients client).symm

/-- A step that does not touch the clients at all. -/
theorem Affects.of_eq (hclients : after.clients = before.clients) (hopen : after.open_fds = before.open_fds) :
    Affects client before after := by
  refine ⟨fun other _ => by rw [hclients], fun fd hfd _ => by rw [hopen]; exact hfd, Or.inl ?_⟩
  rw [hclients]

theorem updated_socket_fd {object : NetClient Buf} {fd : Int}
    (hclients : after.clients = Function.update before.clients client object) (hfd : object.socket_fd = fd) :
    (after.clients client).socket_fd = fd := by
  rw [hclients, Function.update_self, hfd]

theorem Affects.of_update {object : NetClient Buf}
    (hclients : after.clients = Function.update before.clients client object)
    (hopen : after.open_fds = before.open_fds) (hfd : object.socket_fd = (before.clients client).socket_fd) :
    Affects client before after := by
  refine ⟨fun other hother => ?_, fun fd hmem _ => by rw [hopen]; exact hmem, Or.inl ?_⟩
  · rw [hclients, Function.update_of_ne hother]
  · exact updated_socket_fd hclients hfd

/-- Two steps in a row, of which the first keeps the descriptor. -/
theorem Affects.trans {last : Connector Buf} (h : Affects client before after)
    (hsame : (after.clients client).socket_fd = (before.clients client).socket_fd)
    (hlast : Affects client after last) : Affects client before last := by
  refine ⟨fun other hother => ?_, fun fd hfd hne => ?_, ?_⟩
  · exact (hlast.others other hother).trans (h.others other hother)
  · apply hlast.open_fds fd (h.open_fds fd hfd hne)
    rwa [hsame]
  · rw [← hsame]
    exact hlast.socket_fd

/-- Setting the phase of a client, and what follows from the new phase. -/
private theorem Affects.set_phase {phase : Phase} {last : Connector Buf}
    (hlast : Affects client (before.set_client client { before.clients client with current_phase := phase }) last) :
    Affects client before last := by
  have hset : Affects client before
      (before.set_client client { before.clients client with current_phase := phase }) := .of_update rfl rfl rfl
  exact hset.trans (updated_socket_fd rfl rfl) hlast

variable [CharBuffer Buf]

theorem affects_close_connection (connector : Connector Buf) (client : ClientPtr) :
    Affects client connector (connector.close_connection client) := by
  refine ⟨fun other hother => ?_, fun fd hfd hne => ?_, Or.inr ?_⟩
  · exact Function.update_of_ne hother _ _
  · exact sys.mem_close_fd hfd hne
  · simp only [Connector.close_connection, Connector.set_client, Function.update_self]
    rfl

theorem affects_receive_message (connector : Connector Buf) (client : ClientPtr) (result : IoResult) :
    Affects client connector (connector.receive_message client result).1 ∧
      ((connector.receive_message client result).2 = true →
        (((connector.receive_message client result).1).clients client).socket_fd =
          (connector.clients client).socket_fd) := by
  cases result with
  | received data =>
    obtain ⟨_, _, hfd, _⟩ := receive_kept (connector.clients client) data
    rw [receive_message_received]
    refine ⟨.of_update rfl rfl hfd, fun _ => ?_⟩
    exact updated_socket_fd rfl hfd
  | receive_failed => exact ⟨affects_close_connection connector client, nofun⟩
  | no_call => exact ⟨affects_close_connection connector client, nofun⟩
  | sent count => exact ⟨affects_close_connection connector client, nofun⟩
  | send_failed => exact ⟨affects_close_connection connector client, nofun⟩
  | broken_pipe => exact ⟨affects_close_connection connector client, nofun⟩

theorem affects_send_message (connector : Connector Buf) (client : ClientPtr) (result : IoResult) :
    Affects client connector (connector.send_message client result).1 ∧
      ((connector.send_message client result).2 = true →
        (((connector.send_message client result).1).clients client).socket_fd =
          (connector.clients client).socket_fd) := by
  obtain ⟨_, hprepared, _⟩ := prepare_send_kept (connector.clients client)
  have hfailed : Affects client connector
      ((connector.set_client client (connector.clients client).prepare_send).close_connection client) := by
    have hset : Affects client connector (connector.set_client client (connector.clients client).prepare_send) :=
      .of_update rfl rfl hprepared
    refine hset.trans ?_ (affects_close_connection _ client)
    exact updated_socket_fd rfl hprepared
  cases result with
  | sent count =>
    obtain ⟨_, hsent, _⟩ := sent_kept (connector.clients client).prepare_send count
    rw [send_message_sent]
    refine ⟨.of_update rfl rfl (hsent.trans hprepared), fun _ => ?_⟩
    exact updated_socket_fd rfl (hsent.trans hprepared)
  | send_failed => exact ⟨hfailed, nofun⟩
  | broken_pipe => exact ⟨hfailed, nofun⟩
  | no_call => exact ⟨hfailed, nofun⟩
  | received data => exact ⟨hfailed, nofun⟩
  | receive_failed => exact ⟨hfailed, nofun⟩

theorem affects_receive_completed (connector : Connector Buf) (client : ClientPtr) :
    Affects client connector (connector.receive_completed client).1 := by
  unfold Connector.receive_completed
  simp only
  split
  · exact .set_phase (affects_close_connection _ client)
  · split
    · exact .set_phase (.of_update rfl rfl rfl)
    · exact .set_phase (.of_eq rfl rfl)

theorem affects_send_completed (connector : Connector Buf) (client : ClientPtr) :
    Affects client connector (connector.send_completed client) := by
  unfold Connector.send_completed
  simp only
  split
  · exact .set_phase (affects_close_connection _ client)
  · split
    · exact .set_phase (.of_update rfl rfl rfl)
    · exact .set_phase (.of_eq rfl rfl)

/-- The I/O pass on a client affects that client only. -/
theorem affects_perform_io (connector : Connector Buf) (read_fd_set write_fd_set : List Int) (client : ClientPtr)
    (result : IoResult) : Affects client connector (connector.perform_io read_fd_set write_fd_set client result).1 := by
  obtain ⟨hreceive, hreceived⟩ := affects_receive_message connector client result
  obtain ⟨hsend, hsent⟩ := affects_send_message connector client result
  unfold Connector.perform_io
  simp only
  split
  · exact affects_close_connection connector client
  · split
    · split
      · next hcomplete => exact hreceive.trans (hreceived hcomplete) (affects_receive_completed _ client)
      · exact hreceive
    · split
      · split
        · next hcomplete => exact hsend.trans (hsent hcomplete) (affects_send_completed _ client)
        · exact hsend
      · exact .of_eq rfl rfl

variable {connector : Connector Buf} {read_fd_set write_fd_set : List Int} {result : IoResult}

/-- A step on one client leaves the records of all other connections alone. -/
structure SameRecords (client : ClientPtr) (before after : Connector Buf) : Prop where
  connection : after.connection = before.connection
  history : ∀ connection ≠ before.connection client, after.history connection = before.history connection

omit [CharBuffer Buf] in
theorem SameRecords.trans {first second third : Connector Buf} (h : SameRecords client first second)
    (hrest : SameRecords client second third) : SameRecords client first third := by
  refine ⟨hrest.connection.trans h.connection, fun connection hne => ?_⟩
  rw [hrest.history connection (by rwa [h.connection]), h.history connection hne]

omit [CharBuffer Buf] in
theorem SameRecords.of_update {after : Connector Buf} {record : History}
    (hconnection : after.connection = connector.connection)
    (hhistory : after.history = Function.update connector.history (connector.connection client) record) :
    SameRecords client connector after := by
  refine ⟨hconnection, fun connection hne => ?_⟩
  rw [hhistory, Function.update_of_ne hne]

omit [CharBuffer Buf] in
theorem SameRecords.of_eq {after : Connector Buf} (hconnection : after.connection = connector.connection)
    (hhistory : after.history = connector.history) : SameRecords client connector after :=
  ⟨hconnection, fun _ _ => by rw [hhistory]⟩

theorem same_records_perform_io :
    SameRecords client connector (connector.perform_io read_fd_set write_fd_set client result).1 := by
  have hclose : ∀ connector : Connector Buf, SameRecords client connector (connector.close_connection client) :=
    fun _ => .of_update rfl rfl
  have hchange : ∀ (connector : Connector Buf) (object : NetClient Buf),
      SameRecords client connector ((connector.set_client client object).close_connection client) :=
    fun _ _ => .of_update rfl rfl
  unfold Connector.perform_io
  simp only
  split
  · exact hclose connector
  · split
    · have hreceive : SameRecords client connector (connector.receive_message client result).1 := by
        cases result with
        | received data => exact .of_update rfl rfl
        | _ => exact hclose connector
      split
      · refine hreceive.trans ?_
        unfold Connector.receive_completed
        simp only
        split
        · exact hchange _ _
        · split
          · exact .of_eq rfl rfl
          · exact .of_eq rfl rfl
      · exact hreceive
    · split
      · have hsend : SameRecords client connector (connector.send_message client result).1 := by
          cases result with
          | sent count => exact .of_update rfl rfl
          | _ => exact hchange _ _
        split
        · refine hsend.trans ?_
          unfold Connector.send_completed
          simp only
          split
          · exact hchange _ _
          · split
            · exact .of_eq rfl rfl
            · exact .of_eq rfl rfl
        · exact hsend
      · exact .of_eq rfl rfl

end

/-- A step that leaves the descriptors with which the connections began as they are. -/
structure SameSockets {Buf : Type} (before after : Connector Buf) : Prop where
  connection : after.connection = before.connection
  connections : after.connections = before.connections
  socket : ∀ connection, (after.history connection).socket = (before.history connection).socket

section

variable {Buf : Type} {before after last connector : Connector Buf} {client : ClientPtr} {result : IoResult}
  {read_fd_set write_fd_set : List Int}

theorem SameSockets.of_eq (hconnection : after.connection = before.connection)
    (hconnections : after.connections = before.connections) (hhistory : after.history = before.history) :
    SameSockets before after :=
  ⟨hconnection, hconnections, fun connection => by rw [hhistory]⟩

theorem SameSockets.trans (h : SameSockets before after) (hlast : SameSockets after last) : SameSockets before last :=
  ⟨hlast.connection.trans h.connection, hlast.connections.trans h.connections,
      fun connection => (hlast.socket connection).trans (h.socket connection)⟩

theorem SameSockets.of_update {record : History} (hconnection : after.connection = before.connection)
    (hconnections : after.connections = before.connections)
    (hhistory : after.history = Function.update before.history (before.connection client) record)
    (hsocket : record.socket = (before.record client).socket) : SameSockets before after := by
  refine ⟨hconnection, hconnections, fun connection => ?_⟩
  rw [hhistory]
  by_cases hsame : connection = before.connection client
  · rw [hsame, Function.update_self]
    exact hsocket
  · rw [Function.update_of_ne hsame]

theorem same_sockets_take_action : SameSockets connector connector.take_action.2 := by
  unfold Connector.take_action Connector.action_remove_first
  simp only
  split
  · next heq =>
    obtain ⟨_, rfl⟩ := Prod.mk.inj heq
    exact .of_eq rfl rfl rfl
  · next heq =>
    obtain ⟨_, rfl⟩ := Prod.mk.inj heq
    exact .of_eq rfl rfl rfl

variable [CharBuffer Buf]

theorem same_sockets_close_connection (connector : Connector Buf) (client : ClientPtr) :
    SameSockets connector (connector.close_connection client) :=
  .of_update rfl rfl rfl rfl

theorem same_sockets_receive_message : SameSockets connector (connector.receive_message client result).1 := by
  cases result with
  | received data => exact .of_update rfl rfl rfl rfl
  | _ => exact same_sockets_close_connection connector client

theorem same_sockets_send_message : SameSockets connector (connector.send_message client result).1 := by
  have hset : SameSockets connector (connector.set_client client (connector.clients client).prepare_send) :=
    .of_eq rfl rfl rfl
  cases result with
  | sent count => exact .of_update rfl rfl rfl rfl
  | _ => exact hset.trans (same_sockets_close_connection _ client)

theorem same_sockets_receive_completed : SameSockets connector (connector.receive_completed client).1 := by
  have hset : ∀ object, SameSockets connector (connector.set_client client object) := fun _ => .of_eq rfl rfl rfl
  unfold Connector.receive_completed
  simp only
  split
  · exact (hset _).trans (same_sockets_close_connection _ client)
  · split
    · exact .of_eq rfl rfl rfl
    · exact hset _

theorem same_sockets_send_completed : SameSockets connector (connector.send_completed client) := by
  have hset : ∀ object, SameSockets connector (connector.set_client client object) := fun _ => .of_eq rfl rfl rfl
  unfold Connector.send_completed
  simp only
  split
  · exact (hset _).trans (same_sockets_close_connection _ client)
  · split
    · exact .of_eq rfl rfl rfl
    · exact hset _

theorem same_sockets_perform_io :
    SameSockets connector (connector.perform_io read_fd_set write_fd_set client result).1 := by
  unfold Connector.perform_io
  simp only
  split
  · exact same_sockets_close_connection connector client
  · split
    · split
      · exact same_sockets_receive_message.trans same_sockets_receive_completed
      · exact same_sockets_receive_message
    · split
      · split
        · exact same_sockets_send_message.trans same_sockets_send_completed
        · exact same_sockets_send_message
      · exact .of_eq rfl rfl rfl

end

/-- A step on a client closes its descriptor and frees it, or does neither. -/
def ClosesOwn {Buf : Type} (client : ClientPtr) (before after : Connector Buf) : Prop :=
  after.open_fds = before.open_fds ∧ after.client_pool = before.client_pool ∨
    after.open_fds = (sys.close_fd before.open_fds (before.clients client).socket_fd).1 ∧
      after.client_pool = before.client_pool.deallocate client

section

variable {Buf : Type} {before middle after connector : Connector Buf} {client : ClientPtr} {result : IoResult}
  {read_fd_set write_fd_set : List Int}

theorem ClosesOwn.of_kept (hlast : ClosesOwn client middle after) (hopen : middle.open_fds = before.open_fds)
    (hpool : middle.client_pool = before.client_pool)
    (hfd : (middle.clients client).socket_fd = (before.clients client).socket_fd) : ClosesOwn client before after := by
  unfold ClosesOwn at hlast ⊢
  rwa [hopen, hpool, hfd] at hlast

theorem ClosesOwn.of_set_client {object : NetClient Buf}
    (hlast : ClosesOwn client (connector.set_client client object) after)
    (hfd : object.socket_fd = (connector.clients client).socket_fd) : ClosesOwn client connector after :=
  hlast.of_kept rfl rfl (updated_socket_fd rfl hfd)

variable [CharBuffer Buf]

theorem closes_own_close_connection : ClosesOwn client connector (connector.close_connection client) :=
    Or.inr ⟨rfl, rfl⟩

theorem closes_own_receive_completed : ClosesOwn client connector (connector.receive_completed client).1 := by
  unfold Connector.receive_completed
  simp only
  split
  · exact ClosesOwn.of_set_client closes_own_close_connection rfl
  · split
    · exact Or.inl ⟨rfl, rfl⟩
    · exact Or.inl ⟨rfl, rfl⟩

theorem closes_own_send_completed : ClosesOwn client connector (connector.send_completed client) := by
  unfold Connector.send_completed
  simp only
  split
  · exact ClosesOwn.of_set_client closes_own_close_connection rfl
  · split
    · exact Or.inl ⟨rfl, rfl⟩
    · exact Or.inl ⟨rfl, rfl⟩

theorem closes_own_perform_io :
    ClosesOwn client connector (connector.perform_io read_fd_set write_fd_set client result).1 := by
  obtain ⟨_, hreceived⟩ := affects_receive_message connector client result
  obtain ⟨_, hsent⟩ := affects_send_message connector client result
  obtain ⟨_, hprepared, _⟩ := prepare_send_kept (connector.clients client)
  unfold Connector.perform_io
  simp only
  split
  · exact closes_own_close_connection
  · split
    · cases result with
      | received data =>
        split
        · next hcomplete => exact closes_own_receive_completed.of_kept rfl rfl (hreceived hcomplete)
        · exact Or.inl ⟨rfl, rfl⟩
      | _ => exact closes_own_close_connection
    · split
      · cases result with
        | sent count =>
          split
          · next hcomplete => exact closes_own_send_completed.of_kept rfl rfl (hsent hcomplete)
          · exact Or.inl ⟨rfl, rfl⟩
        | _ => exact ClosesOwn.of_set_client closes_own_close_connection hprepared
      · exact Or.inl ⟨rfl, rfl⟩

end

end ufh
