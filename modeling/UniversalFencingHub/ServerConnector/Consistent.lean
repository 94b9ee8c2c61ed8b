import UniversalFencingHub.ServerConnector.Sessions

open ufh.CharBuffer framing

namespace ufh

/-- The connector agrees with an assignment of places. -/
structure Consistent {Buf : Type} [CharBuffer Buf] (connector : Connector Buf) (place : ClientPtr → Place)
    (stamp : ClientPtr → Nat) : Prop where
  pooled : Pooled connector.client_pool place
  linked : Linked connector.com_queue connector.action_queue connector.nodes place stamp
  sessions : Sessions connector place
  sockets : Sockets connector place

theorem NetClient.Capacities.clear {Buf : Type} [CharBuffer Buf] [LawfulCharBuffer Buf] {client : NetClient Buf}
    (h : client.Capacities) : client.clear.Capacities :=
  ⟨(LawfulCharBuffer.capacity_wipe _).trans h.key_buffer, (LawfulCharBuffer.capacity_wipe _).trans h.value_buffer,
    (LawfulCharBuffer.capacity_wipe _).trans h.nodename, (LawfulCharBuffer.capacity_wipe _).trans h.secret⟩

theorem NetClient.Capacities.clear_clean {Buf : Type} [CharBuffer Buf] [LawfulCharBuffer Buf] {client : NetClient Buf}
    (h : client.Capacities) : client.clear.Clean :=
  ⟨h.clear, length_zero_memory _, LawfulCharBuffer.contents_wipe _, LawfulCharBuffer.contents_wipe _⟩

/-- The record of a connection says nothing about how often it is closed. -/
theorem Recorded.closes {record : History} (h : Recorded record) (closes : Nat) : Recorded { record with closes } :=
  ⟨h.messages, h.headers, h.echoes, h.finished, h.dispatched, h.dialogue⟩

/-- A step that changes one client, but not its descriptor, and the record of its
connection. -/
theorem Consistent.change {Buf : Type} [CharBuffer Buf] {before after : Connector Buf} {place : ClientPtr → Place}
    {stamp : ClientPtr → Nat} (h : Consistent before place stamp) {client : ClientPtr} {object : NetClient Buf}
    {record : History} {target : Place} (hclients : after.clients = Function.update before.clients client object)
    (hhistory : after.history = Function.update before.history (before.connection client) record)
    (hconnection : after.connection = before.connection ∧ after.connections = before.connections)
    (hopen : after.open_fds = before.open_fds) (hpool : after.client_pool = before.client_pool)
    (hlinked : Linked after.com_queue after.action_queue after.nodes (Function.update place client target) stamp)
    (hused : place client ≠ .free) (htarget : target ≠ .free)
    (hfd : object.socket_fd = (before.clients client).socket_fd)
    (hrecord : record.socket = (before.record client).socket ∧ record.closes = (before.record client).closes)
    (hcapacities : object.Capacities) (hrecorded : Recorded record) (hsession : Session target object record) :
    Consistent after (Function.update place client target) stamp := by
  refine ⟨hpool ▸ h.pooled.congr (Place.update_iff hused htarget), hlinked, ?_, ?_⟩
  · exact h.sessions.update hclients hhistory hconnection hused hcapacities hrecorded hsession
  · refine h.sockets.keep (fun other => ?_) hopen (fun connection => ?_) hconnection (Place.update_iff hused htarget)
    · rw [hclients]
      by_cases hsame : other = client
      · rw [hsame, Function.update_self, hfd]
      · rw [Function.update_of_ne hsame]
    · rw [hhistory]
      by_cases hsame : connection = before.connection client
      · rw [hsame, Function.update_self]
        exact hrecord
      · rw [Function.update_of_ne hsame]
        exact ⟨rfl, rfl⟩

/-- Opening or closing descriptors that are not those of clients. -/
theorem Consistent.descriptors {Buf : Type} [CharBuffer Buf] {connector : Connector Buf} {place : ClientPtr → Place}
    {stamp : ClientPtr → Nat} (h : Consistent connector place stamp) {open_fds : List Int}
    (hopen : ∀ client, 0 ≤ (connector.clients client).socket_fd →
      (connector.clients client).socket_fd ∈ connector.open_fds → (connector.clients client).socket_fd ∈ open_fds) :
    Consistent { connector with open_fds } place stamp := by
  refine ⟨h.pooled, h.linked, ⟨h.sessions.capacities, h.sessions.recorded, h.sessions.session, h.sessions.connection_lt,
    h.sessions.connection_ne⟩, ?_, h.sockets.distinct, h.sockets.free, h.sockets.used, h.sockets.unused⟩
  intro client
  cases h.sockets.valid client with
  | inl hnone => exact Or.inl hnone
  | inr hvalid => exact Or.inr ⟨hvalid.1, hopen client hvalid.1 hvalid.2⟩

/-- Closing a client that has just been changed. -/
theorem Consistent.close_changed {Buf : Type} [CharBuffer Buf] [LawfulCharBuffer Buf] {before after : Connector Buf}
    {place : ClientPtr → Place} {stamp : ClientPtr → Nat} (h : Consistent before place stamp) {client : ClientPtr}
    {object : NetClient Buf} {record : History}
    (hclients : after.clients = Function.update before.clients client object)
    (hhistory : after.history = Function.update before.history (before.connection client) record)
    (hconnection : after.connection = before.connection ∧ after.connections = before.connections)
    (hopen : after.open_fds = before.open_fds) (hpool : after.client_pool = before.client_pool)
    (hqueues : after.com_queue = before.com_queue ∧ after.action_queue = before.action_queue ∧
        after.nodes = before.nodes)
    (hfd : object.socket_fd = (before.clients client).socket_fd)
    (hrecord : record.socket = (before.record client).socket ∧ record.closes = (before.record client).closes)
    (hcapacities : object.Capacities) (hrecorded : Recorded record)
    (hclient : place client = .queued ∨ (place client).OffLists) :
    Consistent (after.close_connection client) (Function.update place client .free) stamp := by
  obtain ⟨hcom, haction, hnodes⟩ := hqueues
  obtain ⟨hconnection, hconnections⟩ := hconnection
  have hused : place client ≠ .free := by
    cases hclient with
    | inl hqueued => simp [hqueued]
    | inr hoff => exact (Place.not_listed hoff).1
  have hobject : after.clients client = object := by rw [hclients, Function.update_self]
  have hafterRecord : after.record client = record := by
    rw [Connector.record, hhistory, hconnection, Function.update_self]
  refine ⟨?_, ?_, ?_, ?_⟩
  · change Pooled (after.client_pool.deallocate client) _
    rw [hpool]
    exact h.pooled.deallocate hused
  · change Linked (after.com_queue.remove after.nodes client).1 after.action_queue
      (after.com_queue.remove after.nodes client).2 _ _
    rw [hcom, haction, hnodes]
    exact h.linked.com_remove_closed hclient
  · have hcleared : (after.close_connection client).clients = Function.update before.clients client
        { object with socket_fd := (sys.close_fd after.open_fds object.socket_fd).2 }.clear := by
      simp only [Connector.close_connection, Connector.set_client, Connector.set_record, hclients, Function.update_self,
        Function.update_idem]
    have hclosed : (after.close_connection client).history = Function.update before.history (before.connection client)
        { record with closes := if 0 ≤ object.socket_fd then record.closes + 1 else record.closes } := by
      simp only [Connector.close_connection, Connector.set_client, Connector.set_record, hhistory, hconnection,
        hafterRecord, hobject, Function.update_idem]
    exact h.sessions.update hcleared hclosed ⟨hconnection, hconnections⟩ hused
      (hcapacities.of_same ⟨rfl, rfl, rfl, rfl⟩).clear (hrecorded.closes _) trivial
  · have hsockets : Sockets after place := by
      refine h.sockets.keep (fun other => ?_) hopen (fun connection => ?_) ⟨hconnection, hconnections⟩
        (fun _ => Iff.rfl)
      · rw [hclients]
        by_cases hsame : other = client
        · rw [hsame, Function.update_self, hfd]
        · rw [Function.update_of_ne hsame]
      · rw [hhistory]
        by_cases hsame : connection = before.connection client
        · rw [hsame, Function.update_self]
          exact hrecord
        · rw [Function.update_of_ne hsame]
          exact ⟨rfl, rfl⟩
    refine hsockets.close (fun other hother hne => ?_) hused
    rw [hconnection]
    exact h.sessions.connection_ne other client hother hused hne

/-- Closing a client frees its object. -/
theorem Consistent.close_connection {Buf : Type} [CharBuffer Buf] [LawfulCharBuffer Buf] {connector : Connector Buf}
    {place : ClientPtr → Place} {stamp : ClientPtr → Nat} (h : Consistent connector place stamp) {client : ClientPtr}
    (hclient : place client = .queued ∨ (place client).OffLists) :
    Consistent (connector.close_connection client) (Function.update place client .free) stamp :=
  h.close_changed (Function.update_eq_self _ _).symm (Function.update_eq_self _ _).symm ⟨rfl, rfl⟩ rfl rfl
    ⟨rfl, rfl, rfl⟩ rfl ⟨rfl, rfl⟩ (h.sessions.capacities client) (h.sessions.recorded _) hclient

/-- Accepting a connection hands a cleared object to the selector. -/
theorem Consistent.accept {Buf : Type} [CharBuffer Buf] [LawfulCharBuffer Buf] {before after : Connector Buf}
    {place : ClientPtr → Place} {stamp : ClientPtr → Nat} (h : Consistent before place stamp) {client : ClientPtr}
    {fd : Int} (hfd : fd = sys.FD_NONE ∨ 0 ≤ fd ∧ fd ∉ before.open_fds)
    (haccept : before.accept fd = some (client, after)) :
    place client = .free ∧ Consistent after (Function.update place client (.held .selector .accepted)) stamp ∧
      (after.clients client).io_state = .READ ∧ (after.clients client).socket_fd = fd ∧
      (∀ other, other ≠ client → after.clients other = before.clients other) ∧
      (∀ fd ∈ before.open_fds, fd ∈ after.open_fds) ∧
      after.com_queue = before.com_queue ∧ after.nodes = before.nodes := by
  unfold Connector.accept at haccept
  cases hallocate : before.client_pool.allocate with
  | none => simp only [hallocate] at haccept; cases haccept
  | some allocated =>
    obtain ⟨allocatedClient, rest⟩ := allocated
    simp only [hallocate, Option.some.injEq, Prod.mk.injEq] at haccept
    obtain ⟨rfl, rfl⟩ := haccept
    have htarget : Place.held .selector .accepted ≠ .free := by simp
    obtain ⟨hfree, hpooled⟩ := h.pooled.allocate hallocate htarget
    have hclean := (h.sessions.capacities allocatedClient).clear_clean
    have hreceiving : NetClient.Receiving { (before.clients allocatedClient).clear with
        socket_fd := fd, io_state := .READ, current_phase := .RECV, next_phase := .PENDING } [] :=
      .of_clean (hclean.of_same ⟨rfl, rfl, rfl, rfl⟩ hclean.buffer_length) rfl rfl rfl rfl rfl
    have hawaits := AwaitsMessage.accepted fd hreceiving
    refine ⟨hfree, ⟨hpooled, ?_, ?_, ?_⟩, ?_, ?_, ?_, ?_, rfl, rfl⟩
    · apply h.linked.congr
      · exact Place.update_iff (by simp [hfree]) (by simp)
      · exact Place.update_iff (by simp [hfree]) (by simp)
    · exact h.sessions.accept rfl rfl rfl rfl hreceiving.clean.capacities hawaits.recorded ⟨[], hawaits⟩
    · exact h.sockets.accept h.sessions rfl rfl rfl rfl rfl rfl hfree htarget hfd
    · simp
    · simp
    · intro other hother
      exact Function.update_of_ne hother _ _
    · intro other hother
      simp only
      split
      · exact List.mem_cons_of_mem _ hother
      · exact hother

/-- A client that waits for the lock joins `com_queue`. -/
theorem Consistent.com_add_last {Buf : Type} [CharBuffer Buf] {connector : Connector Buf} {place : ClientPtr → Place}
    {stamp : ClientPtr → Nat} (h : Consistent connector place stamp) {client : ClientPtr}
    (hclient : (place client).OffLists)
    (hsession : Session .queued (connector.clients client) (connector.record client)) :
    ∃ stamp', Consistent (connector.com_add_last client) (Function.update place client .queued) stamp' := by
  obtain ⟨hfree, _, _⟩ := Place.not_listed hclient
  obtain ⟨stamp', hlinked⟩ := h.linked.com_add_last hclient
  refine ⟨stamp', h.pooled.congr (Place.update_iff hfree (by simp)), hlinked, ?_, ?_⟩
  · exact h.sessions.move rfl rfl ⟨rfl, rfl⟩ hfree hsession
  · exact h.sockets.keep (fun _ => rfl) rfl (fun _ => ⟨rfl, rfl⟩) ⟨rfl, rfl⟩ (Place.update_iff hfree (by simp))

/-- A completed client joins `action_queue`. -/
theorem Consistent.action_add_last {Buf : Type} [CharBuffer Buf] {connector : Connector Buf}
    {place : ClientPtr → Place} {stamp : ClientPtr → Nat} (h : Consistent connector place stamp) {client : ClientPtr}
    {thread : Thread} (hclient : place client = .held thread .completed) :
    Consistent (connector.action_add_last client) (Function.update place client .pending) stamp := by
  have hoff : (place client).OffLists := by rw [hclient]; trivial
  have hfree := (Place.not_listed hoff).1
  have hsession := h.sessions.session client
  rw [hclient] at hsession
  refine ⟨h.pooled.congr (Place.update_iff hfree (by simp)), h.linked.action_add_last hoff, ?_, ?_⟩
  · exact h.sessions.move rfl rfl ⟨rfl, rfl⟩ hfree hsession
  · exact h.sockets.keep (fun _ => rfl) rfl (fun _ => ⟨rfl, rfl⟩) ⟨rfl, rfl⟩ (Place.update_iff hfree (by simp))

/-- The first pending client, as `remove_first` hands it out. -/
theorem Consistent.action_remove_first {Buf : Type} [CharBuffer Buf] {connector : Connector Buf}
    {place : ClientPtr → Place} {stamp : ClientPtr → Nat} (h : Consistent connector place stamp) (thread : Thread) :
    (connector.action_queue.head_node = none ∧ connector.action_remove_first = (none, connector)) ∨
      ∃ client, connector.action_queue.head_node = some client ∧ place client = .pending ∧
        connector.action_remove_first.1 = some client ∧
        Consistent connector.action_remove_first.2 (Function.update place client (.held thread .completed)) stamp := by
  cases hhead : connector.action_queue.head_node with
  | none =>
    left
    refine ⟨rfl, ?_⟩
    simp only [Connector.action_remove_first, Queue.remove_first_empty hhead]
  | some client =>
    right
    obtain ⟨hpending, hfirst, hlinked⟩ := h.linked.action_remove_first thread .completed hhead
    have hfree : place client ≠ .free := by simp [hpending]
    have hsession := h.sessions.session client
    rw [hpending] at hsession
    refine ⟨client, rfl, hpending, hfirst, h.pooled.congr (Place.update_iff hfree (by simp)), hlinked, ?_, ?_⟩
    · exact h.sessions.move rfl rfl ⟨rfl, rfl⟩ hfree hsession
    · exact h.sockets.keep (fun _ => rfl) rfl (fun _ => ⟨rfl, rfl⟩) ⟨rfl, rfl⟩ (Place.update_iff hfree (by simp))

/-- The first queued client, as `remove_first` hands it out. -/
theorem Consistent.com_remove_first {Buf : Type} [CharBuffer Buf] {connector : Connector Buf}
    {place : ClientPtr → Place} {stamp : ClientPtr → Nat} (h : Consistent connector place stamp) (thread : Thread) :
    (connector.com_queue.head_node = none ∧ connector.com_remove_first = (none, connector)) ∨
      ∃ client, connector.com_queue.head_node = some client ∧ place client = .queued ∧
        connector.com_remove_first.1 = some client ∧
        Consistent connector.com_remove_first.2 (Function.update place client (.held thread .ended)) stamp := by
  cases hhead : connector.com_queue.head_node with
  | none =>
    left
    refine ⟨rfl, ?_⟩
    simp only [Connector.com_remove_first, Queue.remove_first_empty hhead]
  | some client =>
    right
    obtain ⟨hqueued, hfirst, hlinked⟩ := h.linked.com_remove_first thread .ended hhead
    have hfree : place client ≠ .free := by simp [hqueued]
    refine ⟨client, rfl, hqueued, hfirst, h.pooled.congr (Place.update_iff hfree (by simp)), hlinked, ?_, ?_⟩
    · exact h.sessions.move rfl rfl ⟨rfl, rfl⟩ hfree trivial
    · exact h.sockets.keep (fun _ => rfl) rfl (fun _ => ⟨rfl, rfl⟩) ⟨rfl, rfl⟩ (Place.update_iff hfree (by simp))

/-- All objects of a new connector are free. -/
theorem consistent_new (Buf : Type) [CharBuffer Buf] [LawfulCharBuffer Buf] (memory : ClientMemory) :
    Consistent (Connector.new Buf memory) (fun _ => .free) (fun _ => 0) := by
  refine ⟨?_, ?_, ?_, ?_⟩
  · refine ⟨GenAlloc.new_valid (List.nodup_finRange _), List.length_finRange, fun client => ?_⟩
    change client ∈ (GenAlloc.new (List.finRange MAX_CONNECTIONS)).free_objects ↔ _
    rw [GenAlloc.new_free_objects]
    simp
  · refine ⟨⟨[], ⟨rfl, rfl, trivial, List.nodup_nil⟩, fun client => ?_⟩, nofun, nofun, nofun, nofun,
      fun _ _ _ => ⟨rfl, rfl⟩⟩
    simp
  · refine ⟨fun _ => ?_, fun _ => ?_, fun _ => trivial, fun _ hused => absurd rfl hused,
      fun _ _ hused => absurd rfl hused⟩
    · constructor
      · exact LawfulCharBuffer.capacity_with_capacity _
      · exact LawfulCharBuffer.capacity_with_capacity _
      · exact LawfulCharBuffer.capacity_with_capacity _
      · exact LawfulCharBuffer.capacity_with_capacity _
    · exact ⟨rfl, rfl, nofun, nofun, List.nil_prefix, true, List.nil_prefix⟩
  · exact ⟨fun _ => Or.inl rfl, nofun, fun _ _ => rfl, fun _ hused => absurd rfl hused, nofun⟩

end ufh
