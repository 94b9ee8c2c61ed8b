import UniversalFencingHub.ServerConnector.Dialogue
import UniversalFencingHub.ServerConnector.Placement

open ufh.CharBuffer framing

namespace ufh

/-- The part of its dialogue that a connection is in, by the place of the client. -/
def Session {Buf : Type} [CharBuffer Buf] (place : Place) (client : NetClient Buf) (record : History) : Prop :=
  match place with
  | .queued =>
    (∃ begun, AwaitsMessage client record begun) ∨
      ∃ reply count success_flag, OwesReply client record reply count success_flag
  | .held _ .accepted => ∃ begun, AwaitsMessage client record begun
  | .pending => ∃ earlier message, HoldsMessage client record earlier message
  | .held _ .completed => ∃ earlier message, HoldsMessage client record earlier message
  | .held _ .answered => ∃ reply count success_flag, OwesReply client record reply count success_flag
  | .held _ .ended => True
  | .free => True
  | .lost => True

/-- Every client is where its dialogue has taken it, and different clients
serve different connections. -/
structure Sessions {Buf : Type} [CharBuffer Buf] (connector : Connector Buf) (place : ClientPtr → Place) : Prop where
  capacities : ∀ client, (connector.clients client).Capacities
  recorded : ∀ connection, Recorded (connector.history connection)
  session : ∀ client, Session (place client) (connector.clients client) (connector.record client)
  connection_lt : ∀ client, place client ≠ .free → connector.connection client < connector.connections
  connection_ne : ∀ client other, place client ≠ .free → place other ≠ .free → client ≠ other →
    connector.connection client ≠ connector.connection other

/-- Every client that is in use owns its descriptor, and the socket of every
connection that no client serves any more has been closed once. -/
structure Sockets {Buf : Type} (connector : Connector Buf) (place : ClientPtr → Place) : Prop where
  valid : ∀ client, (connector.clients client).socket_fd = sys.FD_NONE ∨
    0 ≤ (connector.clients client).socket_fd ∧ (connector.clients client).socket_fd ∈ connector.open_fds
  distinct : ∀ client other, 0 ≤ (connector.clients client).socket_fd →
    (connector.clients client).socket_fd = (connector.clients other).socket_fd → client = other
  free : ∀ client, place client = .free → (connector.clients client).socket_fd = sys.FD_NONE
  used : ∀ client, place client ≠ .free →
    (connector.record client).socket = (connector.clients client).socket_fd ∧ (connector.record client).closes = 0
  unused : ∀ connection < connector.connections,
    (∀ client, place client ≠ .free → connector.connection client ≠ connection) →
    (connector.history connection).closes = if 0 ≤ (connector.history connection).socket then 1 else 0

/-- A step that changes one client and the record of its connection. -/
theorem Sessions.update {Buf : Type} [CharBuffer Buf] {before after : Connector Buf} {place : ClientPtr → Place}
    {client : ClientPtr} {object : NetClient Buf} {record : History} {target : Place} (h : Sessions before place)
    (hclients : after.clients = Function.update before.clients client object)
    (hhistory : after.history = Function.update before.history (before.connection client) record)
    (hconnection : after.connection = before.connection ∧ after.connections = before.connections)
    (hused : place client ≠ .free) (hcapacities : object.Capacities) (hrecorded : Recorded record)
    (hsession : Session target object record) : Sessions after (Function.update place client target) := by
  obtain ⟨hconnection, hconnections⟩ := hconnection
  have hstill : ∀ other, Function.update place client target other ≠ .free → place other ≠ .free := by
    intro other hother
    by_cases hsame : other = client
    · exact hsame ▸ hused
    · rwa [Function.update_of_ne hsame] at hother
  refine ⟨?_, ?_, ?_, ?_, ?_⟩
  · intro other
    rw [hclients]
    by_cases hsame : other = client
    · rw [hsame, Function.update_self]
      exact hcapacities
    · rw [Function.update_of_ne hsame]
      exact h.capacities other
  · intro connection
    rw [hhistory]
    by_cases hsame : connection = before.connection client
    · rw [hsame, Function.update_self]
      exact hrecorded
    · rw [Function.update_of_ne hsame]
      exact h.recorded connection
  · intro other
    unfold Connector.record
    rw [hclients, hhistory, hconnection]
    by_cases hsame : other = client
    · rw [hsame, Function.update_self, Function.update_self, Function.update_self]
      exact hsession
    · rw [Function.update_of_ne hsame, Function.update_of_ne hsame]
      by_cases hfree : place other = .free
      · rw [hfree]
        trivial
      · rw [Function.update_of_ne (h.connection_ne other client hfree hused hsame)]
        exact h.session other
  · intro other hother
    rw [hconnection, hconnections]
    exact h.connection_lt other (hstill other hother)
  · intro first second hfirst hsecond hne
    rw [hconnection]
    exact h.connection_ne first second (hstill first hfirst) (hstill second hsecond) hne

/-- A step that changes one client only. -/
theorem Sessions.update_client {Buf : Type} [CharBuffer Buf] {before after : Connector Buf} {place : ClientPtr → Place}
    {client : ClientPtr} {object : NetClient Buf} {target : Place} (h : Sessions before place)
    (hclients : after.clients = Function.update before.clients client object)
    (hhistory : after.history = before.history)
    (hconnection : after.connection = before.connection ∧ after.connections = before.connections)
    (hused : place client ≠ .free) (hcapacities : object.Capacities)
    (hsession : Session target object (before.record client)) : Sessions after (Function.update place client target) :=
  h.update hclients (hhistory.trans (Function.update_eq_self _ _).symm) hconnection hused hcapacities (h.recorded _)
    hsession

/-- A step that moves one client without changing it. -/
theorem Sessions.move {Buf : Type} [CharBuffer Buf] {before after : Connector Buf} {place : ClientPtr → Place}
    {client : ClientPtr} {target : Place} (h : Sessions before place) (hclients : after.clients = before.clients)
    (hhistory : after.history = before.history)
    (hconnection : after.connection = before.connection ∧ after.connections = before.connections)
    (hused : place client ≠ .free) (hsession : Session target (before.clients client) (before.record client)) :
    Sessions after (Function.update place client target) :=
  h.update_client (hclients.trans (Function.update_eq_self _ _).symm) hhistory hconnection hused (h.capacities client)
    hsession

/-- A step that leaves the descriptors, and which clients are in use, as they are. -/
theorem Sockets.keep {Buf : Type} {before after : Connector Buf} {place place' : ClientPtr → Place}
    (h : Sockets before place)
    (hfds : ∀ client, (after.clients client).socket_fd = (before.clients client).socket_fd)
    (hopen : after.open_fds = before.open_fds)
    (hhistory : ∀ connection, (after.history connection).socket = (before.history connection).socket ∧
      (after.history connection).closes = (before.history connection).closes)
    (hconnection : after.connection = before.connection ∧ after.connections = before.connections)
    (hplace : ∀ client, place' client = .free ↔ place client = .free) : Sockets after place' := by
  obtain ⟨hconnection, hconnections⟩ := hconnection
  refine ⟨?_, ?_, ?_, ?_, ?_⟩
  · intro client
    rw [hfds, hopen]
    exact h.valid client
  · intro client other
    rw [hfds, hfds]
    exact h.distinct client other
  · intro client hclient
    rw [hfds]
    exact h.free client ((hplace client).mp hclient)
  · intro client hclient
    obtain ⟨hsocket, hcloses⟩ := hhistory (before.connection client)
    unfold Connector.record
    rw [hfds, hconnection, hsocket, hcloses]
    exact h.used client (fun hfree => hclient ((hplace client).mpr hfree))
  · intro connection hlt hunused
    obtain ⟨hsocket, hcloses⟩ := hhistory connection
    rw [hsocket, hcloses]
    refine h.unused connection (hconnections ▸ hlt) (fun client hclient => ?_)
    have hunusedClient := hunused client (fun hfree => hclient ((hplace client).mp hfree))
    rwa [hconnection] at hunusedClient

theorem sys.mem_close_fd {open_fds : List Int} {fd other : Int} (hother : other ∈ open_fds) (hne : other ≠ fd) :
    other ∈ (sys.close_fd open_fds fd).1 := by
  unfold sys.close_fd
  by_cases hvalid : 0 ≤ fd
  · rw [if_pos hvalid]
    exact List.mem_filter.mpr ⟨hother, by simpa using hne⟩
  · rw [if_neg hvalid]
    exact hother

theorem sys.close_fd_subset (open_fds : List Int) (fd : Int) : (sys.close_fd open_fds fd).1 ⊆ open_fds := by
  unfold sys.close_fd
  split
  · exact List.filter_subset_self _
  · exact List.Subset.refl _

theorem Sockets.close {Buf : Type} [CharBuffer Buf] {connector : Connector Buf} {place : ClientPtr → Place}
    {client : ClientPtr} (h : Sockets connector place)
    (hconnection : ∀ other, place other ≠ .free → other ≠ client →
      connector.connection other ≠ connector.connection client)
    (hused : place client ≠ .free) :
    Sockets (connector.close_connection client) (Function.update place client .free) := by
  obtain ⟨hsocket, hcloses⟩ := h.used client hused
  have hkept : ∀ other, other ≠ client →
      ((connector.close_connection client).clients other) = connector.clients other :=
    fun other hother => Function.update_of_ne hother _ _
  have hclosed : ((connector.close_connection client).clients client).socket_fd = sys.FD_NONE := by
    simp only [Connector.close_connection, Connector.set_client, Function.update_self]
    rfl
  have hopen : (connector.close_connection client).open_fds =
      (sys.close_fd connector.open_fds (connector.clients client).socket_fd).1 := rfl
  have hhistory : (connector.close_connection client).history =
      Function.update connector.history (connector.connection client)
        { connector.record client with
          closes := if 0 ≤ (connector.clients client).socket_fd then (connector.record client).closes + 1
            else (connector.record client).closes } := rfl
  refine ⟨?_, ?_, ?_, ?_, ?_⟩
  · intro other
    by_cases hsame : other = client
    · exact Or.inl (hsame ▸ hclosed)
    · rw [hkept other hsame, hopen]
      cases h.valid other with
      | inl hnone => exact Or.inl hnone
      | inr hvalid =>
        refine Or.inr ⟨hvalid.1, sys.mem_close_fd hvalid.2 ?_⟩
        exact fun heq => hsame (h.distinct other client hvalid.1 heq)
  · intro first second hvalid heq
    by_cases hfirst : first = client
    · rw [hfirst, hclosed] at hvalid
      cases hvalid
    · by_cases hsecond : second = client
      · rw [heq, hsecond, hclosed] at hvalid
        cases hvalid
      · rw [hkept first hfirst] at hvalid heq
        rw [hkept second hsecond] at heq
        exact h.distinct first second hvalid heq
  · intro other hother
    by_cases hsame : other = client
    · exact hsame ▸ hclosed
    · rw [Function.update_of_ne hsame] at hother
      rw [hkept other hsame]
      exact h.free other hother
  · intro other hother
    by_cases hsame : other = client
    · rw [hsame, Function.update_self] at hother
      exact absurd rfl hother
    · rw [Function.update_of_ne hsame] at hother
      have hdifferent := hconnection other hother hsame
      have hrecord : (connector.close_connection client).record other = connector.record other := by
        change (connector.close_connection client).history (connector.connection other) = _
        rw [hhistory, Function.update_of_ne hdifferent]
        rfl
      rw [hrecord, hkept other hsame]
      exact h.used other hother
  · intro connection hlt hunused
    rw [hhistory]
    by_cases hsame : connection = connector.connection client
    · rw [hsame, Function.update_self]
      simp only [hcloses, hsocket, Nat.zero_add]
    · rw [Function.update_of_ne hsame]
      refine h.unused connection hlt (fun other hother => ?_)
      by_cases hclient : other = client
      · exact fun heq => hsame (hclient ▸ heq.symm)
      · exact hunused other (by rwa [Function.update_of_ne hclient])

theorem Sockets.accept {Buf : Type} [CharBuffer Buf] {before after : Connector Buf} {place : ClientPtr → Place}
    {client : ClientPtr} {object : NetClient Buf} {fd : Int} {target : Place} (h : Sockets before place)
    (hsessions : Sessions before place) (hclients : after.clients = Function.update before.clients client object)
    (hobject : object.socket_fd = fd)
    (hopen : after.open_fds = if 0 ≤ fd then fd :: before.open_fds else before.open_fds)
    (hconnection : after.connection = Function.update before.connection client before.connections)
    (hconnections : after.connections = before.connections + 1)
    (hhistory : after.history = Function.update before.history before.connections { socket := fd })
    (hfree : place client = .free) (htarget : target ≠ .free)
    (hfd : fd = sys.FD_NONE ∨ 0 ≤ fd ∧ fd ∉ before.open_fds) : Sockets after (Function.update place client target) := by
  have hself : (after.clients client).socket_fd = fd := by rw [hclients, Function.update_self, hobject]
  have hkept : ∀ other, other ≠ client → after.clients other = before.clients other := by
    intro other hother
    rw [hclients, Function.update_of_ne hother]
  have hfresh : ∀ other, 0 ≤ fd → (before.clients other).socket_fd ≠ fd := by
    intro other hvalid heq
    cases hfd with
    | inl hnone => rw [hnone] at hvalid; cases hvalid
    | inr hnew =>
      cases h.valid other with
      | inl hnone => rw [hnone] at heq; rw [← heq] at hvalid; cases hvalid
      | inr hvalidOther => exact hnew.2 (heq ▸ hvalidOther.2)
  refine ⟨?_, ?_, ?_, ?_, ?_⟩
  · intro other
    rw [hopen]
    by_cases hsame : other = client
    · rw [hsame, hself]
      cases hfd with
      | inl hnone => exact Or.inl hnone
      | inr hnew =>
        rw [if_pos hnew.1]
        exact Or.inr ⟨hnew.1, List.mem_cons_self⟩
    · rw [hkept other hsame]
      cases h.valid other with
      | inl hnone => exact Or.inl hnone
      | inr hvalid =>
        refine Or.inr ⟨hvalid.1, ?_⟩
        split
        · exact List.mem_cons_of_mem _ hvalid.2
        · exact hvalid.2
  · intro first second hvalid heq
    by_cases hfirst : first = client
    · by_cases hsecond : second = client
      · rw [hfirst, hsecond]
      · rw [hfirst, hself] at hvalid heq
        rw [hkept second hsecond] at heq
        exact absurd heq.symm (hfresh second hvalid)
    · rw [hkept first hfirst] at hvalid heq
      by_cases hsecond : second = client
      · rw [hsecond, hself] at heq
        rw [heq] at hvalid
        exact absurd heq (hfresh first hvalid)
      · rw [hkept second hsecond] at heq
        exact h.distinct first second hvalid heq
  · intro other hother
    by_cases hsame : other = client
    · rw [hsame, Function.update_self] at hother
      exact absurd hother htarget
    · rw [Function.update_of_ne hsame] at hother
      rw [hkept other hsame]
      exact h.free other hother
  · intro other hother
    unfold Connector.record
    by_cases hsame : other = client
    · rw [hsame, hconnection, hhistory, Function.update_self, Function.update_self, hself]
      exact ⟨rfl, rfl⟩
    · rw [Function.update_of_ne hsame] at hother
      have hold := hsessions.connection_lt other hother
      rw [hconnection, hhistory, Function.update_of_ne hsame, Function.update_of_ne (by omega), hkept other hsame]
      exact h.used other hother
  · intro connection hlt hunused
    have hother : connection ≠ before.connections := by
      intro heq
      refine hunused client ?_ ?_
      · rwa [Function.update_self]
      · rw [hconnection, Function.update_self, heq]
    rw [hhistory, Function.update_of_ne hother]
    refine h.unused connection (by omega) (fun other hotherUsed => ?_)
    have hsame : other ≠ client := fun heq => hotherUsed (heq ▸ hfree)
    have hunusedOther := hunused other (by rwa [Function.update_of_ne hsame])
    rwa [hconnection, Function.update_of_ne hsame] at hunusedOther

theorem Sessions.accept {Buf : Type} [CharBuffer Buf] {before after : Connector Buf} {place : ClientPtr → Place}
    {client : ClientPtr} {object : NetClient Buf} {socket : Int} {target : Place} (h : Sessions before place)
    (hclients : after.clients = Function.update before.clients client object)
    (hconnection : after.connection = Function.update before.connection client before.connections)
    (hconnections : after.connections = before.connections + 1)
    (hhistory : after.history = Function.update before.history before.connections { socket })
    (hcapacities : object.Capacities) (hrecorded : Recorded { socket })
    (hsession : Session target object { socket }) : Sessions after (Function.update place client target) := by
  refine ⟨?_, ?_, ?_, ?_, ?_⟩
  · intro other
    rw [hclients]
    by_cases hsame : other = client
    · rw [hsame, Function.update_self]
      exact hcapacities
    · rw [Function.update_of_ne hsame]
      exact h.capacities other
  · intro connection
    rw [hhistory]
    by_cases hsame : connection = before.connections
    · rw [hsame, Function.update_self]
      exact hrecorded
    · rw [Function.update_of_ne hsame]
      exact h.recorded connection
  · intro other
    unfold Connector.record
    rw [hclients, hhistory, hconnection]
    by_cases hsame : other = client
    · rw [hsame, Function.update_self, Function.update_self, Function.update_self, Function.update_self]
      exact hsession
    · rw [Function.update_of_ne hsame, Function.update_of_ne hsame, Function.update_of_ne hsame]
      by_cases hfreeOther : place other = .free
      · rw [hfreeOther]
        trivial
      · have hold := h.connection_lt other hfreeOther
        rw [Function.update_of_ne (by omega)]
        exact h.session other
  · intro other hother
    rw [hconnection, hconnections]
    by_cases hsame : other = client
    · rw [hsame, Function.update_self]
      omega
    · rw [Function.update_of_ne hsame] at hother ⊢
      have hold := h.connection_lt other hother
      omega
  · intro first second hfirst hsecond hne
    rw [hconnection]
    by_cases hsame : first = client
    · have hsecondNe : second ≠ client := fun heq => hne (hsame.trans heq.symm)
      rw [Function.update_of_ne hsecondNe] at hsecond
      have hold := h.connection_lt second hsecond
      rw [hsame, Function.update_self, Function.update_of_ne hsecondNe]
      omega
    · rw [Function.update_of_ne hsame] at hfirst
      rw [Function.update_of_ne hsame]
      by_cases hsameSecond : second = client
      · have hold := h.connection_lt first hfirst
        rw [hsameSecond, Function.update_self]
        omega
      · rw [Function.update_of_ne hsameSecond] at hsecond ⊢
        exact h.connection_ne first second hfirst hsecond hne

end ufh
