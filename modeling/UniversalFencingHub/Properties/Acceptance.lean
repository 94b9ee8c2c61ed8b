import UniversalFencingHub.ServerConnector.Walks
import UniversalFencingHub.Threads.Operations
import UniversalFencingHub.Threads.Wakeup

open linked_list transition

namespace ufh

namespace sys

/-- The number of descriptors that an `fd_set` has room for. -/
def FD_SETSIZE : Int := 1024

def InFdSet (fd : Int) : Prop := 0 ≤ fd ∧ fd < FD_SETSIZE

instance (fd : Int) : Decidable (InFdSet fd) := inferInstanceAs (Decidable (_ ∧ _))

end sys

open sys

/-- The kernel returns no descriptor that `select()` cannot wait for, and `accept()` does not fail. -/
def Action.selectable : Action → Bool
  | .init socket_fd trigger_read _ failed => failed || (socket_fd < FD_SETSIZE && trigger_read < FD_SETSIZE)
  | .accept fd => InFdSet fd
  | _ => true

namespace Connector

variable {Buf : Type} [CharBuffer Buf]

/-- `accept_connection` without the steps of other threads in between. -/
def accept_connection (connector : Connector Buf) (fd : Int) : Connector Buf :=
  match connector.accept fd with
  | some (client, accepted) => accepted.com_add_last client
  | none => connector

/-- The clients met by a walk over `com_queue`. -/
def com_clients (connector : Connector Buf) : List ClientPtr :=
  follow connector.nodes.next MAX_CONNECTIONS connector.com_queue.get_first

/-- The call adds one client for a descriptor that `select()` can wait for, and has
no effect otherwise. -/
structure AllOrNothing (connector : Connector Buf) (fd : Int) : Prop where
  all : InFdSet fd → ∃ client, (connector.accept_connection fd).com_clients = connector.com_clients ++ [client] ∧
    ((connector.accept_connection fd).clients client).socket_fd = fd ∧
    ((connector.accept_connection fd).clients client).current_phase = .RECV ∧
    ((connector.accept_connection fd).clients client).next_phase = .PENDING ∧
    ((connector.accept_connection fd).clients client).io_state = .READ
  nothing : ¬ InFdSet fd →
    (connector.accept_connection fd).client_pool.get_free_count = connector.client_pool.get_free_count ∧
      (connector.accept_connection fd).com_clients = connector.com_clients ∧
      (connector.accept_connection fd).open_fds = connector.open_fds

/-- The last client of `com_queue` is the one that a walk over it ends at. -/
def TailReached (connector : Connector Buf) : Prop :=
  connector.com_queue.tail_node = connector.com_clients.getLast?

instance (connector : Connector Buf) : Decidable connector.TailReached := inferInstanceAs (Decidable (_ = _))

end Connector

section

variable {Buf : Type} [CharBuffer Buf] {connector accepted : Connector Buf} {place : ClientPtr → Place}
  {stamp : ClientPtr → Nat} {client : ClientPtr} {fd : Int}

/-- Accepting a connection uses up a free object, and sets it up for a message. -/
theorem accept_spec (haccept : connector.accept fd = some (client, accepted)) :
    accepted.client_pool.get_free_count + 1 = connector.client_pool.get_free_count ∧
      accepted.com_queue = connector.com_queue ∧ accepted.nodes = connector.nodes ∧
      (accepted.clients client).socket_fd = fd ∧ (accepted.clients client).current_phase = .RECV ∧
      (accepted.clients client).next_phase = .PENDING ∧ (accepted.clients client).io_state = .READ := by
  unfold Connector.accept at haccept
  cases hallocate : connector.client_pool.allocate with
  | none =>
    rw [hallocate] at haccept
    cases haccept
  | some allocated =>
    rw [hallocate] at haccept
    obtain ⟨rfl, rfl⟩ := Prod.mk.inj (Option.some.inj haccept)
    refine ⟨?_, rfl, rfl, ?_⟩
    · change allocated.2.get_free_count + 1 = _
      unfold GenAlloc.allocate at hallocate
      split at hallocate
      · next hpositive =>
        obtain ⟨_, _, rfl⟩ := Option.map_eq_some_iff.mp hallocate
        change connector.client_pool.alloc_index - 1 + 1 = connector.client_pool.alloc_index
        omega
      · cases hallocate
    · simp only [Function.update_self, and_self]

/-- Accepting a connection opens a record for it. -/
theorem accept_history (haccept : connector.accept fd = some (client, accepted)) :
    accepted.connections = connector.connections + 1 ∧
      accepted.history = Function.update connector.history connector.connections { socket := fd } := by
  unfold Connector.accept at haccept
  split at haccept
  · cases haccept
  · obtain ⟨rfl, rfl⟩ := Prod.mk.inj (Option.some.inj haccept)
    exact ⟨rfl, rfl⟩

theorem accept_ne_none (h : connector.client_pool.Valid) (hfree : 1 ≤ connector.client_pool.get_free_count) :
    connector.accept fd ≠ none := by
  intro hnone
  unfold Connector.accept at hnone
  cases hallocate : connector.client_pool.allocate with
  | none =>
    have hzero := h.allocate_eq_none_iff.mp hallocate
    omega
  | some _ =>
    rw [hallocate] at hnone
    cases hnone

namespace Linked

omit [CharBuffer Buf] in
/-- The links of the clients on a walk over `com_queue`, when another one is appended. -/
theorem com_add_last_next (h : Linked connector.com_queue connector.action_queue connector.nodes place stamp)
    (hclient : place client ≠ .queued) (other : ClientPtr) (hother : other ∈ connector.com_clients) :
    (connector.com_queue.add_last connector.nodes client).2.next other =
      if connector.com_queue.tail_node = some other then some client else connector.nodes.next other := by
  have hne : other ≠ client := fun heq => hclient (heq ▸ h.follow_queued _ other hother)
  exact Queue.add_last_next_of_ne connector.com_queue connector.nodes hne

omit [CharBuffer Buf] in
/-- A client joins the walk over `com_queue` at its end, if the walk comes to the tail. -/
theorem com_add_last_walk (h : Linked connector.com_queue connector.action_queue connector.nodes place stamp)
    (hclient : place client ≠ .queued) (htail : connector.TailReached) :
    (connector.com_add_last client).com_clients = connector.com_clients ++ [client] := by
  have hwalk : Walk connector.nodes.next connector.com_queue.head_node connector.com_clients := h.walk_com
  have hnodup : connector.com_clients.Nodup := h.follow_nodup MAX_CONNECTIONS
  have hfresh : client ∉ connector.com_clients := fun hmem => hclient (h.follow_queued _ client hmem)
  have hnext := h.com_add_last_next hclient
  obtain ⟨hhead, _⟩ := Queue.add_last_queue connector.com_queue connector.nodes client
  have hself : (connector.com_queue.add_last connector.nodes client).2.next client = none := by
    rw [(Queue.add_last_links connector.com_queue connector.nodes client).1, Function.update_self]
  have hlength : (connector.com_clients ++ [client]).length ≤ MAX_CONNECTIONS := by
    have hnodup' : (connector.com_clients ++ [client]).Nodup := by simpa using List.Nodup.concat hfresh hnodup
    simpa using hnodup'.length_le_card
  change follow (connector.com_queue.add_last connector.nodes client).2.next MAX_CONNECTIONS
    (connector.com_queue.add_last connector.nodes client).1.head_node = _
  apply Walk.follow_eq _ hlength
  rw [hhead]
  unfold Connector.TailReached at htail
  cases hlast : connector.com_queue.tail_node with
  | none =>
    rw [hlast] at htail
    rw [List.getLast?_eq_none_iff.mp htail.symm]
    exact ⟨rfl, hself⟩
  | some tail =>
    rw [hlast] at htail hnext
    refine hwalk.append htail.symm hself ?_ (fun other hother hne => ?_) hnodup
    · rw [hnext tail (List.mem_of_getLast? htail.symm), if_pos rfl]
    · rw [hnext other hother, if_neg (fun heq => hne (Option.some.inj heq).symm)]

omit [CharBuffer Buf] in
/-- A walk that does not come to the tail misses the clients that are appended. -/
theorem tail_reached (h : Linked connector.com_queue connector.action_queue connector.nodes place stamp)
    (hclient : place client ≠ .queued) {last : ClientPtr}
    (hadded : (connector.com_add_last client).com_clients = connector.com_clients ++ [last]) :
    connector.TailReached := by
  have hwalk : Walk connector.nodes.next connector.com_queue.head_node connector.com_clients := h.walk_com
  have hnext := h.com_add_last_next hclient
  have hlength := (h.follow_nodup MAX_CONNECTIONS).length_le_card
  rw [Fintype.card_fin] at hlength
  obtain ⟨hhead, _⟩ := Queue.add_last_queue connector.com_queue connector.nodes client
  have hself : (connector.com_queue.add_last connector.nodes client).2.next client = none := by
    rw [(Queue.add_last_links connector.com_queue connector.nodes client).1, Function.update_self]
  change follow (connector.com_queue.add_last connector.nodes client).2.next MAX_CONNECTIONS
    (connector.com_queue.add_last connector.nodes client).1.head_node = _ at hadded
  rw [hhead] at hadded
  unfold Connector.TailReached
  cases htail : connector.com_queue.tail_node with
  | none =>
    have hone : Walk (connector.com_queue.add_last connector.nodes client).2.next (some client) [client] := ⟨rfl, hself⟩
    rw [htail, Option.elim_none, hone.follow_eq (show 1 ≤ MAX_CONNECTIONS by decide)] at hadded
    have hempty := (List.append_inj' (show [] ++ [client] = connector.com_clients ++ [last] from hadded) rfl).1
    rw [← hempty]
    rfl
  | some tail =>
    by_contra hmissed
    have haway : tail ∉ connector.com_clients := fun hmem => hmissed (hwalk.last hmem (h.tail tail htail).2).symm
    have hkept : Walk (connector.com_queue.add_last connector.nodes client).2.next connector.com_queue.head_node
        connector.com_clients := by
      refine hwalk.congr (fun other hother => ?_)
      have hne : tail ≠ other := fun heq => haway (heq ▸ hother)
      rw [hnext other hother, htail, if_neg (fun heq => hne (Option.some.inj heq))]
    rw [htail, Option.elim_some, hkept.follow_eq hlength] at hadded
    have hlonger := congrArg List.length hadded
    simp at hlonger

end Linked

/-- While an object is free, the call is all or nothing exactly for a descriptor that
`select()` can wait for, on a queue whose tail is reached. -/
theorem Consistent.all_or_nothing_iff [LawfulCharBuffer Buf] (h : Consistent connector place stamp)
    (hfree : 1 ≤ connector.client_pool.get_free_count) (hfd : fd = FD_NONE ∨ 0 ≤ fd ∧ fd ∉ connector.open_fds) :
    connector.AllOrNothing fd ↔ InFdSet fd ∧ connector.TailReached := by
  have haccepts : connector.accept fd ≠ none := accept_ne_none h.pooled.valid hfree
  obtain ⟨⟨client, accepted⟩, haccept⟩ := Option.ne_none_iff_exists'.mp haccepts
  obtain ⟨hcount, hcom, hnodes, hobject⟩ := accept_spec haccept
  have hclient : place client ≠ .queued := by simp [(h.accept hfd haccept).1]
  have hcall : connector.accept_connection fd = accepted.com_add_last client := by
    rw [Connector.accept_connection, haccept]
  have hadded : (accepted.com_add_last client).com_clients = (connector.com_add_last client).com_clients := by
    simp only [Connector.com_add_last, Connector.com_clients, hcom, hnodes]
  constructor
  · intro hcontract
    by_cases hset : InFdSet fd
    · obtain ⟨last, hclients, _⟩ := hcontract.all hset
      rw [hcall, hadded] at hclients
      exact ⟨hset, h.linked.tail_reached hclient hclients⟩
    · have hsame := (hcontract.nothing hset).1
      rw [hcall] at hsame
      change accepted.client_pool.get_free_count = _ at hsame
      omega
  · rintro ⟨hset, htail⟩
    refine ⟨fun _ => ⟨client, ?_, ?_⟩, fun hnot => absurd hset hnot⟩
    · rw [hcall, hadded]
      exact h.linked.com_add_last_walk hclient htail
    · rw [hcall]
      exact hobject

end

namespace State

variable {Buf : Type} [CharBuffer Buf] {before after state : State Buf} {action : Action}

/-- The other threads use up no client object. -/
theorem free_count_aside (hact : before.act action = some after) (haction : action.by_selector = false) :
    before.connector.client_pool.get_free_count ≤ after.connector.client_pool.get_free_count := by
  have hoperates := act_operates hact
  generalize after.connector = connector at hoperates ⊢
  cases hoperates with
  | silent => exact le_rfl
  | taken id => rw [(take_action_kept before.connector).2]
  | processed id client success_flag => exact le_rfl
  | handed_back id client => exact le_rfl
  | dismissed id client => exact GenAlloc.get_free_count_deallocate ..
  | closed id client => exact GenAlloc.get_free_count_deallocate ..
  | _ => cases haction

end State

/-- The selector gets into its loop by `init()` only. -/
theorem SelectorPosition.Next.looping {first second : SelectorPosition} {action : Action} (h : first.Next action second)
    (hlooping : second.looping = true) : first.looping = true ∨ first = .init := by
  cases h with
  | opened => exact Or.inr rfl
  | _ =>
    first
    | exact Or.inl rfl
    | cases hlooping

namespace State

variable {Buf : Type} [CharBuffer Buf] {before after state : State Buf} {action : Action}

/-- The selector waits for connections, and accepts one, only while a client object is free. -/
structure Room (state : State Buf) : Prop where
  apart : state.selector.looping = true → state.socket_fd ≠ state.trigger_read
  selecting : state.selector = .select → state.socket_fd ∈ state.read_fd_set →
    1 ≤ state.connector.client_pool.get_free_count
  accepting : state.selector = .accept → 1 ≤ state.connector.client_pool.get_free_count

omit [CharBuffer Buf] in
theorem build_room (hown : state.OwnDescriptors) (hlooping : state.selector.looping = true)
    (hapart : state.socket_fd ≠ state.trigger_read) (hmem : state.socket_fd ∈ state.build.read_fd_set) :
    1 ≤ state.connector.client_pool.get_free_count := by
  by_contra hnone
  simp only [State.build, if_neg hnone, List.nil_append, List.mem_cons] at hmem
  obtain hsame | hinterest := hmem
  · exact hapart hsame
  · obtain ⟨client, _, _, hfd⟩ := mem_interest hinterest
    have hsocket : state.socket_fd ∈ state.own_fds := by simp [own_fds]
    exact hown.apart _ hsocket (hown.looping hlooping _ hsocket).1 client hfd

/-- A step into the loop from elsewhere is that of `init()`. -/
theorem act_looping (hact : before.act action = some after) (hposition : before.selector ≠ .init)
    (hlooping : after.selector.looping = true) : before.selector.looping = true := by
  cases haction : action.by_selector with
  | false => rwa [← (act_aside hact haction).selector]
  | true => exact ((act_next hact haction).looping hlooping).resolve_right hposition

/-- Inside the loop the connector's own descriptors stay what `init()` made them. -/
theorem own_fds_looping (hact : before.act action = some after) (hposition : before.selector ≠ .init)
    (hlooping : after.selector.looping = true) : after.own_fds = before.own_fds := by
  apply act_own_fds hact
  cases action with
  | init socket_fd trigger_read trigger_write failed =>
    obtain ⟨⟨hinit, _⟩, _⟩ := only_if_eq_some.mp hact
    exact absurd hinit hposition
  | cleanup_socket =>
    obtain ⟨_, rfl⟩ := only_if_eq_some.mp hact
    cases hlooping
  | cleanup_com =>
    obtain ⟨hcleanup, _⟩ := only_if_eq_some.mp hact
    have hbefore := act_looping hact hposition hlooping
    rw [hcleanup] at hbefore
    cases hbefore
  | _ => rfl

theorem act_enters (hact : before.act action = some after) (hposition : before.selector = .init)
    (hlooping : after.selector.looping = true) :
    ∃ socket_fd trigger_read trigger_write, action = .init socket_fd trigger_read trigger_write false ∧
      before.init_possible socket_fd trigger_read trigger_write false ∧
      after = before.init socket_fd trigger_read trigger_write false := by
  cases haction : action.by_selector with
  | false =>
    rw [(act_aside hact haction).selector, hposition] at hlooping
    cases hlooping
  | true =>
    have hnext := act_next hact haction
    rw [hposition] at hnext
    generalize hsecond : after.selector = second at hnext
    rw [hsecond] at hlooping
    cases hnext with
    | not_opened => cases hlooping
    | opened socket_fd trigger_read trigger_write =>
      obtain ⟨⟨_, hpossible⟩, rfl⟩ := only_if_eq_some.mp hact
      exact ⟨socket_fd, trigger_read, trigger_write, rfl, hpossible, rfl⟩

theorem Room.apart_act (h : before.Room) (hact : before.act action = some after)
    (hlooping : after.selector.looping = true) : after.socket_fd ≠ after.trigger_read := by
  by_cases hposition : before.selector = .init
  · obtain ⟨socket_fd, trigger_read, trigger_write, _, ⟨_, hdistinct, hopened⟩, rfl⟩ :=
      act_enters hact hposition hlooping
    obtain ⟨hsocket, hread, hwrite⟩ := hopened rfl
    have hkept : ∀ fd : Int, 0 ≤ fd → fd ≠ FD_NONE := fun fd hvalid hnone => by
      rw [hnone] at hvalid
      cases hvalid
    rw [List.filter_eq_self.mpr (by simp [hkept, hsocket, hread, hwrite])] at hdistinct
    obtain ⟨hfresh, _⟩ := List.nodup_cons.mp hdistinct
    intro heq
    have hsame : socket_fd = trigger_read := heq
    rw [hsame] at hfresh
    exact hfresh (List.mem_cons_self ..)
  · have hfds := own_fds_looping hact hposition hlooping
    simp only [own_fds, List.cons.injEq] at hfds
    rw [hfds.1, hfds.2.1]
    exact h.apart (act_looping hact hposition hlooping)

theorem Room.act (h : before.Room) (hown : before.OwnDescriptors) (hact : before.act action = some after) :
    after.Room := by
  refine ⟨h.apart_act hact, fun hselect hmem => ?_, fun haccept => ?_⟩
  · cases haction : action.by_selector with
    | false =>
      have haside := act_aside hact haction
      have hfds := haside.own_fds
      simp only [own_fds, List.cons.injEq] at hfds
      rw [haside.selector] at hselect
      rw [haside.read_fd_set, hfds.1] at hmem
      exact le_trans (h.selecting hselect hmem) (free_count_aside hact haction)
    | true =>
      obtain ⟨_, rfl⟩ | ⟨_, rfl⟩ | ⟨hposition, rfl⟩ := act_tested hact haction (by rw [hselect]; rfl)
      · cases hselect
      · cases hselect
      · have hlooping : before.selector.looping = true := by rw [hposition]; rfl
        have hroom : 1 ≤ before.connector.client_pool.get_free_count :=
          build_room hown hlooping (h.apart hlooping) hmem
        exact hroom
  · cases haction : action.by_selector with
    | false =>
      rw [(act_aside hact haction).selector] at haccept
      exact le_trans (h.accepting haccept) (free_count_aside hact haction)
    | true =>
      have hnext := act_next hact haction
      rw [haccept] at hnext
      generalize hfirst : before.selector = first at hnext
      cases hnext with
      | connection_ready ready_read ready_write =>
        obtain ⟨⟨_, hready, _⟩, rfl⟩ := only_if_eq_some.mp hact
        refine h.selecting hfirst (hready ?_)
        by_contra hmissing
        simp only [State.select, if_neg hmissing] at haccept
        cases after_accept_cases { before with read_fd_set := ready_read, write_fd_set := ready_write } with
        | inl hnow => rw [hnow] at haccept; cases haccept
        | inr hnow => rw [hnow] at haccept; cases haccept

theorem Reachable.room [LawfulCharBuffer Buf] (h : state.Reachable) : state.Room := by
  apply ReachesFrom.invariant_under h (fun _ hstate => Reachable.own hstate)
  · exact fun memory => ⟨nofun, nofun, nofun⟩
  · intro before action after hown hbefore hstep
    exact hbefore.act hown (step_eq_some.mp hstep).2

/-- The selector waits for connections, and accepts one, only while a client object is free. The allocation
in `accept_connection` succeeds, and the branch for `std::bad_alloc` is not taken. -/
theorem accept_allocates [LawfulCharBuffer Buf] (h : state.Reachable) :
    (state.selector = .select → state.socket_fd ∈ state.read_fd_set →
        1 ≤ state.connector.client_pool.get_free_count) ∧
      (state.selector = .accept → 1 ≤ state.connector.client_pool.get_free_count ∧
        state.connector.client_pool.allocate ≠ none) ∧
      ∀ fd after, state.step (.accept fd) = some after → ∃ client, after.selector = .accept_lock client := by
  obtain ⟨_, _, hinvariant⟩ := Reachable.sound h
  have hroom := Reachable.room h
  have hvalid := hinvariant.consistent.pooled.valid
  refine ⟨hroom.selecting, fun hposition => ?_, fun fd after hstep => ?_⟩
  · have hfree := hroom.accepting hposition
    refine ⟨hfree, fun hnone => ?_⟩
    have hzero := hvalid.allocate_eq_none_iff.mp hnone
    omega
  · obtain ⟨_, hact⟩ := step_eq_some.mp hstep
    obtain ⟨⟨hposition, _⟩, rfl⟩ := only_if_eq_some.mp hact
    have haccepts : state.connector.accept fd ≠ none := accept_ne_none hvalid (hroom.accepting hposition)
    obtain ⟨⟨client, connector⟩, haccept⟩ := Option.ne_none_iff_exists'.mp haccepts
    rw [State.accept, haccept]
    exact ⟨client, rfl⟩

/-- The server is about to accept a second connection. -/
def second_run : List Action :=
  Action.startup ++ Action.accept_round 6 23 [] ++ [.test_signal, .build_lock, .build, .select [3] []]

theorem accept_allocates_second : ∃ state : State BoundedBuffer, state.connector.com_clients = [23] ∧
    state.connector.client_pool.allocate ≠ none := by
  obtain ⟨state, hreachable, hfound⟩ := exists_reachesFrom_of_run
    (by decide +kernel : ((run State.step (State.initial BoundedBuffer (.filled 0xA5)) second_run).any fun state =>
      state.selector = .accept ∧ state.connector.com_clients = [23]) = true)
  simp only [Bool.decide_and, Bool.and_eq_true, decide_eq_true_eq] at hfound
  obtain ⟨_, haccept, _⟩ := accept_allocates hreachable
  exact ⟨state, hfound.2, (haccept hfound.1).2⟩

/-- The descriptors that the next step of the selector passes to `FD_SET` or `FD_ISSET`. -/
def fd_set_arguments (state : State Buf) : List Int :=
  match state.selector with
  | .build => state.build.read_fd_set ++ state.build.write_fd_set
  | .select => [state.socket_fd, state.trigger_read]
  | .accept => [state.trigger_read]
  | .accept_add _ => [state.trigger_read]
  | .pass (some client) =>
    if (state.connector.clients client).current_phase = .CANCELED then []
    else [(state.connector.clients client).socket_fd]
  | _ => []

/-- The descriptors of the clients in use and of the server can be passed to `FD_SET`. -/
structure FdsFit (state : State Buf) : Prop where
  own : state.selector.looping = true → InFdSet state.socket_fd ∧ InFdSet state.trigger_read
  connections : ∀ connection < state.connector.connections, InFdSet (state.connector.history connection).socket

theorem FdsFit.act (h : before.FdsFit) (hselectable : action.selectable = true)
    (hact : before.act action = some after) :
    after.FdsFit := by
  refine ⟨fun hlooping => ?_, fun connection hconnection => ?_⟩
  · by_cases hposition : before.selector = .init
    · obtain ⟨socket_fd, trigger_read, trigger_write, rfl, ⟨_, _, hopened⟩, rfl⟩ := act_enters hact hposition hlooping
      obtain ⟨hsocket, hread, _⟩ := hopened rfl
      simp only [Action.selectable, Bool.false_or, Bool.and_eq_true, decide_eq_true_eq] at hselectable
      exact ⟨⟨hsocket, hselectable.1⟩, hread, hselectable.2⟩
    · have hfds := own_fds_looping hact hposition hlooping
      simp only [own_fds, List.cons.injEq] at hfds
      rw [hfds.1, hfds.2.1]
      exact h.own (act_looping hact hposition hlooping)
  · obtain hsame | ⟨fd, client, rfl, haccept⟩ := act_sockets hact
    · rw [hsame.connections] at hconnection
      rw [hsame.socket]
      exact h.connections connection hconnection
    · have hfd : InFdSet fd := of_decide_eq_true hselectable
      obtain ⟨hconnections, hhistory⟩ := accept_history haccept
      rw [hhistory]
      by_cases hnew : connection = before.connector.connections
      · rw [hnew, Function.update_self]
        exact hfd
      · rw [Function.update_of_ne hnew]
        exact h.connections connection (by omega)

/-- In a run in which the kernel returns no other descriptors, all clients in use have one
that `select()` can wait for. -/
theorem FdsFit.client [LawfulCharBuffer Buf] {place : ClientPtr → Place} {stamp : ClientPtr → Nat} (h : state.FdsFit)
    (hconsistent : Consistent state.connector place stamp) {client : ClientPtr} (hused : place client ≠ .free) :
    InFdSet (state.connector.clients client).socket_fd := by
  rw [← (hconsistent.sockets.used client hused).1]
  exact h.connections _ (hconsistent.sessions.connection_lt client hused)

theorem FdsFit.arguments [LawfulCharBuffer Buf] {place : ClientPtr → Place} {stamp : ClientPtr → Nat} {strict : Prop}
    (h : state.FdsFit) (hinvariant : Invariant strict state place stamp) : ∀ fd ∈ state.fd_set_arguments,
    InFdSet fd := by
  intro fd hfd
  have hclient : ∀ client, place client ≠ .free → InFdSet (state.connector.clients client).socket_fd :=
    fun client => h.client hinvariant.consistent
  have hinterest : ∀ operation, fd ∈ state.interest operation → InFdSet fd := by
    intro operation hmem
    obtain ⟨client, hqueued, _, heq, _⟩ := interest_client hinvariant.consistent hmem
    rw [← heq]
    exact hclient client (by simp [hqueued])
  unfold fd_set_arguments at hfd
  split at hfd
  · next hposition =>
    obtain ⟨hsocket, htrigger⟩ := h.own (by rw [hposition]; rfl)
    obtain hread | hwrite := List.mem_append.mp hfd
    · obtain rfl | rfl | hmem := mem_build_read hread
      · exact htrigger
      · exact hsocket
      · exact hinterest .READ hmem
    · exact hinterest .WRITE hwrite
  · next hposition =>
    obtain ⟨hsocket, htrigger⟩ := h.own (by rw [hposition]; rfl)
    obtain rfl | hmem := List.mem_cons.mp hfd
    · exact hsocket
    · rw [List.mem_singleton.mp hmem]
      exact htrigger
  · next hposition =>
    rw [List.mem_singleton.mp hfd]
    exact (h.own (by rw [hposition]; rfl)).2
  · next hposition =>
    rw [List.mem_singleton.mp hfd]
    exact (h.own (by rw [hposition]; rfl)).2
  · next client hposition =>
    have hqueued := hinvariant.interest.cursor client (by rw [hposition]; rfl)
    split at hfd
    · cases hfd
    · rw [List.mem_singleton.mp hfd]
      exact hclient client (by simp [hqueued])
  · cases hfd

/-- The steps of `accept_connection`, when no other thread takes one in between. -/
theorem accept_connection_steps (hrunning : state.terminated = false) (hposition : state.selector = .accept)
    (hfree : state.com_queue_lock = none) {fd : Int} (hpossible : state.accept_possible fd)
    (haccepts : state.connector.accept fd ≠ none) :
    ∃ client last, run State.step state [.accept fd, .accept_lock client, .accept_add client] = some last ∧
      last.connector = state.connector.accept_connection fd ∧ last.com_queue_lock = none := by
  obtain ⟨⟨client, accepted⟩, haccept⟩ := Option.ne_none_iff_exists'.mp haccepts
  have hcall : state.connector.accept_connection fd = accepted.com_add_last client := by
    rw [Connector.accept_connection, haccept]
  refine ⟨client, ?_⟩
  rw [hcall]
  simp [run, State.step, State.act, only_if, State.accept, haccept, hrunning, hposition, hfree, hpossible]

/-- `accept_connection` is all or nothing exactly when `accept()` returns a descriptor that
`select()` can wait for and `com_queue` ends at its tail, which it does in a run without the
errors of the server. In a run in which the kernel returns no other descriptors, no other one
is passed to `FD_SET` or `FD_ISSET`. The steps of the selector do what the call does when no
other thread takes one in between. -/
theorem accept_all_or_nothing [LawfulCharBuffer Buf] :
    (∀ (state : State Buf) (fd : Int), state.Reachable → state.selector = .accept → state.accept_possible fd →
        (state.connector.AllOrNothing fd ↔ InFdSet fd ∧ state.connector.TailReached)) ∧
      (∀ state : State Buf, state.ReachableWhere State.Orderly → state.connector.TailReached) ∧
      (∀ state : State Buf, state.ReachableWhere (fun _ action => action.selectable = true) →
        ∀ fd ∈ state.fd_set_arguments, InFdSet fd) ∧
      ∀ (state : State Buf) (fd : Int), state.Reachable → state.terminated = false → state.selector = .accept →
        state.com_queue_lock = none → state.accept_possible fd →
          ∃ client last, run State.step state [.accept fd, .accept_lock client, .accept_add client] = some last ∧
            last.connector = state.connector.accept_connection fd ∧ last.com_queue_lock = none := by
  refine ⟨fun state fd hreachable hposition hpossible => ?_, fun state hrun => ?_, fun state hrun => ?_,
    fun state fd hreachable hrunning hposition hfree hpossible => ?_⟩
  · obtain ⟨place, stamp, hinvariant⟩ := Reachable.sound hreachable
    exact hinvariant.consistent.all_or_nothing_iff ((Reachable.room hreachable).accepting hposition) hpossible
  · obtain ⟨place, stamp, hinvariant⟩ := ReachableWhere.sound (fun _ _ hcondition => hcondition) hrun
    obtain ⟨queued, hrepresents, _⟩ := (hinvariant.complete trivial).contents
    have hwalk : state.connector.com_clients = queued := hrepresents.walk
    rw [Connector.TailReached, hwalk]
    exact hrepresents.tail
  · obtain ⟨place, stamp, hinvariant⟩ := Reachable.sound hrun.reaches
    have hfit : state.FdsFit := by
      apply ReachesFromWhere.invariant hrun
      · exact fun memory => ⟨nofun, nofun⟩
      · intro before action after hbefore hselectable hstep
        exact hbefore.act hselectable (step_eq_some.mp hstep).2
    exact hfit.arguments hinvariant
  · obtain ⟨_, _, hinvariant⟩ := Reachable.sound hreachable
    have hroom := (Reachable.room hreachable).accepting hposition
    exact accept_connection_steps hrunning hposition hfree hpossible
      (accept_ne_none hinvariant.consistent.pooled.valid hroom)

theorem accept_all_or_nothing_second : ∃ state : State BoundedBuffer, state.connector.com_clients = [23] ∧
    state.connector.AllOrNothing 7 ∧ ∀ fd ∈ state.fd_set_arguments, InFdSet fd := by
  obtain ⟨state, hreached, hfound⟩ := exists_reachesFromWhere_of_runWhere
    (by decide +kernel : ((runWhere State.step (fun _ action => action.selectable)
      (State.initial BoundedBuffer (.filled 0xA5)) second_run).any fun state =>
        state.selector = .accept ∧ state.connector.com_clients = [23] ∧ state.accept_possible 7 ∧
          state.connector.TailReached) = true)
  simp only [Bool.decide_and, Bool.and_eq_true, decide_eq_true_eq] at hfound
  obtain ⟨hposition, hclients, hpossible, htail⟩ := hfound
  exact ⟨state, hclients, (accept_all_or_nothing.1 state 7 hreached.reaches hposition hpossible).mpr ⟨by decide, htail⟩,
    accept_all_or_nothing.2.2.1 state hreached⟩

/-- `accept()` fails for the first connection, and the loop goes round once more. -/
def aborted_run : List Action := Action.startup ++ [.test_signal, .build_lock, .build, .select [3] []]

def aborted_next_run : List Action :=
  aborted_run ++ [.accept (-1), .accept_lock 23, .accept_add 23, .pass_lock, .pass_first, .visit 23 .no_call, .pass_end,
    .test_signal, .build_lock]

/-- The client object of a connection that was not accepted is queued, and its descriptor is
passed to `FD_SET` in the next round. -/
theorem accept_not_all_or_nothing :
    (¬ ∀ (state : State BoundedBuffer) (fd : Int), state.Reachable → state.selector = .accept →
        state.accept_possible fd → state.connector.AllOrNothing fd) ∧
      ¬ ∀ state : State BoundedBuffer, state.Reachable → ∀ fd ∈ state.fd_set_arguments, InFdSet fd := by
  constructor
  · intro hall
    obtain ⟨state, hreachable, hfound⟩ := exists_reachesFrom_of_run
      (by decide +kernel : ((run State.step (State.initial BoundedBuffer (.filled 0xA5)) aborted_run).any fun state =>
        state.selector = .accept ∧ (state.connector.accept_connection FD_NONE).client_pool.get_free_count ≠
          state.connector.client_pool.get_free_count) = true)
    simp only [ne_eq, Bool.decide_and, Bool.and_eq_true, decide_eq_true_eq] at hfound
    exact hfound.2 ((hall state FD_NONE hreachable hfound.1 (Or.inl rfl)).nothing (by decide)).1
  · intro hall
    obtain ⟨state, hreachable, hfound⟩ := exists_reachesFrom_of_run
      (by decide +kernel : ((run State.step (State.initial BoundedBuffer (.filled 0xA5)) aborted_next_run).any
        fun state => FD_NONE ∈ state.fd_set_arguments) = true)
    exact absurd (hall state hreachable FD_NONE (of_decide_eq_true hfound)) (by decide)

end State

end ufh
