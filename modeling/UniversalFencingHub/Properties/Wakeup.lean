import UniversalFencingHub.Threads.Wakeup

open linked_list transition

namespace ufh

/-- The step in which a worker closes a client outside of the sections of `com_queue_lock`. -/
def Action.is_worker_close : Action → Bool
  | .worker_close _ _ => true
  | _ => false

namespace State

variable {Buf : Type} {before after state : State Buf} {place : ClientPtr → Place} {stamp : ClientPtr → Nat}
  {action : Action}

/-- After a run of the signal handler, the selector finds a byte in the trigger
pipe unless it tests the stop signal first. -/
def Alert (state : State Buf) : Prop :=
  state.signal_flag = true → state.handler ≠ .flagged → state.selector.tested = true → 0 < state.pipe_bytes

theorem selecting_of_tested {position : SelectorPosition} (h : position.tested = true) : position.selecting = true := by
  cases position with
  | build_lock => rfl
  | build => rfl
  | select => rfl
  | _ => cases h

theorem wakeup_fd_of_tested (hown : state.OwnDescriptors) (htrigger : state.Trigger)
    (htested : state.selector.tested = true) : state.wakeup_fd ≠ sys.FD_NONE := by
  have hselecting := selecting_of_tested htested
  have hlooping : state.selector.looping = true := by
    simp only [SelectorPosition.selecting, Bool.and_eq_true] at hselecting
    exact hselecting.1
  have hvalid := (hown.looping hlooping state.trigger_write (by simp [own_fds])).1
  rw [htrigger.enabled hselecting]
  intro hnone
  rw [hnone] at hvalid
  cases hvalid

theorem Alert.act [CharBuffer Buf] (h : before.Alert) (hown : before.OwnDescriptors) (htrigger : before.Trigger)
    (hact : before.act action = some after) : after.Alert := by
  intro hflag hhandler htested
  cases haction : action.by_selector with
  | true =>
    obtain ⟨hclear, rfl⟩ | ⟨hposition, rfl⟩ | ⟨hposition, rfl⟩ := act_tested hact haction htested
    · change before.signal_flag = true at hflag
      rw [hclear] at hflag
      cases hflag
    · exact h hflag hhandler (by rw [hposition]; rfl)
    · exact h hflag hhandler (by rw [hposition]; rfl)
  | false =>
    have haside := act_aside hact haction
    rw [haside.selector] at htested
    cases haside.alerted hflag hhandler with
    | inl hbefore => exact Nat.lt_of_lt_of_le (h hbefore.1 hbefore.2 htested) haside.pipe_bytes
    | inr hwritten => exact hwritten (wakeup_fd_of_tested hown htrigger htested)

variable [CharBuffer Buf]

theorem Reachable.alert [LawfulCharBuffer Buf] (h : state.Reachable) : state.Alert := by
  have hknown : ∀ state : State Buf, state.Reachable → state.OwnDescriptors ∧ state.Trigger :=
    fun _ hstate => ⟨Reachable.own hstate, Reachable.trigger hstate⟩
  apply ReachesFrom.invariant_under h hknown
  · nofun
  · intro before action after hknown hbefore hstep
    exact hbefore.act hknown.1 hknown.2 (step_eq_some.mp hstep).2

/-- When the signal handler has completed, the selector is not blocked in `select()`
with an empty trigger pipe. -/
theorem stop_signal_not_missed [LawfulCharBuffer Buf] (h : state.Reachable) :
    ¬ (state.signal_flag = true ∧ state.handler ≠ .flagged ∧ state.selector = .select ∧ state.pipe_bytes = 0) := by
  rintro ⟨hflag, hhandler, hposition, hempty⟩
  have hpositive := Reachable.alert h hflag hhandler (by rw [hposition]; rfl)
  omega

/-- The selector, about to block, when a stop signal is delivered. -/
def signal_run : List Action :=
  Action.startup ++ [.test_signal, .build_lock, .build, .signal, .signal_flag, .signal_write]

theorem stop_signal_not_missed_while_blocked : ∃ state : State BoundedBuffer,
    (state.signal_flag = true ∧ state.handler ≠ .flagged ∧ state.selector = .select) ∧
      ¬ (state.signal_flag = true ∧ state.handler ≠ .flagged ∧ state.selector = .select ∧ state.pipe_bytes = 0) := by
  obtain ⟨state, hreachable, hblocked⟩ := exists_reachesFrom_of_run
    (by decide +kernel : ((run State.step (State.initial BoundedBuffer (.filled 0xA5)) signal_run).any fun state =>
      state.signal_flag = true ∧ state.handler ≠ .flagged ∧ state.selector = .select) = true)
  exact ⟨state, by simpa using hblocked, stop_signal_not_missed hreachable⟩

/-- The descriptor sets contain a client for the operation that it waits for. -/
def Watches (state : State Buf) (client : ClientPtr) : Prop :=
  ((state.connector.clients client).io_state = .READ →
      (state.connector.clients client).socket_fd ∈ state.read_fd_set) ∧
    ((state.connector.clients client).io_state = .WRITE →
      (state.connector.clients client).socket_fd ∈ state.write_fd_set)

def Watched (state : State Buf) : Prop := ∀ client ∈ state.com_clients, state.Watches client

omit [CharBuffer Buf] in
theorem Watched.shrink (h : before.Watched) (haside : SameView before after)
    (hqueued : ∀ client ∈ after.com_clients, client ∈ before.com_clients)
    (hclients : ∀ client ∈ after.com_clients, after.connector.clients client = before.connector.clients client) :
    after.Watched := by
  intro client hclient
  unfold Watches
  rw [hclients client hclient, haside.read_fd_set, haside.write_fd_set]
  exact h client (hqueued client hclient)

omit [CharBuffer Buf] in
theorem Watched.same_connector (h : before.Watched) (haside : SameView before after)
    (hconnector : after.connector = before.connector) : after.Watched := by
  apply h.shrink haside
  · unfold com_clients
    rw [hconnector]
    exact fun _ hclient => hclient
  · rw [hconnector]
    exact fun _ _ => rfl

/-- Closing a client that a worker holds leaves nothing for the walk to meet. -/
theorem com_clients_closed {client : ClientPtr} (hlinked : Linked before.connector.com_queue
    before.connector.action_queue before.connector.nodes place stamp) (hqueued : place client ≠ .queued)
    (hpending : place client ≠ .pending) (hconnector : after.connector = before.connector.close_connection client) :
    after.com_clients = [] := by
  obtain ⟨hhead, _, _⟩ := Queue.remove_detached before.connector.com_queue before.connector.nodes client
    (hlinked.detached client hqueued hpending)
  have hclosed : after.connector.com_queue.get_first = none := by
    rw [hconnector]
    exact hhead
  unfold com_clients
  rw [hclosed]
  rfl

theorem Watched.take (h : state.Watched) (hinvariant : Invariant False state place stamp) (id : WorkerId) :
    (state.take id).Watched := by
  have hlinked := hinvariant.consistent.linked
  obtain ⟨_, hempty⟩ | ⟨client, _, hpending, hfirst, haffects, _, hcom, hnodes⟩ :=
    hinvariant.consistent.take_action (.worker id)
  · refine h.same_connector (aside_take state id).toSameView ?_
    simp only [State.take, hempty]
  · have hsame : (state.take id).com_clients = state.com_clients := by
      rw [take_eq hfirst]
      change follow (Nodes.next state.connector.take_action.2.nodes) MAX_CONNECTIONS
        state.connector.take_action.2.com_queue.head_node = state.com_clients
      rw [hcom, hnodes]
      refine follow_congr (fun node successor hnode hnext => (hlinked.forward node successor hnode hnext).1) ?_ _
        (fun node hhead => (hlinked.head node hhead).1)
      intro node hnode
      have hkept := hlinked.action_remove_first_kept (show place node ≠ .pending by simp [hnode])
      simp only [Nodes.next, hkept]
    apply h.shrink (aside_take state id).toSameView
    · rw [hsame]
      exact fun _ hclient => hclient
    · rw [hsame]
      intro other hother
      have hqueued := hlinked.follow_queued _ other hother
      have hne : other ≠ client := fun heq => by rw [heq, hpending] at hqueued; cases hqueued
      rw [take_eq hfirst]
      exact haffects.others other hne

theorem Watched.process (h : state.Watched) (hinvariant : Invariant False state place stamp) {id : WorkerId}
    {client : ClientPtr} (hposition : state.workers id = .process client) (success_flag : Bool) :
    (state.process id client success_flag).Watched := by
  have hheld := (hinvariant.holding _ _ _).mp (holding_worker hposition)
  have hqueues : (state.process id client success_flag).com_clients = state.com_clients := by
    unfold State.process
    simp only
    split
    · rfl
    · rfl
  apply h.shrink (aside_process state id client success_flag).toSameView
  · rw [hqueues]
    exact fun _ hclient => hclient
  · rw [hqueues]
    intro other hother
    have hqueued := hinvariant.consistent.linked.follow_queued _ other hother
    have hne : other ≠ client := fun heq => by rw [heq, hheld] at hqueued; cases hqueued
    unfold State.process
    simp only
    split
    · exact Function.update_of_ne hne _ _
    · exact Function.update_of_ne hne _ _

/-- Handing a client back to the selector writes to the trigger pipe. -/
theorem hand_back_wakes (hwrite : state.trigger_write ≠ sys.FD_NONE) (hflag : state.signal_flag = false) (id : WorkerId)
    (client : ClientPtr) : 0 < (state.hand_back id client).pipe_bytes := by
  have hflag' : ¬ (state.set_worker id .relock).signal_flag = true := by
    change ¬ state.signal_flag = true
    simp [hflag]
  unfold State.hand_back
  simp only [if_neg hflag']
  unfold wakeup_selector
  rw [if_pos]
  · exact (write_pipe_bytes _).1
  · exact hwrite

/-- While the selector blocks, the other threads either wake it up or leave it
watching all clients that are queued. -/
theorem Watched.aside (h : before.Watched) (hinvariant : Invariant False before place stamp)
    (hwrite : before.trigger_write ≠ sys.FD_NONE) (hact : before.act action = some after)
    (haction : action.by_selector = false) : 0 < after.pipe_bytes ∨ after.Watched := by
  have hview := (act_aside hact haction).toSameView
  have hempty : after.com_clients = [] → 0 < after.pipe_bytes ∨ after.Watched := by
    intro hnone
    right
    intro client hclient
    rw [hnone] at hclient
    cases hclient
  cases action with
  | worker_take id =>
    obtain ⟨_, rfl⟩ := only_if_eq_some.mp hact
    exact Or.inr (h.take hinvariant id)
  | worker_process id client success_flag =>
    obtain ⟨hposition, rfl⟩ := only_if_eq_some.mp hact
    exact Or.inr (h.process hinvariant hposition success_flag)
  | worker_hand_back id client =>
    obtain ⟨⟨hposition, _⟩, rfl⟩ := only_if_eq_some.mp hact
    have hheld := (hinvariant.holding _ _ _).mp (holding_worker hposition)
    cases hflag : before.signal_flag with
    | false => exact Or.inl (hand_back_wakes hwrite hflag id client)
    | true =>
      apply hempty
      have hflag' : (before.set_worker id .relock).signal_flag = true := hflag
      have hclosed : (before.hand_back id client).connector = before.connector.close_connection client := by
        unfold State.hand_back
        simp only [if_pos hflag']
        rfl
      exact com_clients_closed hinvariant.consistent.linked (by simp [hheld]) (by simp [hheld]) hclosed
  | worker_close id client =>
    obtain ⟨hposition, rfl⟩ := only_if_eq_some.mp hact
    have hheld := (hinvariant.holding _ _ _).mp (holding_worker hposition)
    apply hempty
    exact com_clients_closed hinvariant.consistent.linked (by simp [hheld]) (by simp [hheld]) rfl
  | worker_test id =>
    obtain ⟨_, rfl⟩ := only_if_eq_some.mp hact
    refine Or.inr (h.same_connector hview ?_)
    unfold test_stop
    split
    · rfl
    · rfl
  | signal_write =>
    obtain ⟨_, rfl⟩ := only_if_eq_some.mp hact
    refine Or.inr (h.same_connector hview ?_)
    obtain ⟨pipe_bytes, hafter⟩ := ufh_signal_handler_write_eq before
    rw [hafter]
  | worker_lock id => obtain ⟨_, rfl⟩ := only_if_eq_some.mp hact; exact Or.inr (h.same_connector hview rfl)
  | worker_hand_back_lock id client =>
    obtain ⟨_, rfl⟩ := only_if_eq_some.mp hact
    exact Or.inr (h.same_connector hview rfl)
  | worker_relock id => obtain ⟨_, rfl⟩ := only_if_eq_some.mp hact; exact Or.inr (h.same_connector hview rfl)
  | worker_wait id => obtain ⟨_, rfl⟩ := only_if_eq_some.mp hact; exact Or.inr (h.same_connector hview rfl)
  | worker_wake id => obtain ⟨_, rfl⟩ := only_if_eq_some.mp hact; exact Or.inr (h.same_connector hview rfl)
  | signal => obtain ⟨_, rfl⟩ := only_if_eq_some.mp hact; exact Or.inr (h.same_connector hview rfl)
  | signal_flag => obtain ⟨_, rfl⟩ := only_if_eq_some.mp hact; exact Or.inr (h.same_connector hview rfl)
  | _ => cases haction

omit [CharBuffer Buf] in
/-- The descriptor sets are built to watch all queued clients. -/
theorem watched_build (state : State Buf) : state.build.Watched := by
  intro client hclient
  have hqueued : client ∈ state.com_clients := hclient
  constructor
  · intro hread
    change (state.connector.clients client).io_state = .READ at hread
    apply List.mem_cons_of_mem
    apply List.mem_append_right
    exact List.mem_map.mpr ⟨client, List.mem_filter.mpr ⟨hqueued, by simpa using hread⟩, rfl⟩
  · intro hwrite
    change (state.connector.clients client).io_state = .WRITE at hwrite
    exact List.mem_map.mpr ⟨client, List.mem_filter.mpr ⟨hqueued, by simpa using hwrite⟩, rfl⟩

theorem Reachable.watched [LawfulCharBuffer Buf] (h : state.Reachable) :
    state.selector = .select → 0 < state.pipe_bytes ∨ state.Watched := by
  have hknown : ∀ state : State Buf, state.Reachable →
      (∃ place stamp, Invariant False state place stamp) ∧ state.OwnDescriptors :=
    fun _ hstate => ⟨Reachable.sound hstate, Reachable.own hstate⟩
  apply ReachesFrom.invariant_under h hknown
  · nofun
  · intro before action after hknown hbefore hstep hselect
    obtain ⟨⟨place, stamp, hinvariant⟩, hown⟩ := hknown
    obtain ⟨_, hact⟩ := step_eq_some.mp hstep
    cases haction : action.by_selector with
    | true =>
      obtain ⟨_, rfl⟩ | ⟨_, rfl⟩ | ⟨_, rfl⟩ := act_tested hact haction (by rw [hselect]; rfl)
      · cases hselect
      · cases hselect
      · exact Or.inr (watched_build before)
    | false =>
      have haside := act_aside hact haction
      rw [haside.selector] at hselect
      have hvalid := (hown.looping (by rw [hselect]; rfl) before.trigger_write (by simp [own_fds])).1
      have hwrite : before.trigger_write ≠ sys.FD_NONE := fun hnone => by rw [hnone] at hvalid; cases hvalid
      cases hbefore hselect with
      | inl hpositive => exact Or.inl (Nat.lt_of_lt_of_le hpositive haside.pipe_bytes)
      | inr hwatched => exact hwatched.aside hinvariant hwrite hact haction

/-- While the selector is blocked in `select()` with an empty trigger pipe, it watches
every client that can be reached from `com_queue`. -/
theorem queued_clients_watched [LawfulCharBuffer Buf] (h : state.Reachable) (hposition : state.selector = .select)
    (hempty : state.pipe_bytes = 0) (client : ClientPtr) (hqueued : state.OnComQueue client) :
    state.Watches client := by
  obtain ⟨_, _, hinvariant⟩ := Reachable.sound h
  obtain ⟨fuel, hmem⟩ := hqueued
  have hwalk : client ∈ state.com_clients := by
    have hlonger := (follow_begins _ fuel MAX_CONNECTIONS _).subset hmem
    rw [Nat.add_comm] at hlonger
    change client ∈ follow _ MAX_CONNECTIONS state.connector.com_queue.head_node
    rw [← hinvariant.consistent.linked.follow_max fuel]
    exact hlonger
  cases Reachable.watched h hposition with
  | inl hpositive => omega
  | inr hwatched => exact hwatched client hwalk

/-- An echo reply is handed back while the selector blocks, and the selector builds
its descriptor sets anew. -/
def hand_back_run : List Action :=
  Action.startup ++ Action.accept_round 6 23 [] ++ Action.round [6] [] [] (Action.complete 23 none [0, 0, 0, 4]) ++
    [.test_signal, .build_lock, .build] ++ Action.work 0 23 false ++
    [.worker_hand_back_lock 0 23, .worker_hand_back 0 23, .select [4] [], .drain, .drain, .pass_lock, .pass_first,
      .visit 23 .no_call, .pass_end, .test_signal, .build_lock, .build]

theorem queued_clients_watched_hand_back : ∃ state : State BoundedBuffer,
    state.com_clients = [23] ∧ state.write_fd_set = [6] ∧ state.Watches 23 := by
  obtain ⟨state, hreachable, hblocked⟩ := exists_reachesFrom_of_run
    (by decide +kernel : ((run State.step (State.initial BoundedBuffer (.filled 0xA5)) hand_back_run).any fun state =>
      state.selector = .select ∧ state.pipe_bytes = 0 ∧ state.com_clients = [23] ∧ state.write_fd_set = [6]) = true)
  simp only [Bool.decide_and, Bool.and_eq_true, decide_eq_true_eq] at hblocked
  obtain ⟨hposition, hempty, hclients, hwrite⟩ := hblocked
  have hqueued : state.OnComQueue 23 := ⟨MAX_CONNECTIONS, by
    change 23 ∈ state.com_clients
    rw [hclients]
    simp⟩
  exact ⟨state, hclients, hwrite, queued_clients_watched hreachable hposition hempty 23 hqueued⟩

/-- The steps that do not free a client behind the back of a blocked selector: no
worker closes a client while the selector is blocked in `select()` without the server
socket and with an empty trigger pipe. -/
def Heard (state : State Buf) (action : Action) : Prop :=
  action.is_worker_close = true → state.selector = .select → state.pipe_bytes = 0 → state.socket_fd ∈ state.read_fd_set

omit [CharBuffer Buf] in
instance (state : State Buf) (action : Action) : Decidable (state.Heard action) :=
  inferInstanceAs (Decidable (_ → _ → _ → _))

/-- The other threads free clients only by closing them, and the section that hands a
client back does so only after a stop signal. -/
theorem client_pool_aside (hact : before.act action = some after) (haction : action.by_selector = false) :
    after.connector.client_pool = before.connector.client_pool ∨
      (before.signal_flag = true ∧ before.handler = .idle) ∨ ∃ id client, action = .worker_close id client := by
  cases hlists : action.on_lists with
  | false => exact Or.inl (act_elsewhere hact hlists).2
  | true =>
    cases action with
    | worker_close id client => exact Or.inr (Or.inr ⟨id, client, rfl⟩)
    | worker_hand_back id client =>
      obtain ⟨⟨_, hidle⟩, rfl⟩ := only_if_eq_some.mp hact
      cases hflag : before.signal_flag with
      | true => exact Or.inr (Or.inl ⟨rfl, hidle⟩)
      | false =>
        left
        rw [hand_back_connector hflag]
        rfl
    | worker_take id =>
      obtain ⟨_, rfl⟩ := only_if_eq_some.mp hact
      exact Or.inl (take_client_pool before id)
    | accept fd => cases haction
    | accept_add client => cases haction
    | visit client result => cases haction
    | enqueue client next_client target => cases haction
    | cleanup_action => cases haction
    | cleanup_com => cases haction
    | _ => cases hlists

/-- A blocked selector with an empty trigger pipe accepts connections, or no client is free. -/
def Accepting (state : State Buf) : Prop :=
  state.selector = .select → 0 < state.pipe_bytes ∨ state.socket_fd ∈ state.read_fd_set ∨
    state.connector.client_pool.get_free_count = 0

omit [CharBuffer Buf] in
theorem accepting_build (state : State Buf) : state.build.Accepting := by
  intro _
  by_cases hfree : state.connector.client_pool.get_free_count ≥ 1
  · refine Or.inr (Or.inl ?_)
    simp [State.build, hfree]
  · refine Or.inr (Or.inr ?_)
    change state.connector.client_pool.get_free_count = 0
    omega

theorem Accepting.act (h : before.Accepting) (halert : before.Alert) (hheard : before.Heard action)
    (hact : before.act action = some after) : after.Accepting := by
  intro hselect
  cases haction : action.by_selector with
  | true =>
    obtain ⟨_, rfl⟩ | ⟨_, rfl⟩ | ⟨_, rfl⟩ := act_tested hact haction (by rw [hselect]; rfl)
    · cases hselect
    · cases hselect
    · exact accepting_build before hselect
  | false =>
    have haside := act_aside hact haction
    have hsocket : after.socket_fd = before.socket_fd := by
      have hfds := haside.own_fds
      simp only [own_fds, List.cons.injEq] at hfds
      exact hfds.1
    rw [haside.selector] at hselect
    rw [haside.read_fd_set, hsocket]
    obtain hpool | ⟨hflag, hidle⟩ | ⟨id, client, rfl⟩ := client_pool_aside hact haction
    · rw [hpool]
      exact (h hselect).imp_left (fun hpositive => Nat.lt_of_lt_of_le hpositive haside.pipe_bytes)
    · have hpositive := halert hflag (by rw [hidle]; simp) (by rw [hselect]; rfl)
      exact Or.inl (Nat.lt_of_lt_of_le hpositive haside.pipe_bytes)
    · by_cases hempty : before.pipe_bytes = 0
      · exact Or.inr (Or.inl (hheard rfl hselect hempty))
      · have hbytes := haside.pipe_bytes
        exact Or.inl (by omega)

/-- In a run in which no worker frees a client behind the back of a blocked selector,
the selector waits for connections whenever a client is free. -/
theorem accepting_resumes [LawfulCharBuffer Buf] (h : state.ReachableWhere Heard) (hposition : state.selector = .select)
    (hempty : state.pipe_bytes = 0) (hfree : 1 ≤ state.connector.client_pool.get_free_count) :
    state.socket_fd ∈ state.read_fd_set := by
  have haccepting : state.Reachable ∧ state.Accepting := by
    apply ReachesFromWhere.invariant h
    · exact fun memory => ⟨.refl memory, nofun⟩
    · intro before action after hbefore hheard hstep
      exact ⟨hbefore.1.tail trivial hstep, hbefore.2.act (Reachable.alert hbefore.1) hheard (step_eq_some.mp hstep).2⟩
  obtain hpositive | hmem | hnone := haccepting.2 hposition
  · omega
  · exact hmem
  · omega

theorem accepting_resumes_blocked : ∃ state : State BoundedBuffer,
    state.connector.client_pool.get_free_count = 23 ∧ state.socket_fd ∈ state.read_fd_set := by
  obtain ⟨state, hreachable, hblocked⟩ := exists_reachesFromWhere_of_runWhere
    (by decide +kernel : ((runWhere State.step (fun state action => state.Heard action)
      (State.initial BoundedBuffer (.filled 0xA5)) hand_back_run).any fun state =>
        state.selector = .select ∧ state.pipe_bytes = 0 ∧ state.connector.client_pool.get_free_count = 23) = true)
  simp only [Bool.decide_and, Bool.and_eq_true, decide_eq_true_eq] at hblocked
  obtain ⟨hposition, hempty, hfree⟩ := hblocked
  have hheard : state.ReachableWhere Heard :=
    hreachable.weaken (fun _ _ hguard => of_decide_eq_true hguard)
  exact ⟨state, hfree, accepting_resumes hheard hposition hempty (by omega)⟩

/-- The server accepts connections until no client is free. -/
def fill : List Action :=
  (List.range MAX_CONNECTIONS).flatMap fun (k : Nat) =>
    Action.accept_round (6 + k) (Fin.ofNat _ (23 - k)) ((List.range k).map fun j => Fin.ofNat _ (23 - j))

/-- A worker closes a client while the selector blocks, after all clients have been in use. -/
def unheard_run : List Action :=
  Action.startup ++ fill ++
    Action.round [6] [] [] (Action.complete 23 (some 22) [0, 2, 0, 4] ++
      Action.skip ((List.range 23).map fun j => Fin.ofNat _ (22 - j))) ++
    [.test_signal, .build_lock, .build] ++ Action.work 0 23 false ++ [.worker_close 0 23]

/-- A free client is missed by the selector. -/
theorem accepting_not_resumed : ¬ ∀ state : State BoundedBuffer, state.Reachable → state.selector = .select →
    state.pipe_bytes = 0 → 1 ≤ state.connector.client_pool.get_free_count → state.socket_fd ∈ state.read_fd_set := by
  intro hresumes
  obtain ⟨state, hreachable, hblocked⟩ := exists_reachesFrom_of_run
    (by decide +kernel : ((run State.step (State.initial BoundedBuffer (.filled 0xA5)) unheard_run).any fun state =>
      state.selector = .select ∧ state.pipe_bytes = 0 ∧ 1 ≤ state.connector.client_pool.get_free_count ∧
        state.socket_fd ∉ state.read_fd_set) = true)
  simp only [Bool.decide_and, Bool.and_eq_true, decide_eq_true_eq] at hblocked
  obtain ⟨hposition, hempty, hfree, hmissed⟩ := hblocked
  exact hmissed (hresumes state hreachable hposition hempty hfree)

end State

end ufh
