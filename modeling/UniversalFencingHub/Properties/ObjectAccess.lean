import UniversalFencingHub.ServerConnector.Separate
import UniversalFencingHub.Threads.Serving

open linked_list transition

namespace ufh

namespace State

variable {Buf : Type} {before after state : State Buf} {place : ClientPtr → Place} {stamp : ClientPtr → Nat}
  {action : Action} {client visited held : ClientPtr}

/-- Another content of one client object. The links of the queues, which `com_queue_lock` and
`action_queue_lock` guard, are no part of the content. -/
def set_object (state : State Buf) (client : ClientPtr) (object : NetClient Buf) : State Buf :=
  { state with connector := state.connector.set_client client object }

/-- The client objects that a step reads or changes. -/
def accesses (state : State Buf) (action : Action) (client : ClientPtr) : Prop :=
  action = .build ∧ client ∈ state.com_clients ∨ state.served_client action = some client

theorem drain_set_object (object : NetClient Buf) :
    (state.set_object client object).drain = state.drain.set_object client object := by
  unfold State.drain
  rw [apply_ite (set_object · client object)]
  rfl

theorem test_stop_set_object (object : NetClient Buf) (id : WorkerId) :
    (state.set_object client object).test_stop id = (state.test_stop id).set_object client object := by
  unfold State.test_stop
  rw [apply_ite (set_object · client object)]
  rfl

theorem signal_write_set_object (object : NetClient Buf) :
    (state.set_object client object).ufh_signal_handler_write =
      state.ufh_signal_handler_write.set_object client object := by
  have hwakeup : (state.set_object client object).wakeup_fd = state.wakeup_fd := rfl
  unfold State.ufh_signal_handler_write
  simp only [hwakeup]
  split
  · rfl
  · rfl

theorem wakeup_selector_set_object (state : State Buf) (client : ClientPtr) (object : NetClient Buf) :
    (state.set_object client object).wakeup_selector = state.wakeup_selector.set_object client object := by
  unfold State.wakeup_selector
  rw [apply_ite (set_object · client object)]
  rfl

theorem interest_set_object (hother : client ∉ state.com_clients) (object : NetClient Buf) (operation : IoOp) :
    (state.set_object client object).interest operation = state.interest operation := by
  have hsame : ∀ queued ∈ state.com_clients,
      (state.set_object client object).connector.clients queued = state.connector.clients queued := by
    intro queued hqueued
    exact clients_set_other (fun heq => hother (heq ▸ hqueued))
  unfold State.interest
  rw [show (state.set_object client object).com_clients = state.com_clients from rfl]
  have hfilter : state.com_clients.filter
      (fun queued => ((state.set_object client object).connector.clients queued).io_state = operation) =
        state.com_clients.filter (fun queued => (state.connector.clients queued).io_state = operation) :=
    List.filter_congr fun queued hqueued => by rw [hsame queued hqueued]
  rw [hfilter]
  exact List.map_congr_left fun queued hqueued => by rw [hsame queued (List.mem_of_mem_filter hqueued)]

theorem build_set_object (hother : client ∉ state.com_clients) (object : NetClient Buf) :
    (state.set_object client object).build = state.build.set_object client object := by
  unfold State.build
  simp only [interest_set_object hother]
  rfl

theorem take_set_object (hother : state.connector.action_queue.head_node ≠ some client) (object : NetClient Buf)
    (id : WorkerId) : (state.set_object client object).take id = (state.take id).set_object client object := by
  have htake : (state.set_object client object).connector.take_action = _ := take_action_other hother
  unfold State.take
  rw [htake]
  cases state.connector.take_action with
  | mk found rest =>
    cases found with
    | none => rfl
    | some taken => rfl

section

variable [CharBuffer Buf]

theorem accept_set_object (hother : state.connector.client_pool.allocate.map Prod.fst ≠ some client)
    (object : NetClient Buf) (fd : Int) :
    (state.set_object client object).accept fd = (state.accept fd).set_object client object := by
  have haccept : (state.set_object client object).connector.accept fd = _ := accept_other hother fd
  unfold State.accept
  rw [haccept]
  cases state.connector.accept fd with
  | none => rfl
  | some accepted => rfl

theorem visit_set_object (hne : visited ≠ client) (object : NetClient Buf) (result : IoResult) :
    (state.set_object client object).visit visited result = (state.visit visited result).set_object client object := by
  have hperform : (state.set_object client object).connector.perform_io (state.set_object client object).read_fd_set
      (state.set_object client object).write_fd_set visited result = _ := perform_io_other hne ..
  by_cases hpipe : result = .broken_pipe
  · simp only [State.visit, if_pos hpipe]
    rfl
  · rw [visit_eq hpipe, visit_eq hpipe, hperform]
    rfl

theorem cleanup_action_set_object (hother : state.connector.action_queue.head_node ≠ some client)
    (object : NetClient Buf) :
    (state.set_object client object).cleanup_action = state.cleanup_action.set_object client object := by
  have hremove : (state.set_object client object).connector.action_remove_first =
      (state.connector.action_remove_first.1, state.connector.action_remove_first.2.set_client client object) := rfl
  unfold State.cleanup_action
  rw [hremove]
  cases hfirst : state.connector.action_remove_first with
  | mk found rest =>
    cases found with
    | none => rfl
    | some closed =>
      have hne : closed ≠ client := by
        rintro rfl
        exact hother (action_remove_first_head.symm.trans (congrArg Prod.fst hfirst))
      simp only [close_connection_other hne]
      rfl

theorem cleanup_com_set_object (hother : state.connector.com_queue.head_node ≠ some client)
    (object : NetClient Buf) :
    (state.set_object client object).cleanup_com = state.cleanup_com.set_object client object := by
  have hremove : (state.set_object client object).connector.com_remove_first =
      (state.connector.com_remove_first.1, state.connector.com_remove_first.2.set_client client object) := rfl
  unfold State.cleanup_com
  rw [hremove]
  cases hfirst : state.connector.com_remove_first with
  | mk found rest =>
    cases found with
    | none => rfl
    | some closed =>
      have hne : closed ≠ client := by
        rintro rfl
        exact hother (com_remove_first_head.symm.trans (congrArg Prod.fst hfirst))
      simp only [close_connection_other hne]
      rfl

theorem process_set_object (hne : held ≠ client) (object : NetClient Buf) (id : WorkerId) (success_flag : Bool) :
    (state.set_object client object).process id held success_flag =
      (state.process id held success_flag).set_object client object := by
  have hprocess : (state.set_object client object).connector.process held success_flag = _ :=
    process_other hne success_flag
  unfold State.process
  rw [hprocess]
  cases state.connector.process held success_flag with
  | mk processed outcome =>
    cases outcome with
    | error exception => rfl
    | ok _ =>
      simp only [clients_set_other hne]
      rfl

theorem hand_back_set_object (hne : held ≠ client) (object : NetClient Buf) (id : WorkerId) :
    (state.set_object client object).hand_back id held = (state.hand_back id held).set_object client object := by
  have hclose : (state.set_object client object).connector.close_connection held = _ := close_connection_other hne
  cases hsignal : state.signal_flag with
  | true =>
    have hsignal' : (state.set_object client object).signal_flag = true := hsignal
    rw [hand_back_eq_close hsignal', hand_back_eq_close hsignal, hclose]
    rfl
  | false =>
    have hadded : ∀ state : State Buf, state.signal_flag = false → state.hand_back id held =
        { ({ state.set_worker id .relock with connector := state.connector.com_add_last held }).wakeup_selector with
          com_queue_lock := none } := fun state hunset => if_neg (by simp [set_worker, hunset])
    have hsignal' : (state.set_object client object).signal_flag = false := hsignal
    have hwakeup := wakeup_selector_set_object
      { state.set_worker id .relock with connector := state.connector.com_add_last held } client object
    rw [hadded _ hsignal', hadded _ hsignal]
    exact congrArg (fun woken : State Buf => { woken with com_queue_lock := none }) hwakeup

theorem close_set_object (hne : held ≠ client) (object : NetClient Buf) (id : WorkerId) :
    (state.set_object client object).close id held = (state.close id held).set_object client object := by
  have hclose : (state.set_object client object).connector.close_connection held = _ := close_connection_other hne
  unfold State.close
  simp only [hclose]
  rfl

/-- A step neither reads nor changes the other client objects. -/
theorem act_set_object (hact : state.act action = some after) (haccess : ¬ state.accesses action client)
    (object : NetClient Buf) : (state.set_object client object).act action = some (after.set_object client object) := by
  have hother : state.served_client action ≠ some client := fun hserved => haccess (Or.inr hserved)
  have hserved : ∀ served, state.served_client action = some served → served ≠ client := by
    rintro served hserved rfl
    exact hother hserved
  cases action with
  | build =>
    obtain ⟨hpossible, rfl⟩ := only_if_eq_some.mp hact
    exact only_if_eq_some.mpr ⟨hpossible, build_set_object (fun hqueued => haccess (Or.inl ⟨rfl, hqueued⟩)) object⟩
  | accept fd =>
    obtain ⟨hpossible, rfl⟩ := only_if_eq_some.mp hact
    exact only_if_eq_some.mpr ⟨hpossible, accept_set_object hother object fd⟩
  | drain =>
    obtain ⟨hpossible, rfl⟩ := only_if_eq_some.mp hact
    exact only_if_eq_some.mpr ⟨hpossible, drain_set_object object⟩
  | visit visited result =>
    obtain ⟨⟨hposition, hpossible⟩, rfl⟩ := only_if_eq_some.mp hact
    have hne := hserved visited rfl
    have hsame : (state.set_object client object).connector.clients visited = state.connector.clients visited :=
      clients_set_other hne
    refine only_if_eq_some.mpr ⟨⟨hposition, ?_⟩, visit_set_object hne object result⟩
    rw [hsame]
    exact hpossible
  | enqueue enqueued next_client target =>
    obtain ⟨hpossible, rfl⟩ := only_if_eq_some.mp hact
    refine only_if_eq_some.mpr ⟨hpossible, ?_⟩
    cases target with
    | none => rfl
    | some id => rfl
  | cleanup_action =>
    obtain ⟨hpossible, rfl⟩ := only_if_eq_some.mp hact
    exact only_if_eq_some.mpr ⟨hpossible, cleanup_action_set_object hother object⟩
  | cleanup_com =>
    obtain ⟨hpossible, rfl⟩ := only_if_eq_some.mp hact
    exact only_if_eq_some.mpr ⟨hpossible, cleanup_com_set_object hother object⟩
  | worker_test id =>
    obtain ⟨hpossible, rfl⟩ := only_if_eq_some.mp hact
    exact only_if_eq_some.mpr ⟨hpossible, test_stop_set_object object id⟩
  | worker_take id =>
    obtain ⟨hpossible, rfl⟩ := only_if_eq_some.mp hact
    exact only_if_eq_some.mpr ⟨hpossible, take_set_object hother object id⟩
  | worker_process id held success_flag =>
    obtain ⟨hpossible, rfl⟩ := only_if_eq_some.mp hact
    exact only_if_eq_some.mpr ⟨hpossible, process_set_object (hserved held rfl) object id success_flag⟩
  | worker_hand_back id held =>
    obtain ⟨hpossible, rfl⟩ := only_if_eq_some.mp hact
    exact only_if_eq_some.mpr ⟨hpossible, hand_back_set_object (hserved held rfl) object id⟩
  | worker_close id held =>
    obtain ⟨hpossible, rfl⟩ := only_if_eq_some.mp hact
    exact only_if_eq_some.mpr ⟨hpossible, close_set_object (hserved held rfl) object id⟩
  | signal_write =>
    obtain ⟨hpossible, rfl⟩ := only_if_eq_some.mp hact
    exact only_if_eq_some.mpr ⟨hpossible, signal_write_set_object object⟩
  | _ =>
    obtain ⟨hpossible, rfl⟩ := only_if_eq_some.mp hact
    exact only_if_eq_some.mpr ⟨hpossible, rfl⟩

/-- The client objects that a step accesses are in a place of which it has the exclusive use. -/
theorem Invariant.accesses (h : Invariant strict state place stamp) (hact : state.act action = some after)
    (haccess : state.accesses action client) : Serves place action client := by
  obtain ⟨rfl, hqueued⟩ | hserved := haccess
  · exact .built client (h.consistent.linked.follow_queued MAX_CONNECTIONS client hqueued)
  · exact h.serves hact hserved

/-- A step that takes a client from `action_queue` is one of the thread that owns the lock of the queue. -/
theorem ActionLock.takes_pending (h : state.ActionLock) (hact : state.act action = some after)
    (huses : action.uses_action_queue = true) : state.action_queue_lock = action.thread :=
  (owns_of_section h.lock (action_section_of_uses hact huses)).2

/-- Of two threads that can take a step, one leaves a client object alone. -/
theorem Serves.same_thread {first second : Action} {other : State Buf} (hlock : state.ActionLock)
    (hfirst : state.act first = some after) (hsecond : state.act second = some other)
    (h : Serves place first client) (h' : Serves place second client) : first.thread = second.thread := by
  obtain ⟨hplace, hthread⟩ | ⟨hplace, huses⟩ | ⟨id, role, hplace, hthread⟩ := h.thread
  · obtain ⟨_, hthread'⟩ | ⟨hplace', _⟩ | ⟨id', role', hplace', _⟩ := h'.thread
    · exact hthread.trans hthread'.symm
    · simp [hplace'] at hplace
    · simp [hplace'] at hplace
  · obtain ⟨hplace', _⟩ | ⟨_, huses'⟩ | ⟨id', role', hplace', _⟩ := h'.thread
    · simp [hplace] at hplace'
    · exact (hlock.takes_pending hfirst huses).symm.trans (hlock.takes_pending hsecond huses')
    · simp [hplace] at hplace'
  · obtain ⟨hplace', _⟩ | ⟨hplace', _⟩ | ⟨id', role', hplace', hthread'⟩ := h'.thread
    · simp [hplace] at hplace'
    · simp [hplace] at hplace'
    · obtain ⟨hsame, _⟩ := Place.held.inj (hplace.symm.trans hplace')
      rw [hthread, hthread', hsame]

/-- No data race on a client object: of the steps that two threads can take in a state, one neither reads nor
changes the object, whatever the object contains. -/
theorem objects_not_shared [LawfulCharBuffer Buf] {first second : Action} {other : State Buf}
    (h : state.ReachableWhere Unraised) (hfirst : state.step first = some after)
    (hsecond : state.step second = some other) (hthreads : first.thread ≠ second.thread) (client : ClientPtr) :
    (∀ object, (state.set_object client object).step first = some (after.set_object client object)) ∨
      ∀ object, (state.set_object client object).step second = some (other.set_object client object) := by
  obtain ⟨place, stamp, hinvariant⟩ := Reachable.sound h.reaches
  have hlock := ReachableWhere.action_lock (fun _ _ hunraised => hunraised) h
  obtain ⟨hrunning, hact⟩ := step_eq_some.mp hfirst
  obtain ⟨_, hact'⟩ := step_eq_some.mp hsecond
  by_cases haccess : state.accesses first client
  · right
    have haccess' : ¬ state.accesses second client := fun haccess' =>
      hthreads (Serves.same_thread hlock hact hact' (hinvariant.accesses hact haccess)
        (hinvariant.accesses hact' haccess'))
    exact fun object => step_eq_some.mpr ⟨hrunning, act_set_object hact' haccess' object⟩
  · left
    exact fun object => step_eq_some.mpr ⟨hrunning, act_set_object hact haccess object⟩

/-- A worker processes a message while the selector visits another client. -/
def busy_beside_run : List Action :=
  Action.startup ++ Action.accept_round 6 23 [] ++ Action.accept_round 7 22 [23] ++
    Action.round [6] [] [] (Action.complete 23 (some 22) [0, 0, 0, 4] ++ Action.skip [22]) ++
    [.worker_lock 0, .worker_test 0, .worker_take 0, .test_signal, .build_lock, .build, .select [7] [], .pass_lock,
      .pass_first]

theorem objects_not_shared_busy : ∃ state after other : State BoundedBuffer,
    state.step (.worker_process 0 23 false) = some after ∧ state.step (.visit 22 (.received [0])) = some other ∧
      ∀ client, (∀ object, (state.set_object client object).step (.worker_process 0 23 false) =
          some (after.set_object client object)) ∨
        ∀ object, (state.set_object client object).step (.visit 22 (.received [0])) =
          some (other.set_object client object) := by
  obtain ⟨state, hreached, hfound⟩ := exists_reachesFromWhere_of_runWhere
    (by decide +kernel : ((runWhere State.step (fun state action => state.Unraised action)
      (State.initial BoundedBuffer (.filled 0xA5)) busy_beside_run).any fun state =>
        (state.step (.worker_process 0 23 false)).isSome = true ∧
          (state.step (.visit 22 (.received [0]))).isSome = true) = true)
  obtain ⟨hfirst, hsecond⟩ := of_decide_eq_true hfound
  obtain ⟨after, hfirst⟩ := Option.isSome_iff_exists.mp hfirst
  obtain ⟨other, hsecond⟩ := Option.isSome_iff_exists.mp hsecond
  have hunraised : state.ReachableWhere Unraised := hreached.weaken (fun _ _ hguard => of_decide_eq_true hguard)
  exact ⟨state, after, other, hfirst, hsecond, objects_not_shared hunraised hfirst hsecond (by simp [Action.thread])⟩

end

end State

end ufh
