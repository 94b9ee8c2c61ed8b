import UniversalFencingHub.Library.Fifo
import UniversalFencingHub.Properties.IoPass
import UniversalFencingHub.ServerConnector.Separate
import UniversalFencingHub.Threads.Moves
import UniversalFencingHub.Threads.Serving

open linked_list transition

namespace ufh

/-- The client that a worker is about to process. -/
def WorkerPosition.processing : WorkerPosition → List ClientPtr
  | .process client => [client]
  | _ => []

theorem Action.worker_of_thread {action : Action} {id : WorkerId} (h : action.thread = some (.worker id)) :
    action.worker = some id := by
  cases action with
  | _ => cases h <;> rfl

theorem SelectorPosition.holding_of_handing {position : SelectorPosition} {client : ClientPtr}
    (h : client ∈ position.handing) : position.holding = some (client, .completed) := by
  cases position with
  | enqueue_lock handed _ => rw [List.mem_singleton.mp h, holding]
  | enqueue handed _ => rw [List.mem_singleton.mp h, holding]
  | _ => cases h

namespace State

variable {Buf : Type}

/-- The request that a client holds: its connection and its message. -/
def held_request (state : State Buf) (client : ClientPtr) : Nat × Message :=
  (state.connector.connection client, (state.connector.clients client).message)

/-- The requests that have been completed and that no worker has taken. -/
def waiting (state : State Buf) : List (Nat × Message) :=
  (state.connector.action_clients ++ state.selector.handing).map state.held_request

/-- The requests that a step takes from `action_queue`, with the thread that takes them. The selector
takes them only in `cleanup()`. -/
def taken (state : State Buf) : Action → List (Thread × Nat × Message)
  | .worker_take id => (state.connector.action_clients.take 1).map fun client => (.worker id, state.held_request client)
  | .cleanup_action => (state.connector.action_clients.take 1).map fun client => (.selector, state.held_request client)
  | _ => []

/-- The requests that a step passes to `process_client_message`, with the thread that does so. -/
def processed (state : State Buf) : Action → List (Thread × Nat × Message)
  | .worker_process id client _ => [(.worker id, state.held_request client)]
  | _ => []

/-- The request that a worker is about to process. -/
def in_process (state : State Buf) (id : WorkerId) : List (Thread × Nat × Message) :=
  (state.workers id).processing.map fun client => (.worker id, state.held_request client)

variable [CharBuffer Buf] {before after state : State Buf} {id : WorkerId} {place : ClientPtr → Place}
  {stamp : ClientPtr → Nat} {action : Action} {client : ClientPtr}

/-- The requests that a step completes. -/
def completed (state : State Buf) : Action → List (Nat × Message)
  | .visit client result =>
    (state.visit client result).selector.handing.map (state.visit client result).held_request
  | _ => []

/-- `accept_connection` gives the new connection to the object that it took from the pool. -/
theorem accept_connection_of {connector accepted : Connector Buf} {fd : Int} {other : ClientPtr}
    (haccept : connector.accept fd = some (client, accepted))
    (hother : connector.client_pool.allocate.map Prod.fst ≠ some other) :
    accepted.connection other = connector.connection other := by
  unfold Connector.accept at haccept
  split at haccept
  · cases haccept
  · next allocated client_pool hallocate =>
    obtain ⟨rfl, rfl⟩ := Prod.mk.inj (Option.some.inj haccept)
    have hne : other ≠ allocated := by
      rintro rfl
      exact hother (by rw [hallocate]; rfl)
    exact Function.update_of_ne hne _ _

/-- A client in use keeps its request in the steps that do not work on it. -/
theorem Invariant.request_kept [LawfulCharBuffer Buf] (h : Invariant strict before place stamp)
    (hact : before.act action = some after)
    (hother : before.served_client action ≠ some client) : after.held_request client = before.held_request client := by
  have hconnection : after.connector.connection client = before.connector.connection client := by
    obtain hsame | ⟨fd, accepted, rfl, haccept⟩ := act_sockets hact
    · rw [hsame.connection]
    · exact accept_connection_of haccept hother
  unfold held_request
  rw [hconnection, act_clients h hact hother]

/-- The selector and the workers keep their hands off what waits for a worker. -/
theorem Invariant.waiting_kept [LawfulCharBuffer Buf] (h : Invariant strict before place stamp)
    (hact : before.act action = some after) (huses : action.uses_action_queue = false)
    (hclient : client ∈ before.connector.action_clients ++ before.selector.handing) :
    after.held_request client = before.held_request client := by
  apply h.request_kept hact
  intro hserved
  obtain ⟨_, hmem⟩ := h.consistent.linked.represents_actions
  have hplace : place client = .pending ∨ place client = .held .selector .completed := by
    obtain hpending | hhanding := List.mem_append.mp hclient
    · exact Or.inl ((hmem client).mp hpending)
    · exact Or.inr ((h.holding .selector client .completed).mp (SelectorPosition.holding_of_handing hhanding))
  obtain ⟨hserves, _⟩ | ⟨_, hqueue⟩ | ⟨id, role, hserves, _⟩ := (h.serves hact hserved).thread
  · obtain hplace | hplace := hplace
    · simp [hplace] at hserves
    · simp [hplace] at hserves
  · rw [huses] at hqueue
    cases hqueue
  · obtain hplace | hplace := hplace
    · simp [hplace] at hserves
    · simp [hplace] at hserves

theorem act_handing (hact : before.act action = some after) (hvisit : ∀ client result, action ≠ .visit client result)
    (henqueue : ∀ client next_client target, action ≠ .enqueue client next_client target) :
    after.selector.handing = before.selector.handing := by
  cases haction : action.by_selector with
  | false => rw [(act_aside hact haction).selector]
  | true =>
    have hnext := act_next hact haction
    generalize before.selector = position at hnext
    generalize after.selector = next at hnext
    cases hnext with
    | killed client result => exact absurd rfl (hvisit client result)
    | visited client result => exact absurd rfl (hvisit client result)
    | completed client result => exact absurd rfl (hvisit client result)
    | enqueued client next_client target => exact absurd rfl (henqueue client next_client target)
    | _ => rfl

/-- Taking the first client from `action_queue` leaves the other ones as they are. -/
theorem Invariant.removed_waiting [LawfulCharBuffer Buf] (h : Invariant strict before place stamp)
    (hact : before.act action = some after)
    (hserved : before.served_client action = before.connector.action_queue.head_node)
    (hclients : after.connector.action_clients = before.connector.action_clients.tail)
    (hhanding : after.selector.handing = before.selector.handing) :
    before.waiting = (before.connector.action_clients.take 1).map before.held_request ++ after.waiting := by
  obtain ⟨hrepresents, hmem⟩ := h.consistent.linked.represents_actions
  have hkept : ∀ client ∈ before.connector.action_clients.tail ++ before.selector.handing,
      after.held_request client = before.held_request client := by
    intro client hclient
    apply h.request_kept hact
    rw [hserved, hrepresents.head]
    intro hhead
    obtain ⟨rest, hcons⟩ := List.head?_eq_some_iff.mp hhead
    rw [hcons, List.tail_cons] at hclient
    obtain hclient | hclient := List.mem_append.mp hclient
    · have hnodup := hrepresents.nodup
      rw [hcons] at hnodup
      exact (List.nodup_cons.mp hnodup).1 hclient
    · have hheld := (h.holding .selector client .completed).mp (SelectorPosition.holding_of_handing hclient)
      have hpending := (hmem client).mp (by simp [hcons])
      rw [hheld] at hpending
      cases hpending
  unfold waiting
  rw [hclients, hhanding, List.map_congr_left hkept, ← List.map_append, ← List.append_assoc, ← List.drop_one,
    List.take_append_drop]

/-- What a step does with the requests that wait for a worker. -/
theorem Invariant.waiting_act [LawfulCharBuffer Buf] (h : Invariant strict before place stamp)
    (hact : before.act action = some after) :
    before.waiting ++ before.completed action = (before.taken action).map Prod.snd ++ after.waiting := by
  have hclients := h.action_clients hact
  obtain ⟨_, hmem⟩ := h.consistent.linked.represents_actions
  cases action with
  | visit client result =>
    obtain ⟨⟨hposition, _⟩, rfl⟩ := only_if_eq_some.mp hact
    have hnothing : before.selector.handing = [] := by rw [hposition]; rfl
    have hpending : before.connector.action_clients.map (before.visit client result).held_request =
        before.connector.action_clients.map before.held_request :=
      List.map_congr_left fun pending hclient =>
        h.waiting_kept hact rfl (List.mem_append_left _ hclient)
    change _ ++ (before.visit client result).selector.handing.map (before.visit client result).held_request =
      ((before.visit client result).connector.action_clients ++ (before.visit client result).selector.handing).map
        (before.visit client result).held_request
    rw [hclients, waiting, hnothing, List.append_nil, List.map_append]
    exact congrArg (· ++ _) hpending.symm
  | enqueue client next_client target =>
    obtain ⟨⟨hposition, _⟩, rfl⟩ := only_if_eq_some.mp hact
    have hhanding : before.selector.handing = [client] := by rw [hposition]; rfl
    have hemptied : (before.enqueue client next_client target).selector.handing = [] := by
      cases target with
      | none => rfl
      | some id => rfl
    have hkept : (before.enqueue client next_client target).held_request = before.held_request :=
      funext fun client => h.request_kept hact nofun
    change before.waiting ++ [] = (before.enqueue client next_client target).waiting
    rw [waiting, waiting, hclients, hhanding, hemptied, hkept, List.append_nil, List.append_nil]
    rfl
  | worker_take id =>
    have hremoved := h.removed_waiting hact rfl hclients (act_handing hact nofun nofun)
    rw [taken, List.map_map]
    exact (List.append_nil _).trans hremoved
  | cleanup_action =>
    have hremoved := h.removed_waiting hact rfl hclients (act_handing hact nofun nofun)
    rw [taken, List.map_map]
    exact (List.append_nil _).trans hremoved
  | _ =>
    have hhanding := act_handing hact nofun nofun
    have hkept : (after.connector.action_clients ++ after.selector.handing).map after.held_request =
        (before.connector.action_clients ++ before.selector.handing).map before.held_request := by
      rw [hclients, hhanding]
      exact List.map_congr_left fun client hclient => h.waiting_kept hact rfl hclient
    exact (List.append_nil _).trans hkept.symm

/-- A worker processes the request that it has taken. -/
theorem Invariant.in_process_take [LawfulCharBuffer Buf] (h : Invariant strict before place stamp)
    (id : WorkerId) : (before.take id).in_process id =
      (before.connector.action_clients.take 1).map fun client => (.worker id, before.held_request client) := by
  obtain ⟨hrepresents, _⟩ := h.consistent.linked.represents_actions
  obtain ⟨hhead, hnone⟩ | ⟨client, hhead, _, hfirst, _⟩ := h.consistent.take_action (.worker id)
  · have hempty : before.connector.action_clients = [] := List.head?_eq_none_iff.mp (hrepresents.head.symm.trans hhead)
    have hreturned : (before.take id).workers id = .returned := by
      simp only [State.take, hnone]
      exact Function.update_self ..
    rw [in_process, hreturned, hempty]
    rfl
  · obtain ⟨rest, hclients⟩ := List.head?_eq_some_iff.mp (hrepresents.head.symm.trans hhead)
    obtain ⟨hconnection, phase, hobject⟩ := take_action_object before.connector client
    have hprocess : (before.take id).workers id = .process client := by
      rw [take_eq hfirst]
      exact Function.update_self ..
    have hrequest : (before.take id).held_request client = before.held_request client := by
      unfold held_request
      rw [take_connector, hconnection, hobject]
      rfl
    rw [in_process, hprocess, hclients]
    exact congrArg (fun request => [(Thread.worker id, request)]) hrequest

omit [CharBuffer Buf] in
theorem not_taken (state : State Buf) (hworker : action.worker ≠ some id) :
    (state.taken action).filter (·.1 = .worker id) = [] ∧ (state.processed action).filter (·.1 = .worker id) = [] := by
  cases action with
  | worker_take other =>
    have hne : other ≠ id := fun heq => hworker (congrArg some heq)
    refine ⟨List.filter_eq_nil_iff.mpr fun request hrequest => ?_, rfl⟩
    obtain ⟨_, _, rfl⟩ := List.mem_map.mp hrequest
    simpa using hne
  | cleanup_action =>
    refine ⟨List.filter_eq_nil_iff.mpr fun request hrequest => ?_, rfl⟩
    obtain ⟨_, _, rfl⟩ := List.mem_map.mp hrequest
    simp
  | worker_process other client success_flag =>
    have hne : other ≠ id := fun heq => hworker (congrArg some heq)
    exact ⟨rfl, by simp [processed, hne]⟩
  | _ => exact ⟨rfl, rfl⟩

/-- The steps of other threads leave the request that a worker is about to process alone. -/
theorem Invariant.in_process_kept [LawfulCharBuffer Buf] (h : Invariant strict before place stamp)
    (hact : before.act action = some after) (hworker : action.worker ≠ some id) :
    after.in_process id = before.in_process id := by
  have hkept : after.workers id = before.workers id ∨
      before.workers id = .asleep ∧ after.workers id = .locking := by
    cases hother : action.worker with
    | none => exact act_workers_woken hact hother id
    | some other =>
      left
      rw [(act_worker_moves hact hother).workers]
      refine Function.update_of_ne ?_ _ _
      rintro rfl
      exact hworker hother
  obtain hkept | ⟨hasleep, hwoken⟩ := hkept
  · cases hposition : before.workers id with
    | process client =>
      have hheld := (h.holding (.worker id) client .completed).mp (by rw [State.holding, hposition]; rfl)
      have hrequest : after.held_request client = before.held_request client := by
        apply h.request_kept hact
        intro hserved
        obtain ⟨hserves, _⟩ | ⟨hserves, _⟩ | ⟨other, role, hserves, hthread⟩ := (h.serves hact hserved).thread
        · simp [hheld] at hserves
        · simp [hheld] at hserves
        · rw [hheld] at hserves
          cases hserves
          exact hworker (Action.worker_of_thread hthread)
      rw [in_process, in_process, hkept, hposition]
      exact congrArg (fun request => [(Thread.worker id, request)]) hrequest
    | _ =>
      rw [in_process, in_process, hkept, hposition]
      rfl
  · rw [in_process, in_process, hasleep, hwoken]
    rfl

/-- What a step does with the request that a worker processes. -/
theorem Invariant.in_process_act [LawfulCharBuffer Buf] (h : Invariant strict before place stamp)
    (hact : before.act action = some after) (id : WorkerId) :
    before.in_process id ++ (before.taken action).filter (·.1 = .worker id) =
      (before.processed action).filter (·.1 = .worker id) ++ after.in_process id := by
  by_cases hworker : action.worker = some id
  · have htake : ∀ state : State Buf, (state.taken (.worker_take id)).filter (·.1 = .worker id) =
        (state.connector.action_clients.take 1).map fun client => (.worker id, state.held_request client) := by
      intro state
      refine List.filter_eq_self.mpr fun request hrequest => ?_
      obtain ⟨_, _, rfl⟩ := List.mem_map.mp hrequest
      simp
    have hnext := (act_worker_moves hact hworker).next
    unfold in_process
    generalize hbefore : before.workers id = position at hnext
    generalize hafter : after.workers id = next at hnext
    cases hnext with
    | taken client =>
      obtain ⟨_, rfl⟩ := only_if_eq_some.mp hact
      have hprocess := h.in_process_take id
      rw [in_process, hafter] at hprocess
      rw [htake, hprocess]
      rfl
    | found_empty =>
      obtain ⟨_, rfl⟩ := only_if_eq_some.mp hact
      have hprocess := h.in_process_take id
      rw [in_process, hafter] at hprocess
      rw [htake, hprocess]
      rfl
    | raised client success_flag => simp [WorkerPosition.processing, taken, processed]
    | answered client success_flag => simp [WorkerPosition.processing, taken, processed]
    | ended client success_flag => simp [WorkerPosition.processing, taken, processed]
    | _ => rfl
  · obtain ⟨htaken, hprocessed⟩ := before.not_taken hworker
    rw [htaken, hprocessed, h.in_process_kept hact hworker, List.append_nil, List.nil_append]

section

variable [LawfulCharBuffer Buf]

theorem waiting_fifo : Fifo State.step (fun state : State Buf => state.Reachable) State.waiting State.completed
    (fun state action => (state.taken action).map Prod.snd) where
  known before action after hbefore hstep := hbefore.tail trivial hstep
  conserved before action after hbefore hstep := by
    obtain ⟨_, _, hinvariant⟩ := Reachable.sound hbefore
    exact hinvariant.waiting_act (step_eq_some.mp hstep).2

theorem in_process_fifo (id : WorkerId) : Fifo State.step (fun state : State Buf => state.Reachable)
    (fun state => state.in_process id) (fun state action => (state.taken action).filter (·.1 = .worker id))
    (fun state action => (state.processed action).filter (·.1 = .worker id)) where
  known before action after hbefore hstep := hbefore.tail trivial hstep
  conserved before action after hbefore hstep := by
    obtain ⟨_, _, hinvariant⟩ := Reachable.sound hbefore
    exact hinvariant.in_process_act (step_eq_some.mp hstep).2 id

/-- Requests are dispatched in the order in which they were completed, over every run from every reachable state: each
is taken from `action_queue` once, by a worker or by `cleanup()`, none is lost or changed on the way, and every worker
passes the requests that it took to `process_client_message` once and in order. -/
theorem dispatch_in_order {actions : List Action} {first last : State Buf} (h : first.Reachable)
    (hrun : run State.step first actions = some last) :
    first.waiting ++ collect State.step State.completed first actions =
        (collect State.step State.taken first actions).map Prod.snd ++ last.waiting ∧
      ∀ id, first.in_process id ++ (collect State.step State.taken first actions).filter (·.1 = .worker id) =
        (collect State.step State.processed first actions).filter (·.1 = .worker id) ++ last.in_process id := by
  constructor
  · have hwaiting := waiting_fifo.run h hrun
    rwa [collect_map] at hwaiting
  · intro id
    have hprocess := (in_process_fifo id).run h hrun
    rwa [collect_filter, collect_filter] at hprocess

/-- Two requests arrive together, and a worker takes the first one. -/
def overtaking_run : List Action :=
  Action.startup ++ Action.accept_round 6 23 [] ++ Action.accept_round 7 22 [23] ++
    Action.round [6, 7] [] []
      (Action.complete 23 (some 22) [0, 0, 0, 4] ++ Action.complete 22 none [0, 0, 0, 4]) ++
    [.worker_lock 0, .worker_test 0, .worker_take 0]

/-- Another worker takes the second one and is the first to process its request. -/
def overtaken_run : List Action := [.worker_lock 1, .worker_test 1, .worker_take 1, .worker_process 1 22 false]

theorem dispatch_in_order_overtaking : ∃ first last : State BoundedBuffer,
    (first.waiting.map Prod.fst = [1] ∧ (first.in_process 0).map (·.2.1) = [0] ∧
        (collect State.step State.processed first overtaken_run).map (·.2.1) = [1]) ∧
      first.waiting ++ collect State.step State.completed first overtaken_run =
        (collect State.step State.taken first overtaken_run).map Prod.snd ++ last.waiting ∧
      ∀ id, first.in_process id ++ (collect State.step State.taken first overtaken_run).filter (·.1 = .worker id) =
        (collect State.step State.processed first overtaken_run).filter (·.1 = .worker id) ++ last.in_process id := by
  obtain ⟨first, hreachable, hfound⟩ := exists_reachesFrom_of_run
    (by decide +kernel : ((run State.step (initial BoundedBuffer (.filled 0xA5)) overtaking_run).any fun first =>
      (run State.step first overtaken_run).isSome = true ∧ first.waiting.map Prod.fst = [1] ∧
        (first.in_process 0).map (·.2.1) = [0] ∧
        (collect State.step State.processed first overtaken_run).map (·.2.1) = [1]) = true)
  simp only [Bool.decide_and, Bool.and_eq_true, decide_eq_true_eq] at hfound
  obtain ⟨last, hrun⟩ := Option.isSome_iff_exists.mp hfound.1
  exact ⟨first, last, hfound.2, dispatch_in_order hreachable hrun⟩

end

end State

end ufh
