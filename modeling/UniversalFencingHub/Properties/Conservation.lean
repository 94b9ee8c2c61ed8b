import UniversalFencingHub.Threads.Pending

open transition linked_list

namespace ufh

/-- All threads that hold clients. -/
def threads : List Thread := .selector :: (List.finRange MAX_CONNECTIONS).map .worker

theorem threads_nodup : threads.Nodup := by
  refine List.nodup_cons.mpr ⟨by simp, (List.nodup_finRange _).map ?_⟩
  intro first second heq
  exact Thread.worker.inj heq

theorem mem_threads (thread : Thread) : thread ∈ threads := by
  cases thread with
  | selector => exact List.mem_cons_self
  | worker id => exact List.mem_cons_of_mem _ (List.mem_map_of_mem (List.mem_finRange id))

namespace State

variable {Buf : Type} {before after state : State Buf} {place : ClientPtr → Place} {stamp : ClientPtr → Nat}
  {client closed : ClientPtr} {action : Action} {strict : Prop}

/-- The clients that the threads hold. -/
def held_clients (state : State Buf) : List ClientPtr :=
  threads.filterMap fun thread => (state.holding thread).map Prod.fst

/-- Every client object is in exactly one place: it is free, or it is on one of the two queues, or
one thread holds it. The queues are well linked from end to end. -/
structure Conserved (state : State Buf) : Prop where
  com_queue : state.connector.com_queue.Represents state.connector.nodes state.com_clients
  action_queue : state.connector.action_queue.Represents state.connector.nodes state.connector.action_clients
  places : (state.connector.client_pool.free_objects ++ state.com_clients ++ state.connector.action_clients ++
    state.held_clients).Perm (List.finRange MAX_CONNECTIONS)

theorem mem_held_clients (h : Holding state.holding place) :
    client ∈ state.held_clients ↔ ∃ thread role, place client = .held thread role := by
  simp only [held_clients, List.mem_filterMap, mem_threads, true_and, Option.map_eq_some_iff, Prod.exists]
  constructor
  · rintro ⟨thread, _, role, hheld, rfl⟩
    exact ⟨thread, role, (h thread _ role).mp hheld⟩
  · rintro ⟨thread, role, hplace⟩
    exact ⟨thread, client, role, (h thread client role).mpr hplace, rfl⟩

theorem held_clients_nodup (h : Holding state.holding place) : state.held_clients.Nodup := by
  refine threads_nodup.filterMap ?_
  intro first second held hfirst hsecond
  obtain ⟨⟨_, role⟩, hholds, rfl⟩ := Option.map_eq_some_iff.mp hfirst
  obtain ⟨⟨_, role'⟩, hholds', rfl⟩ := Option.map_eq_some_iff.mp hsecond
  have hplace := (h _ _ _).mp hholds
  rw [(h _ _ _).mp hholds', Place.held.injEq] at hplace
  exact hplace.1.symm

section

variable [CharBuffer Buf]

/-- The walk over `com_queue` meets exactly the queued clients. -/
theorem Invariant.represents_com (h : Invariant True state place stamp) :
    state.connector.com_queue.Represents state.connector.nodes state.com_clients ∧
      ∀ client, client ∈ state.com_clients ↔ place client = .queued := by
  obtain ⟨queued, hrepresents, hmem⟩ := (h.complete trivial).contents
  have hwalk : state.com_clients = queued := hrepresents.walk
  rw [hwalk]
  exact ⟨hrepresents, hmem⟩

theorem Invariant.conserved (h : Invariant True state place stamp) : state.Conserved := by
  obtain ⟨hcom, hqueued⟩ := h.represents_com
  obtain ⟨haction, hpending⟩ := h.consistent.linked.represents_actions
  have hfree := h.consistent.pooled.free_iff
  have hheld : ∀ client, client ∈ state.held_clients ↔ ∃ thread role, place client = .held thread role :=
    fun _ => mem_held_clients h.holding
  refine ⟨hcom, haction, ?_⟩
  rw [List.perm_ext_iff_of_nodup _ (List.nodup_finRange _)]
  · intro client
    refine iff_of_true ?_ (List.mem_finRange client)
    simp only [List.mem_append, hfree, hqueued, hpending, hheld]
    cases hplace : place client with
    | free => simp
    | queued => simp
    | pending => simp
    | held thread role => simp
    | lost => exact absurd hplace ((h.complete trivial).not_lost client)
  · have hapart : ∀ {first second : List ClientPtr}, (∀ client, client ∈ first → client ∉ second) →
        ∀ client ∈ first, ∀ other ∈ second, client ≠ other := fun h client hfirst _ hsecond heq =>
      h client hfirst (heq ▸ hsecond)
    refine List.nodup_append.mpr ⟨List.nodup_append.mpr ⟨List.nodup_append.mpr
      ⟨h.consistent.pooled.valid.nodup, hcom.nodup, hapart ?_⟩, haction.nodup, hapart ?_⟩,
      held_clients_nodup h.holding, hapart ?_⟩
    · intro client hclient
      rw [hqueued, (hfree client).mp hclient]
      simp
    · intro client hclient
      rw [hpending]
      simp only [List.mem_append, hfree, hqueued] at hclient
      rcases hclient with hplace | hplace <;> simp [hplace]
    · intro client hclient
      rw [hheld]
      simp only [List.mem_append, hfree, hqueued, hpending] at hclient
      rcases hclient with (hplace | hplace) | hplace <;> simp [hplace]

/-- What is left of both queues when a client has been closed. -/
structure Closes (before after : State Buf) (client : ClientPtr) : Prop where
  com_clients : after.com_clients = before.com_clients.filter (· ≠ client)
  action_clients : after.connector.action_clients = before.connector.action_clients.filter (· ≠ client)

/-- A client that has become free was closed. -/
theorem freed_eq (h : Consistent before.connector place stamp)
    (h' : Consistent after.connector (Function.update place closed .free) stamp)
    (hused : client ∉ before.connector.client_pool.free_objects)
    (hfree : client ∈ after.connector.client_pool.free_objects) : client = closed := by
  rw [h.pooled.free_iff] at hused
  rw [h'.pooled.free_iff, Place.update_iff_of_target] at hfree
  exact hfree.resolve_right hused

/-- No client becomes free where the free clients stay the same. -/
theorem not_freed {place' : ClientPtr → Place} {stamp' : ClientPtr → Nat} (h : Consistent before.connector place stamp)
    (h' : Consistent after.connector place' stamp') (hsame : ∀ client, place' client = .free ↔ place client = .free)
    (hused : client ∉ before.connector.client_pool.free_objects) :
    client ∉ after.connector.client_pool.free_objects := by
  rw [h.pooled.free_iff] at hused
  rwa [h'.pooled.free_iff, hsame]

/-- A queued client that is closed leaves the other queued clients in their order. -/
theorem Invariant.walk_remove (h : Invariant True state place stamp) (hqueued : place client = .queued) :
    follow (state.connector.com_queue.remove state.connector.nodes client).2.next MAX_CONNECTIONS
      (state.connector.com_queue.remove state.connector.nodes client).1.get_first =
        state.com_clients.filter (· ≠ client) := by
  obtain ⟨hrepresents, hmem⟩ := h.represents_com
  obtain ⟨front, back, hsplit⟩ := List.append_of_mem ((hmem client).mpr hqueued)
  rw [hsplit] at hrepresents ⊢
  have hfresh := (List.nodup_cons.mp (List.nodup_middle.mp hrepresents.nodup)).1
  have hothers : ∀ other ∈ front ++ back, decide (other ≠ client) = true := by
    intro other hother
    exact decide_eq_true (ne_of_mem_of_not_mem hother hfresh)
  rw [hrepresents.remove.walk, List.filter_append, List.filter_cons_of_neg (by simp), ← List.filter_append,
    List.filter_eq_self.mpr hothers]

omit [CharBuffer Buf] in
theorem com_clients_empty (hempty : state.connector.com_queue.head_node = none) : state.com_clients = [] := by
  unfold com_clients Queue.get_first
  rw [hempty]
  rfl

/-- Closing a client that is on no queue leaves an empty `com_queue` empty. -/
theorem close_empty (connector : Connector Buf) (hdetached : Queue.Detached connector.nodes client) :
    (connector.close_connection client).com_queue.head_node = none :=
  (Queue.remove_detached connector.com_queue connector.nodes client hdetached).1

theorem Invariant.action_clients_kept (h : Invariant strict before place stamp) (hclosed : place client ≠ .pending)
    (hkept : after.connector.action_clients = before.connector.action_clients) :
    after.connector.action_clients = before.connector.action_clients.filter (· ≠ client) := by
  obtain ⟨_, hmem⟩ := h.consistent.linked.represents_actions
  rw [hkept, List.filter_eq_self.mpr]
  intro other hother
  refine decide_eq_true (fun heq => hclosed ?_)
  rw [← heq]
  exact (hmem other).mp hother

/-- Closing a client that a thread holds, while `com_queue` is empty. -/
theorem Invariant.closes_held [LawfulCharBuffer Buf] (h : Invariant True before place stamp) {thread : Thread}
    {role : Role} (hheld : place closed = .held thread role) (hempty : before.connector.com_queue.head_node = none)
    (hconnector : after.connector = before.connector.close_connection closed)
    (hused : client ∉ before.connector.client_pool.free_objects)
    (hfree : client ∈ after.connector.client_pool.free_objects) : Closes before after client := by
  have hoff : (place closed).OffLists := by rw [hheld]; trivial
  have hconsistent : Consistent after.connector (Function.update place closed .free) stamp := by
    rw [hconnector]
    exact h.consistent.close_connection (Or.inr hoff)
  obtain rfl := freed_eq h.consistent hconsistent hused hfree
  have hlinked := h.consistent.linked
  have hdetached := hlinked.detached client (by simp [hheld]) (by simp [hheld])
  have hgone : after.connector.com_queue.head_node = none := by
    rw [hconnector]
    exact close_empty before.connector hdetached
  constructor
  · rw [com_clients_empty hempty, com_clients_empty hgone]
    rfl
  · refine h.action_clients_kept (by simp [hheld]) ?_
    rw [hconnector]
    exact KeepsPending.walk (.close hlinked (Or.inr hoff)) hlinked

theorem Invariant.closes_visited [LawfulCharBuffer Buf] (h : Invariant True before place stamp) {result : IoResult}
    (hposition : before.selector = .pass (some closed))
    (hpossible : (before.connector.clients closed).io_possible before.read_fd_set before.write_fd_set result)
    (hused : client ∉ before.connector.client_pool.free_objects)
    (hfree : client ∈ (before.visit closed result).connector.client_pool.free_objects) :
    Closes before (before.visit closed result) client := by
  have hcursor : before.selector.cursor = some closed := by rw [hposition]; rfl
  have hqueued := h.interest.cursor closed hcursor
  have hkeeps := visit_keeps_pending h hposition hpossible
  by_cases hpipe : result = .broken_pipe
  · simp only [State.visit, if_pos hpipe] at hfree
    exact absurd hfree hused
  · obtain ⟨hread, hwrite⟩ := h.interest.fits closed hqueued (Or.inr ⟨closed, hcursor, le_rfl⟩)
    obtain ⟨hpending, hrest⟩ := h.consistent.perform_io hqueued hread hwrite hpossible hpipe
    rw [visit_eq hpipe] at hfree hkeeps ⊢
    cases hdone : (before.connector.perform_io before.read_fd_set before.write_fd_set closed result).2 with
    | true =>
      obtain ⟨hconsistent, _⟩ := hpending hdone
      have hsame : ∀ other,
          Function.update place closed (.held .selector .completed) other = .free ↔ place other = .free :=
        Place.update_iff (by simp [hqueued]) (by simp)
      exact absurd hfree (not_freed h.consistent hconsistent hsame hused)
    | false =>
      obtain ⟨hconsistent, _⟩ | ⟨hconsistent, hunlinks⟩ := hrest hdone
      · exact absurd hfree (not_freed h.consistent hconsistent (fun _ => Iff.rfl) hused)
      · obtain rfl := freed_eq h.consistent hconsistent hused hfree
        obtain ⟨hqueue, hnodes, _⟩ := hunlinks
        refine ⟨?_, h.action_clients_kept (by simp [hqueued]) (hkeeps.walk h.consistent.linked)⟩
        rw [← h.walk_remove hqueued, com_clients]
        simp only [hqueue, hnodes]

omit [CharBuffer Buf] in
theorem filter_head {clients : List ClientPtr} (hhead : clients.head? = some client) (hnodup : clients.Nodup) :
    clients.filter (· ≠ client) = clients.tail := by
  obtain ⟨rest, rfl⟩ := List.head?_eq_some_iff.mp hhead
  have hfresh := (List.nodup_cons.mp hnodup).1
  have hothers : ∀ other ∈ rest, decide (other ≠ client) = true := by
    intro other hother
    exact decide_eq_true (ne_of_mem_of_not_mem hother hfresh)
  rw [List.filter_cons_of_neg (by simp), List.filter_eq_self.mpr hothers, List.tail_cons]

theorem Invariant.closes_pending [LawfulCharBuffer Buf] (h : Invariant True before place stamp)
    (horderly : before.Orderly .cleanup_action) (hused : client ∉ before.connector.client_pool.free_objects)
    (hfree : client ∈ before.cleanup_action.connector.client_pool.free_objects) :
    Closes before before.cleanup_action client := by
  have hwalk := cleanup_action_clients h
  obtain ⟨hrepresents, _⟩ := h.consistent.linked.represents_actions
  obtain ⟨_, hnone⟩ | ⟨closed, hhead, hpending, hfirst, hconsistent⟩ := h.consistent.action_remove_first .selector
  · simp only [State.cleanup_action, hnone] at hfree
    exact absurd hfree hused
  · have hempty : before.connector.com_queue.head_node = none := horderly (by simp [hhead])
    rw [cleanup_action_eq hfirst] at hfree hwalk ⊢
    have hoff : (Function.update place closed (.held .selector .completed) closed).OffLists := by
      rw [Function.update_self]
      trivial
    have hclosed := hconsistent.close_connection (Or.inr hoff)
    rw [Function.update_idem] at hclosed
    obtain rfl := freed_eq h.consistent hclosed hused hfree
    have hdetached := hconsistent.linked.detached client (by simp) (by simp)
    constructor
    · rw [com_clients_empty hempty, com_clients_empty (close_empty before.connector.action_remove_first.2 hdetached)]
      rfl
    · rw [hwalk, filter_head _ hrepresents.nodup]
      rw [← hrepresents.head]
      exact hhead

theorem Invariant.closes_queued [LawfulCharBuffer Buf] (h : Invariant True before place stamp)
    (horderly : before.Orderly .cleanup_com) (hused : client ∉ before.connector.client_pool.free_objects)
    (hfree : client ∈ before.cleanup_com.connector.client_pool.free_objects) :
    Closes before before.cleanup_com client := by
  have hwalk := cleanup_com_clients h
  obtain ⟨hrepresents, hmem⟩ := h.represents_com
  obtain ⟨_, hnone⟩ | ⟨closed, hhead, hqueued, hfirst, hconsistent⟩ := h.consistent.com_remove_first .selector
  · rw [cleanup_com_empty hnone] at hfree
    exact absurd hfree hused
  · rw [cleanup_com_eq hfirst] at hfree hwalk ⊢
    have hoff : (Function.update place closed (.held .selector .ended) closed).OffLists := by
      rw [Function.update_self]
      trivial
    have hclosed := hconsistent.close_connection (Or.inr hoff)
    rw [Function.update_idem] at hclosed
    obtain rfl := freed_eq h.consistent hclosed hused hfree
    have hdetached := hconsistent.linked.detached client (by simp) (by simp)
    have hfirst : before.com_clients.head? = some client := by rw [← hrepresents.head]; exact hhead
    obtain ⟨rest, hclients⟩ := List.head?_eq_some_iff.mp hfirst
    have hlast : before.com_clients.getLast? = some client := by
      rw [← hrepresents.tail, ← show before.connector.com_queue.head_node = _ from horderly]
      exact hhead
    have hnodup := hrepresents.nodup
    refine ⟨?_, h.action_clients_kept (by simp [hqueued]) hwalk⟩
    rw [com_clients_empty (close_empty before.connector.com_remove_first.2 hdetached), filter_head hfirst hnodup]
    rw [hclients] at hlast hnodup ⊢
    cases rest with
    | nil => rfl
    | cons second rest =>
      rw [List.getLast?_cons_cons] at hlast
      exact absurd (List.mem_of_getLast? hlast) (List.nodup_cons.mp hnodup).1

/-- Closing one client removes that client only. -/
theorem Invariant.closes [LawfulCharBuffer Buf] (h : Invariant True before place stamp)
    (horderly : before.Orderly action) (hact : before.act action = some after)
    (hused : client ∉ before.connector.client_pool.free_objects)
    (hfree : client ∈ after.connector.client_pool.free_objects) : Closes before after client := by
  have hsound := h.act (fun _ => horderly) hact
  cases haction : action.on_lists with
  | false =>
    obtain ⟨_, hpool⟩ := act_elsewhere hact haction
    rw [hpool] at hfree
    exact absurd hfree hused
  | true =>
    cases action with
    | accept fd =>
      obtain ⟨⟨_, hpossible⟩, rfl⟩ := only_if_eq_some.mp hact
      unfold State.accept at hfree
      cases haccept : before.connector.accept fd with
      | none =>
        simp only [haccept] at hfree
        exact absurd hfree hused
      | some accepted =>
        obtain ⟨taken, connector⟩ := accepted
        simp only [haccept] at hfree
        obtain ⟨hplace, hconsistent, _⟩ := h.consistent.accept hpossible haccept
        rw [hconsistent.pooled.free_iff, Place.update_iff_of_source (by simp), ← h.consistent.pooled.free_iff] at hfree
        exact absurd hfree.2 hused
    | accept_add other =>
      obtain ⟨_, rfl⟩ := only_if_eq_some.mp hact
      exact absurd hfree hused
    | visit closed result =>
      obtain ⟨⟨hposition, hpossible⟩, rfl⟩ := only_if_eq_some.mp hact
      exact h.closes_visited hposition hpossible hused hfree
    | enqueue other next_client target =>
      obtain ⟨_, rfl⟩ := only_if_eq_some.mp hact
      cases target with
      | none => exact absurd hfree hused
      | some id => exact absurd hfree hused
    | cleanup_action =>
      obtain ⟨_, rfl⟩ := only_if_eq_some.mp hact
      exact h.closes_pending horderly hused hfree
    | cleanup_com =>
      obtain ⟨_, rfl⟩ := only_if_eq_some.mp hact
      exact h.closes_queued horderly hused hfree
    | worker_take id =>
      obtain ⟨_, rfl⟩ := only_if_eq_some.mp hact
      rw [take_client_pool] at hfree
      exact absurd hfree hused
    | worker_hand_back id closed =>
      obtain ⟨⟨hposition, _⟩, rfl⟩ := only_if_eq_some.mp hact
      cases hsignal : before.signal_flag with
      | false =>
        rw [hand_back_connector hsignal] at hfree
        exact absurd hfree hused
      | true =>
        have hheld := (h.holding _ _ _).mp (holding_worker hposition)
        rw [hand_back_eq_close hsignal] at hfree ⊢
        exact h.closes_held hheld (horderly hsignal) rfl hused hfree
    | worker_close id closed =>
      obtain ⟨hposition, rfl⟩ := only_if_eq_some.mp hact
      have hheld := (h.holding _ _ _).mp (holding_worker hposition)
      exact h.closes_held hheld horderly rfl hused hfree
    | _ => cases haction

/-- In a run without any of the errors, every client object is always in exactly one place, and a
step that frees a client leaves the others on both queues in their order. -/
theorem clients_conserved [LawfulCharBuffer Buf] (h : state.ReachableWhere State.Orderly) :
    state.Conserved ∧ ∀ (action : Action) (after : State Buf) (client : ClientPtr), state.Orderly action →
      state.step action = some after → client ∉ state.connector.client_pool.free_objects →
      client ∈ after.connector.client_pool.free_objects → Closes state after client := by
  obtain ⟨place, stamp, hinvariant⟩ := ReachableWhere.sound (fun _ _ hcondition => hcondition) h
  refine ⟨hinvariant.conserved, fun action after client horderly hstep hused hfree => ?_⟩
  exact hinvariant.closes horderly (step_eq_some.mp hstep).2 hused hfree

/-- A worker has to close the only connection, whose message is of an unknown type. -/
def rejected_run : List Action :=
  Action.startup ++ Action.accept_round 6 23 [] ++ Action.round [6] [] [] (Action.complete 23 none [0, 2, 0, 4]) ++
    Action.work 0 23 false

theorem clients_conserved_rejected : ∃ state after : State BoundedBuffer, state.held_clients = [23] ∧
    state.Conserved ∧ state.step (.worker_close 0 23) = some after ∧ Closes state after 23 := by
  obtain ⟨state, hreached, hfound⟩ := exists_reachesFromWhere_of_runWhere
    (by decide +kernel : ((runWhere State.step (fun state action => state.Orderly action)
      (State.initial BoundedBuffer (.filled 0xA5)) rejected_run).any fun state =>
        state.held_clients = [23] ∧ state.connector.com_queue.head_node = none ∧
          23 ∉ state.connector.client_pool.free_objects ∧
          (state.step (.worker_close 0 23)).any fun after => 23 ∈ after.connector.client_pool.free_objects) = true)
  obtain ⟨hheld, hempty, hused, hany⟩ := of_decide_eq_true hfound
  obtain ⟨after, hstep, hfree⟩ := (Option.any_eq_true _ _).mp hany
  have horderly : state.ReachableWhere State.Orderly := hreached.weaken (fun _ _ hguard => of_decide_eq_true hguard)
  obtain ⟨hconserved, hcloses⟩ := clients_conserved horderly
  exact ⟨state, after, hheld, hconserved, hstep, hcloses (.worker_close 0 23) after 23 hempty hstep hused
      (of_decide_eq_true hfree)⟩

/-- The same with a second connection that waits on `com_queue`. -/
def rejected_beside_run : List Action :=
  Action.startup ++ Action.accept_round 6 23 [] ++ Action.accept_round 7 22 [23] ++
    Action.round [6] [] [] (Action.complete 23 (some 22) [0, 2, 0, 4] ++ Action.skip [22]) ++ Action.work 0 23 false ++
    [.worker_close 0 23]

theorem clients_not_conserved : ¬ ∀ state : State BoundedBuffer, state.Reachable →
    state.Conserved ∧ ∀ (action : Action) (after : State BoundedBuffer) (client : ClientPtr),
      state.step action = some after → client ∉ state.connector.client_pool.free_objects →
      client ∈ after.connector.client_pool.free_objects → Closes state after client := by
  intro hconserved
  obtain ⟨state, hreached, hfound⟩ := exists_reachesFrom_of_run
    (by decide +kernel : ((run State.step (State.initial BoundedBuffer (.filled 0xA5)) rejected_beside_run).any
      fun state => 22 ∉ state.connector.client_pool.free_objects ++ state.com_clients ++
        state.connector.action_clients ++ state.held_clients) = true)
  obtain ⟨⟨_, _, hplaces⟩, _⟩ := hconserved state hreached
  exact of_decide_eq_true hfound (hplaces.mem_iff.mpr (List.mem_finRange 22))

end

end State

end ufh
