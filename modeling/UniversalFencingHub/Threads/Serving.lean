import UniversalFencingHub.Properties.LockDiscipline
import UniversalFencingHub.Threads.Operations

open linked_list

namespace ufh

/-- Where the client objects are that a step reads or changes. -/
inductive Serves (place : ClientPtr → Place) : Action → ClientPtr → Prop where
  | accepted (fd : Int) (client : ClientPtr) (hfree : place client = .free) : Serves place (.accept fd) client
  | built (client : ClientPtr) (hqueued : place client = .queued) : Serves place .build client
  | visited (client : ClientPtr) (result : IoResult) (hqueued : place client = .queued) :
    Serves place (.visit client result) client
  | queued_closed (client : ClientPtr) (hqueued : place client = .queued) : Serves place .cleanup_com client
  | pending_closed (client : ClientPtr) (hpending : place client = .pending) : Serves place .cleanup_action client
  | taken (id : WorkerId) (client : ClientPtr) (hpending : place client = .pending) :
    Serves place (.worker_take id) client
  | held (action : Action) (id : WorkerId) (client : ClientPtr) (role : Role)
    (hthread : action.thread = some (.worker id)) (hheld : place client = .held (.worker id) role) :
    Serves place action client

/-- A client in the pool is touched by nothing but `accept_connection`. -/
theorem Serves.not_free {place : ClientPtr → Place} {action : Action} {client : ClientPtr}
    (h : Serves place action client) (haction : ∀ fd, action ≠ .accept fd) : place client ≠ .free := by
  cases h with
  | accepted fd _ _ => exact absurd rfl (haction fd)
  | built _ hqueued => simp [hqueued]
  | visited _ result hqueued => simp [hqueued]
  | queued_closed _ hqueued => simp [hqueued]
  | pending_closed _ hpending => simp [hpending]
  | taken id _ hpending => simp [hpending]
  | held _ id _ role _ hheld => simp [hheld]

/-- The thread that may touch a client is told by the place of the client. -/
theorem Serves.thread {place : ClientPtr → Place} {action : Action} {client : ClientPtr}
    (h : Serves place action client) :
    (place client = .free ∨ place client = .queued) ∧ action.thread = some .selector ∨
      place client = .pending ∧ action.uses_action_queue = true ∨
      ∃ id role, place client = .held (.worker id) role ∧ action.thread = some (.worker id) := by
  cases h with
  | accepted fd _ hfree => exact Or.inl ⟨Or.inl hfree, rfl⟩
  | built _ hqueued => exact Or.inl ⟨Or.inr hqueued, rfl⟩
  | visited _ result hqueued => exact Or.inl ⟨Or.inr hqueued, rfl⟩
  | queued_closed _ hqueued => exact Or.inl ⟨Or.inr hqueued, rfl⟩
  | pending_closed _ hpending => exact Or.inr (Or.inl ⟨hpending, rfl⟩)
  | taken id _ hpending => exact Or.inr (Or.inl ⟨hpending, rfl⟩)
  | held _ id _ role hthread hheld => exact Or.inr (Or.inr ⟨id, role, hheld, hthread⟩)

namespace State

variable {Buf : Type} [CharBuffer Buf] {before after : State Buf} {place : ClientPtr → Place}
  {stamp : ClientPtr → Nat} {action : Action} {client : ClientPtr}

theorem Invariant.allocated_free (h : Invariant strict before place stamp)
    (hallocated : before.connector.client_pool.allocate.map Prod.fst = some client) : place client = .free := by
  obtain ⟨⟨_, rest⟩, hallocate, rfl⟩ := Option.map_eq_some_iff.mp hallocated
  exact (h.consistent.pooled.allocate hallocate (by simp : Place.lost ≠ .free)).1

theorem Invariant.pending_head (h : Invariant strict before place stamp)
    (hhead : before.connector.action_queue.head_node = some client) : place client = .pending :=
  (h.consistent.linked.action_remove_first .selector .completed hhead).1

/-- The client that a step works on is where the step expects it. -/
theorem Invariant.serves (h : Invariant strict before place stamp) (hact : before.act action = some after)
    (hserved : before.served_client action = some client) : Serves place action client := by
  have hheld : ∀ id client role, (before.workers id).holding = some (client, role) →
      place client = .held (.worker id) role := fun id client role => (h.holding (.worker id) client role).mp
  cases action with
  | accept fd => exact .accepted fd client (h.allocated_free hserved)
  | visit visited result =>
    obtain rfl := Option.some.inj hserved
    obtain ⟨⟨hposition, _⟩, rfl⟩ := only_if_eq_some.mp hact
    exact .visited visited result (h.interest.cursor visited (by rw [hposition]; rfl))
  | cleanup_action => exact .pending_closed client (h.pending_head hserved)
  | cleanup_com => exact .queued_closed client (h.consistent.linked.head client hserved).1
  | worker_take id => exact .taken id client (h.pending_head hserved)
  | worker_process id held success_flag =>
    obtain rfl := Option.some.inj hserved
    obtain ⟨hposition, rfl⟩ := only_if_eq_some.mp hact
    exact .held _ id held .completed rfl (hheld id held _ (by rw [hposition]; rfl))
  | worker_hand_back id held =>
    obtain rfl := Option.some.inj hserved
    obtain ⟨⟨hposition, _⟩, rfl⟩ := only_if_eq_some.mp hact
    exact .held _ id held .answered rfl (hheld id held _ (by rw [hposition]; rfl))
  | worker_close id held =>
    obtain rfl := Option.some.inj hserved
    obtain ⟨hposition, rfl⟩ := only_if_eq_some.mp hact
    exact .held _ id held .ended rfl (hheld id held _ (by rw [hposition]; rfl))
  | _ => cases hserved

end State

end ufh
