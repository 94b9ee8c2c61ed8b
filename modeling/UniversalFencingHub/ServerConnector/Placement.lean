import Mathlib.Data.Finset.Lattice.Fold
import Mathlib.Data.Fintype.Basic
import UniversalFencingHub.Queue.Represents
import UniversalFencingHub.ServerConnector.Connector

open linked_list

namespace ufh

abbrev WorkerId := Fin MAX_CONNECTIONS

inductive Thread where
  | selector
  | worker (id : WorkerId)
  deriving DecidableEq

/-- What a thread is about to do with the client it holds. -/
inductive Role where
  | accepted
  | completed
  | answered
  | ended
  deriving DecidableEq

/-- Where a client object is. `lost` stands for a client that the thread which
held it has dropped. -/
inductive Place where
  | free
  | queued
  | pending
  | held (thread : Thread) (role : Role)
  | lost
  deriving DecidableEq

namespace Place

/-- The places at which a client is on no list of the connector. -/
def OffLists : Place → Prop
  | .held _ _ => True
  | .lost => True
  | _ => False

end Place

/-- The free objects of the pool are the clients whose place is `free`. -/
structure Pooled (client_pool : GenAlloc ClientPtr) (place : ClientPtr → Place) : Prop where
  valid : client_pool.Valid
  size : client_pool.pool_size = MAX_CONNECTIONS
  free_iff : ∀ client, client ∈ client_pool.free_objects ↔ place client = .free

/-- The queues agree with an assignment of places. The queued clients form
chains whose stamps grow in the direction of the links; the ends of `com_queue`
are ends of such chains, though not always of the same one. -/
structure Linked (com_queue action_queue : Queue ClientPtr) (nodes : Nodes ClientPtr) (place : ClientPtr → Place)
    (stamp : ClientPtr → Nat) : Prop where
  actions : ∃ pending, action_queue.Represents nodes pending ∧ ∀ client, client ∈ pending ↔ place client = .pending
  forward : ∀ client successor, place client = .queued → nodes.next client = some successor →
    place successor = .queued ∧ nodes.prev successor = some client ∧ stamp client < stamp successor
  backward : ∀ client predecessor, place client = .queued → nodes.prev client = some predecessor →
    place predecessor = .queued ∧ nodes.next predecessor = some client
  head : ∀ client, com_queue.head_node = some client → place client = .queued ∧ nodes.prev client = none
  tail : ∀ client, com_queue.tail_node = some client → place client = .queued ∧ nodes.next client = none
  detached : ∀ client, place client ≠ .queued → place client ≠ .pending → Queue.Detached nodes client

theorem Place.not_listed {place : Place} (h : place.OffLists) : place ≠ .free ∧ place ≠ .queued ∧ place ≠ .pending := by
  refine ⟨?_, ?_, ?_⟩
  all_goals
    intro heq
    rw [heq] at h
    exact h

/-- Moving a client to another place does not affect the status of the others. -/
theorem Place.update_iff {place : ClientPtr → Place} {client : ClientPtr} {target status : Place}
    (hclient : place client ≠ status)
    (htarget : target ≠ status) (other : ClientPtr) :
    Function.update place client target other = status ↔ place other = status := by
  by_cases heq : other = client
  · subst heq
    rw [Function.update_self]
    exact iff_of_false htarget hclient
  · rw [Function.update_of_ne heq]

theorem Place.update_iff_of_target {place : ClientPtr → Place} {client : ClientPtr} {target : Place}
    (other : ClientPtr) :
    Function.update place client target other = target ↔ other = client ∨ place other = target := by
  by_cases heq : other = client
  · simp [heq]
  · simp [heq]

theorem Place.update_iff_of_source {place : ClientPtr → Place} {client : ClientPtr} {target status : Place}
    (htarget : target ≠ status)
    (other : ClientPtr) :
    Function.update place client target other = status ↔ other ≠ client ∧ place other = status := by
  by_cases heq : other = client
  · simp [heq, htarget]
  · simp [heq]

theorem Pooled.congr {client_pool : GenAlloc ClientPtr} {place place' : ClientPtr → Place}
    (h : Pooled client_pool place) (hfree : ∀ client, place' client = .free ↔ place client = .free) :
    Pooled client_pool place' :=
  ⟨h.valid, h.size, fun client => (h.free_iff client).trans (hfree client).symm⟩

/-- `allocate` hands out a free client. -/
theorem Pooled.allocate {client_pool rest : GenAlloc ClientPtr} {place : ClientPtr → Place} {client : ClientPtr}
    (h : Pooled client_pool place) (hallocate : client_pool.allocate = some (client, rest)) {target : Place}
    (htarget : target ≠ .free) : place client = .free ∧ Pooled rest (Function.update place client target) := by
  obtain ⟨hfree, hvalid, hsize⟩ := h.valid.allocate_eq_some hallocate
  have hclient : place client = .free := by
    rw [← h.free_iff, hfree]
    simp
  have hnodup := h.valid.nodup
  rw [hfree] at hnodup
  have hgone : client ∉ rest.free_objects := by
    intro hmem
    exact (List.nodup_append.mp hnodup).2.2 client hmem client (by simp) rfl
  refine ⟨hclient, hvalid, hsize.trans h.size, ?_⟩
  intro other
  rw [Place.update_iff_of_source htarget, ← h.free_iff, hfree, List.mem_append, List.mem_singleton]
  constructor
  · intro hmem
    exact ⟨fun heq => hgone (heq ▸ hmem), Or.inl hmem⟩
  · rintro ⟨hne, hmem | hmem⟩
    · exact hmem
    · exact absurd hmem hne

/-- `deallocate` takes back a client that is not free. -/
theorem Pooled.deallocate {client_pool : GenAlloc ClientPtr} {place : ClientPtr → Place} {client : ClientPtr}
    (h : Pooled client_pool place) (hclient : place client ≠ .free) :
    Pooled (client_pool.deallocate client) (Function.update place client .free) := by
  have hfresh : client ∉ client_pool.free_objects := fun hmem => hclient ((h.free_iff client).mp hmem)
  obtain ⟨hfree, hvalid, hsize⟩ := h.valid.deallocate hfresh (h.valid.room h.size hfresh)
  refine ⟨hvalid, hsize.trans h.size, ?_⟩
  intro other
  rw [Place.update_iff_of_target, hfree, List.mem_append, List.mem_singleton, h.free_iff, or_comm]

namespace Linked

variable {com_queue action_queue : Queue ClientPtr} {nodes : Nodes ClientPtr}
  {place : ClientPtr → Place} {stamp : ClientPtr → Nat}

/-- A change of places that keeps what is queued and what is pending. -/
theorem congr {place' : ClientPtr → Place} (h : Linked com_queue action_queue nodes place stamp)
    (hqueued : ∀ client, place' client = .queued ↔ place client = .queued)
    (hpending : ∀ client, place' client = .pending ↔ place client = .pending) :
    Linked com_queue action_queue nodes place' stamp where
  actions := by
    obtain ⟨pending, hrepresents, hmem⟩ := h.actions
    exact ⟨pending, hrepresents, fun client => (hmem client).trans (hpending client).symm⟩
  forward client successor hclient hnext := by
    rw [hqueued] at hclient ⊢
    exact h.forward client successor hclient hnext
  backward client predecessor hclient hprev := by
    rw [hqueued] at hclient ⊢
    exact h.backward client predecessor hclient hprev
  head client hhead := by
    rw [hqueued]
    exact h.head client hhead
  tail client htail := by
    rw [hqueued]
    exact h.tail client htail
  detached client hclient hclient' := by
    rw [ne_eq, hqueued] at hclient
    rw [ne_eq, hpending] at hclient'
    exact h.detached client hclient hclient'

/-- A client on no list may be moved to any other place off the lists. -/
theorem rename (h : Linked com_queue action_queue nodes place stamp) {client : ClientPtr} {target : Place}
    (hclient : (place client).OffLists) (htarget : target.OffLists) :
    Linked com_queue action_queue nodes (Function.update place client target) stamp := by
  obtain ⟨_, hqueued, hpending⟩ := Place.not_listed hclient
  obtain ⟨_, hqueued', hpending'⟩ := Place.not_listed htarget
  exact h.congr (Place.update_iff hqueued hqueued') (Place.update_iff hpending hpending')

theorem self_link (h : Linked com_queue action_queue nodes place stamp) {client : ClientPtr}
    (hqueued : place client = .queued) : nodes.prev client ≠ some client := by
  intro hself
  have hnext := (h.backward client client hqueued hself).2
  have hless := (h.forward client client hqueued hnext).2.2
  omega

/-- A change of links that leaves the pending clients alone keeps `action_queue`. -/
theorem actions_congr (h : Linked com_queue action_queue nodes place stamp) {nodes' : Nodes ClientPtr}
    {place' : ClientPtr → Place} (hplace : ∀ client, place' client = .pending ↔ place client = .pending)
    (hnodes : ∀ client, place client = .pending → nodes' client = nodes client) :
    ∃ pending, action_queue.Represents nodes' pending ∧ ∀ client, client ∈ pending ↔ place' client = .pending := by
  obtain ⟨pending, hrepresents, hmem⟩ := h.actions
  refine ⟨pending, hrepresents.congr (fun client hclient => hnodes client ((hmem client).mp hclient)), ?_⟩
  exact fun client => (hmem client).trans (hplace client).symm

/-- Unlinking a queued client changes no links but those of queued clients. -/
theorem com_remove_kept (h : Linked com_queue action_queue nodes place stamp) {client other : ClientPtr}
    (hqueued : place client = .queued) (hother : place other ≠ .queued) :
    (com_queue.remove nodes client).2 other = nodes other := by
  have hself := h.self_link hqueued
  have hne : other ≠ client := fun heq => hother (heq ▸ hqueued)
  apply Nodes.eq_of_links
  · rw [Queue.remove_next_of_ne com_queue hself hne, if_neg (fun heq => hother (h.backward client other hqueued heq).1)]
  · rw [Queue.remove_prev_of_ne com_queue hself hne, if_neg (fun heq => hother (h.forward client other hqueued heq).1)]

/-- Unlinking a queued client. -/
theorem com_remove (h : Linked com_queue action_queue nodes place stamp) {client : ClientPtr}
    (hqueued : place client = .queued) (thread : Thread) (role : Role) :
    Linked (com_queue.remove nodes client).1 action_queue (com_queue.remove nodes client).2
      (Function.update place client (.held thread role)) stamp := by
  have hself := h.self_link hqueued
  obtain ⟨hhead, htail⟩ := Queue.remove_queue com_queue nodes client hself
  obtain ⟨hnextSelf, hprevSelf⟩ := Queue.remove_detaches com_queue nodes client hself
  have hstatus : ∀ other, Function.update place client (.held thread role) other = .queued ↔
      other ≠ client ∧ place other = .queued := Place.update_iff_of_source (by simp)
  have hnext : ∀ other, other ≠ client → (com_queue.remove nodes client).2.next other =
      if nodes.prev client = some other then nodes.next client else nodes.next other :=
    fun other => Queue.remove_next_of_ne com_queue hself
  have hprev : ∀ other, other ≠ client → (com_queue.remove nodes client).2.prev other =
      if nodes.next client = some other then nodes.prev client else nodes.prev other :=
    fun other => Queue.remove_prev_of_ne com_queue hself
  have hkept : ∀ other, place other ≠ .queued → (com_queue.remove nodes client).2 other = nodes other :=
    fun _ hother => h.com_remove_kept hqueued hother
  refine ⟨?_, ?_, ?_, ?_, ?_, ?_⟩
  · refine h.actions_congr (Place.update_iff (by simp [hqueued]) (by simp)) (fun other hother => hkept other ?_)
    simp [hother]
  · intro other successor hother hlink
    obtain ⟨hne, hother⟩ := (hstatus other).mp hother
    rw [hnext other hne] at hlink
    rw [hstatus]
    split at hlink
    · next hbefore =>
      obtain ⟨hsuccessor, hback, hless⟩ := h.forward client successor hqueued hlink
      have hbetween := (h.forward other client hother (h.backward client other hqueued hbefore).2).2.2
      have hdifferent : successor ≠ client := fun heq => by rw [heq] at hless; omega
      refine ⟨⟨hdifferent, hsuccessor⟩, ?_, by omega⟩
      rw [hprev successor hdifferent, if_pos hlink, hbefore]
    · next hbefore =>
      obtain ⟨hsuccessor, hback, hless⟩ := h.forward other successor hother hlink
      have hdifferent : successor ≠ client := fun heq => hbefore (heq ▸ hback)
      refine ⟨⟨hdifferent, hsuccessor⟩, ?_, hless⟩
      rw [hprev successor hdifferent, if_neg, hback]
      intro heq
      have hclient := (h.forward client successor hqueued heq).2.1
      exact hne (Option.some.inj (hback.symm.trans hclient))
  · intro other predecessor hother hlink
    obtain ⟨hne, hother⟩ := (hstatus other).mp hother
    rw [hprev other hne] at hlink
    rw [hstatus]
    split at hlink
    · next hafter =>
      obtain ⟨hpredecessor, hforward⟩ := h.backward client predecessor hqueued hlink
      have hdifferent : predecessor ≠ client := fun heq => hself (heq ▸ hlink)
      refine ⟨⟨hdifferent, hpredecessor⟩, ?_⟩
      rw [hnext predecessor hdifferent, if_pos hlink, hafter]
    · next hafter =>
      obtain ⟨hpredecessor, hforward⟩ := h.backward other predecessor hother hlink
      have hdifferent : predecessor ≠ client := fun heq => hafter (heq ▸ hforward)
      refine ⟨⟨hdifferent, hpredecessor⟩, ?_⟩
      rw [hnext predecessor hdifferent, if_neg, hforward]
      intro heq
      have hclient := (h.backward client predecessor hqueued heq).2
      exact hne (Option.some.inj (hforward.symm.trans hclient))
  · intro other hother
    rw [hhead] at hother
    rw [hstatus]
    cases hbefore : nodes.prev client with
    | none =>
      simp only [hbefore, Option.elim_none] at hother
      obtain ⟨hsuccessor, hback, hless⟩ := h.forward client other hqueued hother
      have hdifferent : other ≠ client := fun heq => by rw [heq] at hless; omega
      refine ⟨⟨hdifferent, hsuccessor⟩, ?_⟩
      rw [hprev other hdifferent, if_pos hother, hbefore]
    | some before =>
      simp only [hbefore, Option.elim_some] at hother
      obtain ⟨hother, hnone⟩ := h.head other hother
      have hdifferent : other ≠ client := fun heq => by rw [heq, hbefore] at hnone; cases hnone
      refine ⟨⟨hdifferent, hother⟩, ?_⟩
      rw [hprev other hdifferent, if_neg, hnone]
      intro heq
      have hback := (h.forward client other hqueued heq).2.1
      rw [hnone] at hback
      cases hback
  · intro other hother
    rw [htail] at hother
    rw [hstatus]
    cases hafter : nodes.next client with
    | none =>
      simp only [hafter, Option.elim_none] at hother
      obtain ⟨hpredecessor, hforward⟩ := h.backward client other hqueued hother
      have hdifferent : other ≠ client := fun heq => hself (heq ▸ hother)
      refine ⟨⟨hdifferent, hpredecessor⟩, ?_⟩
      rw [hnext other hdifferent, if_pos hother, hafter]
    | some after =>
      simp only [hafter, Option.elim_some] at hother
      obtain ⟨hother, hnone⟩ := h.tail other hother
      have hdifferent : other ≠ client := fun heq => by rw [heq, hafter] at hnone; cases hnone
      refine ⟨⟨hdifferent, hother⟩, ?_⟩
      rw [hnext other hdifferent, if_neg, hnone]
      intro heq
      have hforward := (h.backward client other hqueued heq).2
      rw [hnone] at hforward
      cases hforward
  · intro other hother hother'
    by_cases heq : other = client
    · subst heq
      exact ⟨hnextSelf, hprevSelf⟩
    · rw [Function.update_of_ne heq] at hother hother'
      have hdetached := h.detached other hother hother'
      have hsame := hkept other hother
      simpa only [Queue.Detached, Nodes.next, Nodes.prev, hsame] using hdetached

/-- Removing a client that is on no list from `com_queue` drops all clients
from `com_queue`, though it changes no link. -/
theorem com_remove_detached (h : Linked com_queue action_queue nodes place stamp) {client : ClientPtr}
    (hclient : (place client).OffLists) :
    Linked (com_queue.remove nodes client).1 action_queue (com_queue.remove nodes client).2 place stamp := by
  obtain ⟨_, hqueued, hpending⟩ := Place.not_listed hclient
  obtain ⟨hhead, htail, hnodes⟩ := Queue.remove_detached com_queue nodes client (h.detached client hqueued hpending)
  rw [hnodes]
  refine { h with head := ?_, tail := ?_ }
  · intro other hother
    rw [hhead] at hother
    cases hother
  · intro other hother
    rw [htail] at hother
    cases hother

/-- Closing a client takes it off the lists, whether it is queued or on none. -/
theorem com_remove_closed (h : Linked com_queue action_queue nodes place stamp) {client : ClientPtr}
    (hclient : place client = .queued ∨ (place client).OffLists) :
    Linked (com_queue.remove nodes client).1 action_queue (com_queue.remove nodes client).2
      (Function.update place client .free) stamp := by
  cases hclient with
  | inl hqueued =>
    have hremoved := h.com_remove hqueued .selector .ended
    rw [← Function.update_idem (.held .selector .ended) .free place]
    apply hremoved.congr
    · exact Place.update_iff (by simp) (by simp)
    · exact Place.update_iff (by simp) (by simp)
  | inr hoff =>
    obtain ⟨_, hqueued, hpending⟩ := Place.not_listed hoff
    apply (h.com_remove_detached hoff).congr
    · exact Place.update_iff hqueued (by simp)
    · exact Place.update_iff hpending (by simp)

/-- Appending to `com_queue` changes no links but those of the new client and of the
queued ones. -/
theorem com_add_last_kept (h : Linked com_queue action_queue nodes place stamp) {client other : ClientPtr}
    (hne : other ≠ client) (hother : place other ≠ .queued) :
    (com_queue.add_last nodes client).2 other = nodes other := by
  apply Nodes.eq_of_links
  · rw [Queue.add_last_next_of_ne com_queue nodes hne, if_neg (fun heq => hother (h.tail other heq).1)]
  · rw [Queue.add_last_prev_of_ne com_queue nodes hne]

theorem com_add_last (h : Linked com_queue action_queue nodes place stamp) {client : ClientPtr}
    (hclient : (place client).OffLists) :
    ∃ stamp', Linked (com_queue.add_last nodes client).1 action_queue (com_queue.add_last nodes client).2
      (Function.update place client .queued) stamp' := by
  obtain ⟨_, hqueued, hpending⟩ := Place.not_listed hclient
  obtain ⟨hhead, htail⟩ := Queue.add_last_queue com_queue nodes client
  obtain ⟨hlinks, hlinks'⟩ := Queue.add_last_links com_queue nodes client
  have hnextSelf : (com_queue.add_last nodes client).2.next client = none := by rw [hlinks, Function.update_self]
  have hprevSelf : (com_queue.add_last nodes client).2.prev client = com_queue.tail_node := by
    rw [hlinks', Function.update_self]
  have hnext : ∀ other, other ≠ client → (com_queue.add_last nodes client).2.next other =
      if com_queue.tail_node = some other then some client else nodes.next other :=
    fun other => Queue.add_last_next_of_ne com_queue nodes
  have hprev : ∀ other, other ≠ client → (com_queue.add_last nodes client).2.prev other = nodes.prev other :=
    fun other => Queue.add_last_prev_of_ne com_queue nodes
  have hstatus : ∀ other, Function.update place client .queued other = .queued ↔
      other = client ∨ place other = .queued := Place.update_iff_of_target
  have hbelow : ∀ other, stamp other < Finset.univ.sup stamp + 1 :=
    fun other => Nat.lt_succ_of_le (Finset.le_sup (Finset.mem_univ other))
  have hkept : ∀ other, other ≠ client → place other ≠ .queued →
      (com_queue.add_last nodes client).2 other = nodes other :=
    fun _ hne hother => h.com_add_last_kept hne hother
  have hnotPrev : ∀ other, place other = .queued → nodes.prev other ≠ some client := by
    intro other hother heq
    exact hqueued (h.backward other client hother heq).1
  refine ⟨Function.update stamp client (Finset.univ.sup stamp + 1), ?_, ?_, ?_, ?_, ?_, ?_⟩
  · refine h.actions_congr (Place.update_iff hpending (by simp)) (fun other hother => hkept other ?_ (by simp [hother]))
    exact fun heq => hpending (heq ▸ hother)
  · intro other successor hother hlink
    by_cases hself : other = client
    · rw [hself, hnextSelf] at hlink
      cases hlink
    · have hother : place other = .queued := ((hstatus other).mp hother).resolve_left hself
      rw [hnext other hself] at hlink
      split at hlink
      · next htailOther =>
        obtain rfl := Option.some.inj hlink
        refine ⟨(hstatus client).mpr (Or.inl rfl), hprevSelf.trans htailOther, ?_⟩
        rw [Function.update_self, Function.update_of_ne hself]
        exact hbelow other
      · obtain ⟨hsuccessor, hback, hless⟩ := h.forward other successor hother hlink
        have hdifferent : successor ≠ client := fun heq => hqueued (heq ▸ hsuccessor)
        refine ⟨(hstatus successor).mpr (Or.inr hsuccessor), (hprev successor hdifferent).trans hback, ?_⟩
        rw [Function.update_of_ne hself, Function.update_of_ne hdifferent]
        exact hless
  · intro other predecessor hother hlink
    by_cases hself : other = client
    · rw [hself, hprevSelf] at hlink
      obtain ⟨hpredecessor, _⟩ := h.tail predecessor hlink
      have hdifferent : predecessor ≠ client := fun heq => hqueued (heq ▸ hpredecessor)
      refine ⟨(hstatus predecessor).mpr (Or.inr hpredecessor), ?_⟩
      rw [hnext predecessor hdifferent, if_pos hlink, hself]
    · have hother : place other = .queued := ((hstatus other).mp hother).resolve_left hself
      rw [hprev other hself] at hlink
      obtain ⟨hpredecessor, hforward⟩ := h.backward other predecessor hother hlink
      have hdifferent : predecessor ≠ client := fun heq => hqueued (heq ▸ hpredecessor)
      refine ⟨(hstatus predecessor).mpr (Or.inr hpredecessor), ?_⟩
      rw [hnext predecessor hdifferent, if_neg, hforward]
      intro htailPredecessor
      have hnone := (h.tail predecessor htailPredecessor).2
      rw [hforward] at hnone
      cases hnone
  · intro other hother
    rw [hhead] at hother
    cases htailNode : com_queue.tail_node with
    | none =>
      simp only [htailNode, Option.elim_none, Option.some.injEq] at hother
      subst hother
      exact ⟨(hstatus _).mpr (Or.inl rfl), hprevSelf.trans htailNode⟩
    | some last =>
      simp only [htailNode, Option.elim_some] at hother
      obtain ⟨hother, hnone⟩ := h.head other hother
      have hdifferent : other ≠ client := fun heq => hqueued (heq ▸ hother)
      exact ⟨(hstatus other).mpr (Or.inr hother), (hprev other hdifferent).trans hnone⟩
  · intro other hother
    rw [htail] at hother
    obtain rfl := Option.some.inj hother
    exact ⟨(hstatus _).mpr (Or.inl rfl), hnextSelf⟩
  · intro other hother hother'
    by_cases hself : other = client
    · exact absurd ((hstatus other).mpr (Or.inl hself)) hother
    · rw [Function.update_of_ne hself] at hother hother'
      have hdetached := h.detached other hother hother'
      have hsame := hkept other hself hother
      simpa only [Queue.Detached, Nodes.next, Nodes.prev, hsame] using hdetached

/-- A change of the links of clients that are not queued. -/
theorem action_congr (h : Linked com_queue action_queue nodes place stamp) {action_queue' : Queue ClientPtr}
    {nodes' : Nodes ClientPtr} {place' : ClientPtr → Place}
    (hqueued : ∀ client, place' client = .queued ↔ place client = .queued)
    (hkept : ∀ client, place' client ≠ .pending → nodes' client = nodes client ∨ Queue.Detached nodes' client)
    (hsame : ∀ client, place client = .queued → nodes' client = nodes client)
    (hoff : ∀ client, place' client ≠ .queued → place' client ≠ .pending → place client = .pending →
      Queue.Detached nodes' client)
    (hactions : ∃ pending, action_queue'.Represents nodes' pending ∧
      ∀ client, client ∈ pending ↔ place' client = .pending) :
    Linked com_queue action_queue' nodes' place' stamp := by
  have hnext : ∀ client, place client = .queued → nodes'.next client = nodes.next client :=
    fun client hclient => by simp only [Nodes.next, hsame client hclient]
  have hprev : ∀ client, place client = .queued → nodes'.prev client = nodes.prev client :=
    fun client hclient => by simp only [Nodes.prev, hsame client hclient]
  refine ⟨hactions, ?_, ?_, ?_, ?_, ?_⟩
  · intro client successor hclient hlink
    rw [hqueued] at hclient ⊢
    rw [hnext client hclient] at hlink
    obtain ⟨hsuccessor, hback, hless⟩ := h.forward client successor hclient hlink
    exact ⟨hsuccessor, (hprev successor hsuccessor).trans hback, hless⟩
  · intro client predecessor hclient hlink
    rw [hqueued] at hclient ⊢
    rw [hprev client hclient] at hlink
    obtain ⟨hpredecessor, hforward⟩ := h.backward client predecessor hclient hlink
    exact ⟨hpredecessor, (hnext predecessor hpredecessor).trans hforward⟩
  · intro client hclient
    obtain ⟨hclient, hnone⟩ := h.head client hclient
    exact ⟨(hqueued client).mpr hclient, (hprev client hclient).trans hnone⟩
  · intro client hclient
    obtain ⟨hclient, hnone⟩ := h.tail client hclient
    exact ⟨(hqueued client).mpr hclient, (hnext client hclient).trans hnone⟩
  · intro client hclient hclient'
    by_cases hpending : place client = .pending
    · exact hoff client hclient hclient' hpending
    · cases hkept client hclient' with
      | inl hsameNode =>
        have hdetached := h.detached client (fun heq => hclient ((hqueued client).mpr heq)) hpending
        simpa only [Queue.Detached, Nodes.next, Nodes.prev, hsameNode] using hdetached
      | inr hdetached => exact hdetached

/-- Appending to `action_queue` changes no links but those of the new client and of
the pending ones. -/
theorem action_add_last_kept (h : Linked com_queue action_queue nodes place stamp) {client other : ClientPtr}
    (hne : other ≠ client) (hother : place other ≠ .pending) :
    (action_queue.add_last nodes client).2 other = nodes other := by
  obtain ⟨pending, hrepresents, hmem⟩ := h.actions
  apply Nodes.eq_of_links
  · rw [Queue.add_last_next_of_ne action_queue nodes hne, if_neg]
    intro htail
    rw [hrepresents.tail] at htail
    exact hother ((hmem other).mp (List.mem_of_getLast? htail))
  · rw [Queue.add_last_prev_of_ne action_queue nodes hne]

/-- Appending a client that is on no list to `action_queue`. -/
theorem action_add_last (h : Linked com_queue action_queue nodes place stamp) {client : ClientPtr}
    (hclient : (place client).OffLists) :
    Linked com_queue (action_queue.add_last nodes client).1 (action_queue.add_last nodes client).2
      (Function.update place client .pending) stamp := by
  obtain ⟨_, hqueued, hpending⟩ := Place.not_listed hclient
  obtain ⟨pending, hrepresents, hmem⟩ := h.actions
  have hfresh : client ∉ pending := fun hin => hpending ((hmem client).mp hin)
  have hkept : ∀ other, other ≠ client → place other ≠ .pending →
      (action_queue.add_last nodes client).2 other = nodes other :=
    fun other hne hother => h.action_add_last_kept hne hother
  apply h.action_congr (Place.update_iff hqueued (by simp))
  · intro other hother
    have hne : other ≠ client := fun heq => hother (by rw [heq, Function.update_self])
    rw [Function.update_of_ne hne] at hother
    exact Or.inl (hkept other hne hother)
  · intro other hother
    exact hkept other (fun heq => hqueued (heq ▸ hother)) (by simp [hother])
  · intro other _ hother hpendingOther
    have hne : other ≠ client := fun heq => hother (by rw [heq, Function.update_self])
    rw [Function.update_of_ne hne] at hother
    exact absurd hpendingOther hother
  · refine ⟨pending ++ [client], hrepresents.add_last hfresh, fun other => ?_⟩
    rw [Place.update_iff_of_target, List.mem_append, List.mem_singleton, hmem, or_comm]

/-- `remove_first` on `action_queue` changes no links but those of pending clients. -/
theorem action_remove_first_kept (h : Linked com_queue action_queue nodes place stamp) {other : ClientPtr}
    (hother : place other ≠ .pending) : (action_queue.remove_first nodes).2.2 other = nodes other := by
  obtain ⟨pending, hrepresents, hmem⟩ := h.actions
  cases pending with
  | nil => rw [Queue.remove_first_empty hrepresents.head]
  | cons client rest =>
    have hne : other ≠ client := fun heq => hother ((hmem other).mp (heq ▸ List.mem_cons_self))
    have hsplit : action_queue.Represents nodes ([] ++ client :: rest) := hrepresents
    obtain ⟨hprev, hnext⟩ := hsplit.links
    have hself := hsplit.prev_ne_self
    rw [hrepresents.remove_first_eq]
    apply Nodes.eq_of_links
    · rw [Queue.remove_next_of_ne action_queue hself hne, if_neg]
      rw [hprev]
      simp
    · rw [Queue.remove_prev_of_ne action_queue hself hne, if_neg]
      rw [hnext]
      intro heq
      exact hother ((hmem other).mp (List.mem_cons_of_mem _ (List.mem_of_mem_head? heq)))

/-- `remove_first` hands out a pending client, or finds the queue empty. -/
theorem action_remove_first (h : Linked com_queue action_queue nodes place stamp) (thread : Thread) (role : Role)
    {client : ClientPtr} (hhead : action_queue.head_node = some client) :
    place client = .pending ∧ (action_queue.remove_first nodes).1 = some client ∧
      Linked com_queue (action_queue.remove_first nodes).2.1 (action_queue.remove_first nodes).2.2
        (Function.update place client (.held thread role)) stamp := by
  obtain ⟨pending, hrepresents, hmem⟩ := h.actions
  obtain ⟨rest, rfl⟩ : ∃ rest, pending = client :: rest := by
    rw [hrepresents.head] at hhead
    cases pending with
    | nil => cases hhead
    | cons first rest =>
      obtain rfl := Option.some.inj hhead
      exact ⟨rest, rfl⟩
  have hpending : place client = .pending := (hmem client).mp (by simp)
  have hsplit : action_queue.Represents nodes ([] ++ client :: rest) := hrepresents
  have hself := hsplit.prev_ne_self
  obtain ⟨hremovedNext, hremovedPrev⟩ := Queue.remove_detaches action_queue nodes client hself
  have hkept : ∀ other, other ≠ client → place other ≠ .pending →
      (action_queue.remove nodes client).2 other = nodes other := by
    intro other _ hother
    have hsame := h.action_remove_first_kept hother
    rwa [hrepresents.remove_first_eq] at hsame
  rw [hrepresents.remove_first_eq]
  refine ⟨hpending, rfl, h.action_congr (Place.update_iff (by simp [hpending]) (by simp)) ?_ ?_ ?_ ?_⟩
  · intro other hother
    by_cases hne : other = client
    · subst hne
      exact Or.inr ⟨hremovedNext, hremovedPrev⟩
    · rw [Function.update_of_ne hne] at hother
      exact Or.inl (hkept other hne hother)
  · intro other hother
    refine hkept other ?_ (by simp [hother])
    intro heq
    rw [heq, hpending] at hother
    cases hother
  · intro other _ hother hpendingOther
    by_cases hne : other = client
    · subst hne
      exact ⟨hremovedNext, hremovedPrev⟩
    · rw [Function.update_of_ne hne] at hother
      exact absurd hpendingOther hother
  · refine ⟨rest, hsplit.remove, fun other => ?_⟩
    have hfresh := (List.nodup_cons.mp hrepresents.nodup).1
    rw [Place.update_iff_of_source (by simp), ← hmem, List.mem_cons]
    constructor
    · intro hin
      exact ⟨fun heq => hfresh (heq ▸ hin), Or.inr hin⟩
    · rintro ⟨hne, hin | hin⟩
      · exact absurd hin hne
      · exact hin

/-- `remove_first` changes the links as `remove` does for the first client. -/
theorem com_remove_first_nodes (h : Linked com_queue action_queue nodes place stamp) {client : ClientPtr}
    (hhead : com_queue.head_node = some client) :
    (com_queue.remove_first nodes).2.2 = (com_queue.remove nodes client).2 := by
  obtain ⟨hqueued, hprev⟩ := h.head client hhead
  obtain ⟨hnextLinks, hprevLinks⟩ := Queue.remove_links com_queue nodes client (h.self_link hqueued)
  simp only [hprev, relink_none] at hnextLinks hprevLinks
  by_cases hlast : com_queue.head_node = com_queue.tail_node
  · have hnext := (h.tail client (hlast ▸ hhead)).2
    have hnodes : (com_queue.remove nodes client).2 = nodes.set_next (some client) none := by
      apply Nodes.ext_links
      · rw [hnextLinks, Nodes.next_set_next, relink_some]
      · rw [hprevLinks, hnext, relink_none, Nodes.prev_set_next, ← hprev, Function.update_eq_self]
    rw [hnodes]
    simp only [Queue.remove_first, hhead, ← hlast, if_true]
  · have hnodes : (com_queue.remove nodes client).2 =
        (nodes.set_prev (nodes.next client) none).set_next (some client) none := by
      apply Nodes.ext_links
      · rw [hnextLinks, Nodes.next_set_next, Nodes.next_set_prev, relink_some]
      · rw [hprevLinks, Nodes.prev_set_next, Nodes.prev_set_prev]
        have hkept : relink nodes.prev (nodes.next client) none client = none := by
          by_cases hloop : nodes.next client = some client
          · rw [hloop, relink_some, Function.update_self]
          · rw [relink_of_ne hloop, hprev]
        have hidle := Function.update_eq_self client (relink nodes.prev (nodes.next client) none)
        rwa [hkept] at hidle
    rw [hnodes]
    simp only [Queue.remove_first, hhead, if_neg (show ¬ some client = com_queue.tail_node from hhead ▸ hlast)]

/-- `remove_first` hands out a queued client, or finds the queue empty. -/
theorem com_remove_first (h : Linked com_queue action_queue nodes place stamp) (thread : Thread) (role : Role)
    {client : ClientPtr} (hhead : com_queue.head_node = some client) :
    place client = .queued ∧ (com_queue.remove_first nodes).1 = some client ∧
      Linked (com_queue.remove_first nodes).2.1 action_queue (com_queue.remove_first nodes).2.2
        (Function.update place client (.held thread role)) stamp := by
  obtain ⟨hqueued, hprev⟩ := h.head client hhead
  have hself := h.self_link hqueued
  obtain ⟨hnextLinks, _⟩ := Queue.remove_links com_queue nodes client hself
  obtain ⟨hremovedHead, _⟩ := Queue.remove_queue com_queue nodes client hself
  have hremoved := h.com_remove hqueued thread role
  simp only [hprev, relink_none, Option.elim_none] at hnextLinks hremovedHead
  refine ⟨hqueued, by simp [Queue.remove_first, hhead], ?_⟩
  rw [h.com_remove_first_nodes hhead]
  by_cases hlast : com_queue.head_node = com_queue.tail_node
  · simp only [Queue.remove_first, hhead, ← hlast, if_true]
    refine { hremoved with head := ?_, tail := ?_ }
    · intro other hother
      cases hother
    · intro other hother
      cases hother
  · have hnextTail : ∀ other, com_queue.tail_node = some other → other ≠ client := by
      intro other hother heq
      exact hlast (by rw [hhead, hother, heq])
    simp only [Queue.remove_first, hhead, if_neg (show ¬ some client = com_queue.tail_node from hhead ▸ hlast)]
    refine { hremoved with head := ?_, tail := ?_ }
    · intro other hother
      exact hremoved.head other (hremovedHead.trans hother)
    · intro other hother
      obtain ⟨hother', hnone⟩ := h.tail other hother
      have hne := hnextTail other hother
      refine ⟨(Place.update_iff_of_source (by simp) other).mpr ⟨hne, hother'⟩, ?_⟩
      rw [hnextLinks, Function.update_of_ne hne, hnone]

/-- The walk over `com_queue` meets each client at most once. -/
theorem follow_nodup (h : Linked com_queue action_queue nodes place stamp) (fuel : Nat) :
    (follow nodes.next fuel com_queue.head_node).Nodup := by
  have hclosed : ∀ node successor, place node = .queued → nodes.next node = some successor →
      place successor = .queued ∧ stamp node < stamp successor := by
    intro node successor hnode hnext
    obtain ⟨hsuccessor, _, hless⟩ := h.forward node successor hnode hnext
    exact ⟨hsuccessor, hless⟩
  obtain ⟨hpairwise, _⟩ := follow_pairwise hclosed fuel (fun node hhead => (h.head node hhead).1)
  exact hpairwise.imp (fun hless heq => by rw [heq] at hless; omega)

/-- No walk over `com_queue` meets more clients than the one that is bounded by the
number of objects. -/
theorem follow_max (h : Linked com_queue action_queue nodes place stamp) (more : Nat) :
    follow nodes.next (MAX_CONNECTIONS + more) com_queue.head_node =
      follow nodes.next MAX_CONNECTIONS com_queue.head_node := by
  by_cases hshort : (follow nodes.next MAX_CONNECTIONS com_queue.head_node).length < MAX_CONNECTIONS
  · exact follow_of_length_lt hshort more
  · have hbegins := follow_begins nodes.next MAX_CONNECTIONS more com_queue.head_node
    have hcard := (h.follow_nodup (MAX_CONNECTIONS + more)).length_le_card
    rw [Fintype.card_fin] at hcard
    exact (hbegins.eq_of_length_le (by omega)).symm

/-- The walk over `com_queue` meets queued clients only. -/
theorem follow_queued (h : Linked com_queue action_queue nodes place stamp) (fuel : Nat) (client : ClientPtr)
    (hmem : client ∈ follow nodes.next fuel com_queue.head_node) : place client = .queued := by
  suffices hchain : ∀ first : Option ClientPtr, (∀ node, first = some node → place node = .queued) →
      client ∈ follow nodes.next fuel first → place client = .queued from
    hchain _ (fun node hhead => (h.head node hhead).1) hmem
  clear hmem
  induction fuel with
  | zero => nofun
  | succ fuel ih =>
    intro first hfirst hclient
    cases first with
    | none => cases hclient
    | some node =>
      have hnode := hfirst node rfl
      cases List.mem_cons.mp hclient with
      | inl heq => rw [heq, hnode]
      | inr hrest =>
        apply ih (nodes.next node) _ hrest
        intro successor hnext
        exact (h.forward node successor hnode hnext).1

end Linked

end ufh
