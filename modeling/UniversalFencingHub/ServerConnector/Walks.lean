import UniversalFencingHub.ServerConnector.Complete

open linked_list

namespace ufh

theorem Queue.Represents.walk {queue : Queue ClientPtr} {nodes : Nodes ClientPtr} {contents : List ClientPtr}
    (h : queue.Represents nodes contents) : follow nodes.next MAX_CONNECTIONS queue.get_first = contents := by
  have hlength := h.nodup.length_le_card
  rw [Fintype.card_fin] at hlength
  change follow nodes.next MAX_CONNECTIONS queue.head_node = contents
  rw [h.head]
  exact h.segment.follow_eq hlength

/-- The clients met by a walk over `action_queue`. -/
def Connector.action_clients {Buf : Type} (connector : Connector Buf) : List ClientPtr :=
  follow connector.nodes.next MAX_CONNECTIONS connector.action_queue.get_first

/-- A step that leaves `action_queue` and the links of the pending clients alone. -/
structure KeepsPending {Buf : Type} (place : ClientPtr → Place) (before after : Connector Buf) : Prop where
  action_queue : after.action_queue = before.action_queue
  nodes : ∀ client, place client = .pending → after.nodes client = before.nodes client

/-- A client that can be taken off `com_queue`: it has a predecessor, or it is the first one, or
there is no other one. -/
def Attached (com_queue : Queue ClientPtr) (nodes : Nodes ClientPtr) (client : ClientPtr) : Prop :=
  nodes.prev client ≠ none ∨ com_queue.head_node = some client ∨ com_queue.head_node = none ∧ nodes.next client = none

namespace Linked

variable {com_queue action_queue : Queue ClientPtr} {nodes : Nodes ClientPtr} {place : ClientPtr → Place}
  {stamp : ClientPtr → Nat} {client other : ClientPtr}

/-- Closing a client changes no links but those of queued clients. -/
theorem closed_kept (h : Linked com_queue action_queue nodes place stamp)
    (hclient : place client = .queued ∨ (place client).OffLists) (hother : place other ≠ .queued) :
    (com_queue.remove nodes client).2 other = nodes other := by
  cases hclient with
  | inl hqueued => exact h.com_remove_kept hqueued hother
  | inr hoff =>
    obtain ⟨_, hqueued, hpending⟩ := Place.not_listed hoff
    obtain ⟨_, _, hnodes⟩ := Queue.remove_detached com_queue nodes client (h.detached client hqueued hpending)
    rw [hnodes]

/-- The walk over `com_queue` comes to the end of the links. -/
theorem walk_com (h : Linked com_queue action_queue nodes place stamp) :
    Walk nodes.next com_queue.head_node (follow nodes.next MAX_CONNECTIONS com_queue.head_node) := by
  have hcard := (h.follow_nodup (MAX_CONNECTIONS + 1)).length_le_card
  rw [Fintype.card_fin] at hcard
  have hwalk := walk_follow (Nat.lt_succ_of_le hcard)
  rwa [h.follow_max 1] at hwalk

/-- Taking a queued client off `com_queue` keeps the order of the others exactly when it is attached. -/
theorem walk_remove_iff (h : Linked com_queue action_queue nodes place stamp) (hqueued : place client = .queued) :
    (follow (com_queue.remove nodes client).2.next MAX_CONNECTIONS (com_queue.remove nodes client).1.head_node).filter
        (· ≠ client) = (follow nodes.next MAX_CONNECTIONS com_queue.head_node).filter (· ≠ client) ↔
      Attached com_queue nodes client := by
  have hself := h.self_link hqueued
  obtain ⟨hhead, _⟩ := Queue.remove_queue com_queue nodes client hself
  have hnodup := h.follow_nodup MAX_CONNECTIONS
  have hnext : ∀ other ∈ follow nodes.next MAX_CONNECTIONS com_queue.head_node, other ≠ client →
      (com_queue.remove nodes client).2.next other =
        if nodes.next other = some client then nodes.next client else nodes.next other := by
    intro other hother hne
    rw [Queue.remove_next_of_ne com_queue hself hne]
    have hlink : nodes.prev client = some other ↔ nodes.next other = some client :=
      ⟨fun hprev => (h.backward client other hqueued hprev).2,
        fun hforward => (h.forward other client (h.follow_queued _ other hother) hforward).2.1⟩
    simp only [hlink]
  constructor
  · intro hsame
    by_contra hloose
    unfold Attached at hloose
    push Not at hloose
    obtain ⟨hprev, hfirst, hrest⟩ := hloose
    have hwalk := (h.com_remove hqueued .selector .completed).walk_com
    rw [hhead, hprev] at hwalk hsame
    simp only [Option.elim_none] at hwalk hsame
    cases hsuccessor : nodes.next client with
    | none =>
      obtain ⟨first, hsome⟩ := Option.ne_none_iff_exists'.mp (fun hnone => hrest hnone hsuccessor)
      have hne : first ≠ client := fun heq => hfirst (hsome.trans (congrArg some heq))
      have hmem : first ∈ (follow nodes.next MAX_CONNECTIONS com_queue.head_node).filter (· ≠ client) := by
        rw [hsome]
        exact List.mem_filter.mpr ⟨List.mem_cons_self .., by simpa using hne⟩
      rw [← hsame, hsuccessor] at hmem
      cases hmem
    | some successor =>
      obtain ⟨_, hback, hless⟩ := h.forward client successor hqueued hsuccessor
      have hne : successor ≠ client := fun heq => by rw [heq] at hless; omega
      have hmem : successor ∈ (follow nodes.next MAX_CONNECTIONS com_queue.head_node).filter (· ≠ client) := by
        rw [← hsame, hsuccessor]
        exact List.mem_filter.mpr ⟨List.mem_cons_self .., by simpa using hne⟩
      obtain ⟨hmem, _⟩ := List.mem_filter.mp hmem
      obtain hstart | ⟨other, hother, hlink⟩ := h.walk_com.mem_cases hmem
      · have hnone := (h.head successor hstart).2
        rw [hback] at hnone
        cases hnone
      · have hlinked := (h.forward other successor (h.follow_queued _ other hother) hlink).2.1
        obtain rfl := Option.some.inj (hback.symm.trans hlinked)
        obtain hstart | ⟨before, hbefore, hlink⟩ := h.walk_com.mem_cases hother
        · exact hfirst hstart
        · rw [(h.forward before client (h.follow_queued _ before hbefore) hlink).2.1] at hprev
          cases hprev
  · intro hattached
    have hwalk := h.walk_com.filter hnodup hnext
    have hstart : (if com_queue.head_node = some client then nodes.next client else com_queue.head_node) =
        (com_queue.remove nodes client).1.head_node := by
      rw [hhead]
      split
      · next hfirst =>
        rw [(h.head client hfirst).2]
        rfl
      · next hfirst =>
        obtain hprev | hhead | ⟨hnone, hlast⟩ := hattached
        · obtain ⟨before, hsome⟩ := Option.ne_none_iff_exists'.mp hprev
          rw [hsome]
          rfl
        · exact absurd hhead hfirst
        · rw [hnone, hlast]
          cases nodes.prev client with
          | none => rfl
          | some before => rfl
    have hlength := (hnodup.filter (· ≠ client)).length_le_card
    rw [Fintype.card_fin] at hlength
    rw [hstart] at hwalk
    rw [hwalk.follow_eq hlength, List.filter_filter]
    simp only [Bool.and_self]

end Linked

section

variable {Buf : Type} {before after : Connector Buf} {place : ClientPtr → Place} {stamp : ClientPtr → Nat}
  {client : ClientPtr}

theorem KeepsPending.of_eq (haction : after.action_queue = before.action_queue) (hnodes : after.nodes = before.nodes) :
    KeepsPending place before after :=
  ⟨haction, fun _ _ => by rw [hnodes]⟩

theorem KeepsPending.accept [CharBuffer Buf] {fd : Int} (haccept : before.accept fd = some (client, after)) :
    KeepsPending place before after := by
  unfold Connector.accept at haccept
  split at haccept
  · cases haccept
  · obtain ⟨rfl, rfl⟩ := Prod.mk.inj (Option.some.inj haccept)
    exact .of_eq rfl rfl

theorem KeepsPending.unlinks (hlinked : Linked before.com_queue before.action_queue before.nodes place stamp)
    (hqueued : place client = .queued) (hunlinks : Unlinks client before after) : KeepsPending place before after := by
  refine ⟨hunlinks.2.2, fun other hother => ?_⟩
  rw [hunlinks.2.1]
  exact hlinked.com_remove_kept hqueued (by simp [hother])

theorem KeepsPending.close [CharBuffer Buf]
    (hlinked : Linked before.com_queue before.action_queue before.nodes place stamp)
    (hclient : place client = .queued ∨ (place client).OffLists) :
    KeepsPending place before (before.close_connection client) :=
  ⟨rfl, fun _ hother => hlinked.closed_kept hclient (by simp [hother])⟩

theorem KeepsPending.add_last (hlinked : Linked before.com_queue before.action_queue before.nodes place stamp)
    (hclient : (place client).OffLists) : KeepsPending place before (before.com_add_last client) := by
  obtain ⟨_, _, hpending⟩ := Place.not_listed hclient
  refine ⟨rfl, fun other hother => hlinked.com_add_last_kept (fun heq => hpending (heq ▸ hother)) (by simp [hother])⟩

theorem Linked.represents_actions (h : Linked before.com_queue before.action_queue before.nodes place stamp) :
    before.action_queue.Represents before.nodes before.action_clients ∧
      ∀ client, client ∈ before.action_clients ↔ place client = .pending := by
  obtain ⟨pending, hrepresents, hmem⟩ := h.actions
  have hwalk : before.action_clients = pending := hrepresents.walk
  rw [hwalk]
  exact ⟨hrepresents, hmem⟩

theorem KeepsPending.walk (h : KeepsPending place before after)
    (hlinked : Linked before.com_queue before.action_queue before.nodes place stamp) :
    after.action_clients = before.action_clients := by
  obtain ⟨hrepresents, hmem⟩ := hlinked.represents_actions
  have hkept : after.action_queue.Represents after.nodes before.action_clients := by
    rw [h.action_queue]
    exact hrepresents.congr (fun other hother => h.nodes other ((hmem other).mp hother))
  exact hkept.walk

/-- Appending a client to `action_queue` puts it at the end of the walk. -/
theorem Linked.walk_add_last (h : Linked before.com_queue before.action_queue before.nodes place stamp)
    (hclient : place client ≠ .pending) :
    (before.action_add_last client).action_clients = before.action_clients ++ [client] := by
  obtain ⟨hrepresents, hmem⟩ := h.represents_actions
  exact (hrepresents.add_last (fun hin => hclient ((hmem client).mp hin))).walk

/-- Taking the first client off `action_queue`. -/
theorem Linked.walk_remove_first (h : Linked before.com_queue before.action_queue before.nodes place stamp) :
    before.action_remove_first.2.action_clients = before.action_clients.tail := by
  obtain ⟨hrepresents, _⟩ := h.represents_actions
  cases hclients : before.action_clients with
  | nil =>
    rw [hclients] at hrepresents
    have hempty : before.action_queue.remove_first before.nodes = _ := Queue.remove_first_empty hrepresents.head
    have hsame : before.action_remove_first.2 = before := by
      simp only [Connector.action_remove_first, hempty]
    rw [hsame, hclients]
    rfl
  | cons first rest =>
    rw [hclients] at hrepresents
    have hsplit : before.action_queue.Represents before.nodes ([] ++ first :: rest) := hrepresents
    have hremoved : before.action_remove_first.2.action_queue.Represents before.action_remove_first.2.nodes rest := by
      simp only [Connector.action_remove_first, hrepresents.remove_first_eq]
      exact hsplit.remove
    exact hremoved.walk

end

end ufh
