import UniversalFencingHub.ServerConnector.ActionQueue

namespace ufh

/-- The queued clients are the contents of `com_queue`, and no client is lost.
A server that has not run into one of its errors is in such a state. -/
structure Complete (com_queue : Queue ClientPtr) (nodes : Nodes ClientPtr) (place : ClientPtr → Place) : Prop where
  contents : ∃ queued, com_queue.Represents nodes queued ∧ ∀ client, client ∈ queued ↔ place client = .queued
  not_lost : ∀ client, place client ≠ .lost

namespace Complete

variable {com_queue action_queue : Queue ClientPtr} {nodes : Nodes ClientPtr} {place : ClientPtr → Place}
  {stamp : ClientPtr → Nat} {client : ClientPtr} {target : Place}

theorem congr {nodes' : Nodes ClientPtr} {place' : ClientPtr → Place} (h : Complete com_queue nodes place)
    (hnodes : ∀ client, place client = .queued → nodes' client = nodes client)
    (hqueued : ∀ client, place' client = .queued ↔ place client = .queued) (hlost : ∀ client, place' client ≠ .lost) :
    Complete com_queue nodes' place' := by
  obtain ⟨queued, hrepresents, hmem⟩ := h.contents
  refine ⟨⟨queued, hrepresents.congr (fun other hother => hnodes other ((hmem other).mp hother)), ?_⟩, hlost⟩
  exact fun other => (hmem other).trans (hqueued other).symm

theorem not_lost_update (h : Complete com_queue nodes place) (htarget : target ≠ .lost) (other : ClientPtr) :
    Function.update place client target other ≠ .lost := by
  by_cases heq : other = client
  · rw [heq, Function.update_self]
    exact htarget
  · rw [Function.update_of_ne heq]
    exact h.not_lost other

/-- A client that is not queued moves to another place. -/
theorem move (h : Complete com_queue nodes place) (hclient : place client ≠ .queued) (htarget : target ≠ .queued)
    (hlost : target ≠ .lost) : Complete com_queue nodes (Function.update place client target) :=
  h.congr (fun _ _ => rfl) (Place.update_iff hclient htarget) (h.not_lost_update hlost)

theorem remove (h : Complete com_queue nodes place) (hqueued : place client = .queued) (htarget : target ≠ .queued)
    (hlost : target ≠ .lost) :
    Complete (com_queue.remove nodes client).1 (com_queue.remove nodes client).2
      (Function.update place client target) := by
  obtain ⟨queued, hrepresents, hmem⟩ := h.contents
  obtain ⟨front, back, rfl⟩ := List.append_of_mem ((hmem client).mpr hqueued)
  refine ⟨⟨front ++ back, hrepresents.remove, fun other => ?_⟩, h.not_lost_update hlost⟩
  have hfresh := (List.nodup_cons.mp (List.nodup_middle.mp hrepresents.nodup)).1
  rw [Place.update_iff_of_source htarget, ← hmem]
  simp only [List.mem_append, List.mem_cons] at hfresh ⊢
  constructor
  · intro hother
    exact ⟨fun heq => hfresh (heq ▸ hother), hother.imp_right Or.inr⟩
  · rintro ⟨hne, hother | heq | hother⟩
    · exact Or.inl hother
    · exact absurd heq hne
    · exact Or.inr hother

/-- Removing a client that is on no queue does no harm while `com_queue` is empty. -/
theorem remove_empty (h : Complete com_queue nodes place) (hempty : com_queue.head_node = none)
    (hdetached : Queue.Detached nodes client) (hclient : place client ≠ .queued) (htarget : target ≠ .queued)
    (hlost : target ≠ .lost) :
    Complete (com_queue.remove nodes client).1 (com_queue.remove nodes client).2
      (Function.update place client target) := by
  obtain ⟨queued, hrepresents, hmem⟩ := h.contents
  obtain rfl := hrepresents.head_eq_none_iff.mp hempty
  obtain ⟨hhead, htail, hnodes⟩ := Queue.remove_detached com_queue nodes client hdetached
  rw [hnodes]
  refine ⟨⟨[], ⟨hhead, htail, trivial, List.nodup_nil⟩, fun other => ?_⟩, h.not_lost_update hlost⟩
  rw [Place.update_iff hclient htarget, hmem]

theorem add_last (h : Complete com_queue nodes place) (hclient : place client ≠ .queued) :
    Complete (com_queue.add_last nodes client).1 (com_queue.add_last nodes client).2
      (Function.update place client .queued) := by
  obtain ⟨queued, hrepresents, hmem⟩ := h.contents
  have hfresh : client ∉ queued := fun hin => hclient ((hmem client).mp hin)
  refine ⟨⟨queued ++ [client], hrepresents.add_last hfresh, fun other => ?_⟩, h.not_lost_update (by simp)⟩
  rw [Place.update_iff_of_target, List.mem_append, List.mem_singleton, hmem, or_comm]

/-- The first of the queued clients is taken off `com_queue`. -/
theorem remove_first (h : Complete com_queue nodes place) (hhead : com_queue.head_node = some client)
    (htarget : target ≠ .queued) (hlost : target ≠ .lost) :
    Complete (com_queue.remove_first nodes).2.1 (com_queue.remove_first nodes).2.2
      (Function.update place client target) := by
  obtain ⟨queued, hrepresents, hmem⟩ := h.contents
  obtain ⟨rest, rfl⟩ : ∃ rest, queued = client :: rest := by
    rw [hrepresents.head] at hhead
    cases queued with
    | nil => cases hhead
    | cons first rest =>
      obtain rfl := Option.some.inj hhead
      exact ⟨rest, rfl⟩
  rw [hrepresents.remove_first_eq]
  exact h.remove ((hmem client).mp List.mem_cons_self) htarget hlost

theorem action_add_last (h : Complete com_queue nodes place) (hlinked : Linked com_queue action_queue nodes place stamp)
    (hclient : place client ≠ .queued) :
    Complete com_queue (action_queue.add_last nodes client).2 (Function.update place client .pending) := by
  apply h.congr
  · intro other hother
    exact hlinked.action_add_last_kept (fun heq => hclient (heq ▸ hother)) (by simp [hother])
  · exact Place.update_iff hclient (by simp)
  · exact h.not_lost_update (by simp)

theorem action_remove_first (h : Complete com_queue nodes place)
    (hlinked : Linked com_queue action_queue nodes place stamp) (hclient : place client ≠ .queued)
    (htarget : target ≠ .queued) (hlost : target ≠ .lost) :
    Complete com_queue (action_queue.remove_first nodes).2.2 (Function.update place client target) := by
  apply h.congr
  · intro other hother
    exact hlinked.action_remove_first_kept (by simp [hother])
  · exact Place.update_iff hclient htarget
  · exact h.not_lost_update hlost

end Complete

end ufh
