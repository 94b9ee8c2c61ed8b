import UniversalFencingHub.Queue.Operations

open linked_list

namespace ufh

namespace Queue

/-- The links of a queue implement a list without repetition: head and tail
point at its ends and neighbours point at each other. -/
structure Represents {T : Type} (queue : Queue T) (nodes : Nodes T) (contents : List T) : Prop where
  head : queue.head_node = contents.head?
  tail : queue.tail_node = contents.getLast?
  segment : Segment nodes.next nodes.prev none contents none
  nodup : contents.Nodup

/-- A node on no queue: both links are null. -/
def Detached {T : Type} (nodes : Nodes T) (node : T) : Prop := nodes.next node = none ∧ nodes.prev node = none

theorem add_last_queue {T : Type} [DecidableEq T] (queue : Queue T) (nodes : Nodes T) (node : T) :
    (queue.add_last nodes node).1.head_node = queue.tail_node.elim (some node) (fun _ => queue.head_node) ∧
      (queue.add_last nodes node).1.tail_node = some node := by
  unfold add_last
  cases queue.tail_node <;> exact ⟨rfl, rfl⟩

/-- The links after `add_last`: the old tail points forward to the new node,
which becomes the last one. -/
theorem add_last_links {T : Type} [DecidableEq T] (queue : Queue T) (nodes : Nodes T) (node : T) :
    (queue.add_last nodes node).2.next =
        Function.update (relink nodes.next queue.tail_node (some node)) node none ∧
      (queue.add_last nodes node).2.prev = Function.update nodes.prev node queue.tail_node := by
  unfold add_last
  cases queue.tail_node <;> simp

theorem add_last_next_of_ne {T : Type} [DecidableEq T] (queue : Queue T) (nodes : Nodes T) {node other : T}
    (hother : other ≠ node) :
    (queue.add_last nodes node).2.next other =
      if queue.tail_node = some other then some node else nodes.next other := by
  rw [(add_last_links queue nodes node).1, Function.update_of_ne hother]
  by_cases htail : queue.tail_node = some other
  · rw [htail, relink_some, Function.update_self, if_pos rfl]
  · rw [relink_of_ne htail, if_neg htail]

theorem add_last_prev_of_ne {T : Type} [DecidableEq T] (queue : Queue T) (nodes : Nodes T) {node other : T}
    (hother : other ≠ node) : (queue.add_last nodes node).2.prev other = nodes.prev other := by
  rw [(add_last_links queue nodes node).2, Function.update_of_ne hother]

theorem remove_queue {T : Type} [DecidableEq T] (queue : Queue T) (nodes : Nodes T) (node : T)
    (hself : nodes.prev node ≠ some node) :
    (queue.remove nodes node).1.head_node =
        (nodes.prev node).elim (nodes.next node) (fun _ => queue.head_node) ∧
      (queue.remove nodes node).1.tail_node =
        (nodes.next node).elim (nodes.prev node) (fun _ => queue.tail_node) := by
  unfold remove
  cases hbefore : nodes.prev node with
  | none => cases hafter : nodes.next node <;> simp [hbefore, hafter]
  | some before =>
    have hne : node ≠ before := fun heq => hself (by rw [hbefore, heq])
    cases hafter : nodes.next node <;> simp [hbefore, hafter, Function.update_of_ne hne]

/-- The links after `remove`: the neighbours point at each other and the node
is detached. -/
theorem remove_links {T : Type} [DecidableEq T] (queue : Queue T) (nodes : Nodes T) (node : T)
    (hself : nodes.prev node ≠ some node) :
    (queue.remove nodes node).2.next =
        Function.update (relink nodes.next (nodes.prev node) (nodes.next node)) node none ∧
      (queue.remove nodes node).2.prev =
        Function.update (relink nodes.prev (nodes.next node) (nodes.prev node)) node none := by
  unfold remove
  cases hbefore : nodes.prev node with
  | none => cases hafter : nodes.next node <;> simp [hbefore, hafter]
  | some before =>
    have hne : node ≠ before := fun heq => hself (by rw [hbefore, heq])
    cases hafter : nodes.next node <;> simp [hbefore, hafter, Function.update_of_ne hne]

theorem remove_next_of_ne {T : Type} [DecidableEq T] (queue : Queue T) {nodes : Nodes T} {node other : T}
    (hself : nodes.prev node ≠ some node) (hother : other ≠ node) :
    (queue.remove nodes node).2.next other =
      if nodes.prev node = some other then nodes.next node else nodes.next other := by
  rw [(remove_links queue nodes node hself).1, Function.update_of_ne hother]
  by_cases hbefore : nodes.prev node = some other
  · rw [hbefore, relink_some, Function.update_self, if_pos rfl]
  · rw [relink_of_ne hbefore, if_neg hbefore]

theorem remove_prev_of_ne {T : Type} [DecidableEq T] (queue : Queue T) {nodes : Nodes T} {node other : T}
    (hself : nodes.prev node ≠ some node) (hother : other ≠ node) :
    (queue.remove nodes node).2.prev other =
      if nodes.next node = some other then nodes.prev node else nodes.prev other := by
  rw [(remove_links queue nodes node hself).2, Function.update_of_ne hother]
  by_cases hafter : nodes.next node = some other
  · rw [hafter, relink_some, Function.update_self, if_pos rfl]
  · rw [relink_of_ne hafter, if_neg hafter]

/-- Removing a node that is on no queue from a queue empties that queue: both
ends are overwritten with the null links of the node. -/
theorem remove_detached {T : Type} [DecidableEq T] (queue : Queue T) (nodes : Nodes T) (node : T)
    (hdetached : Detached nodes node) :
    (queue.remove nodes node).1.head_node = none ∧ (queue.remove nodes node).1.tail_node = none ∧
      (queue.remove nodes node).2 = nodes := by
  have hself : nodes.prev node ≠ some node := by simp [hdetached.2]
  obtain ⟨hhead, htail⟩ := remove_queue queue nodes node hself
  obtain ⟨hnext, hprev⟩ := remove_links queue nodes node hself
  obtain ⟨hn, hp⟩ := hdetached
  refine ⟨by simp [hhead, hn, hp], by simp [htail, hn, hp], Nodes.ext_links ?_ ?_⟩
  · rw [hnext, hp, relink_none, ← hn, Function.update_eq_self]
  · rw [hprev, hn, relink_none, ← hp, Function.update_eq_self]

/-- The node removed from a queue is detached afterwards. -/
theorem remove_detaches {T : Type} [DecidableEq T] (queue : Queue T) (nodes : Nodes T) (node : T)
    (hself : nodes.prev node ≠ some node) : Detached (queue.remove nodes node).2 node := by
  obtain ⟨hnext, hprev⟩ := remove_links queue nodes node hself
  simp [Detached, hnext, hprev]

theorem Represents.head_eq_none_iff {T : Type} {queue : Queue T} {nodes : Nodes T} {contents : List T}
    (h : queue.Represents nodes contents) : queue.head_node = none ↔ contents = [] := by
  rw [h.head, List.head?_eq_none_iff]

theorem Represents.congr {T : Type} {queue : Queue T} {nodes nodes' : Nodes T} {contents : List T}
    (h : queue.Represents nodes contents) (hnodes : ∀ node ∈ contents, nodes' node = nodes node) :
    queue.Represents nodes' contents where
  head := h.head
  tail := h.tail
  nodup := h.nodup
  segment := h.segment.congr (fun node hnode => by simp [Nodes.next, hnodes node hnode])
    (fun node hnode => by simp [Nodes.prev, hnodes node hnode])

theorem Represents.add_last {T : Type} [DecidableEq T] {queue : Queue T} {nodes : Nodes T} {contents : List T}
    (h : queue.Represents nodes contents) {node : T} (hfresh : node ∉ contents) :
    (queue.add_last nodes node).1.Represents (queue.add_last nodes node).2 (contents ++ [node]) := by
  obtain ⟨hhead, htail⟩ := add_last_queue queue nodes node
  obtain ⟨hnext, hprev⟩ := add_last_links queue nodes node
  constructor
  · rw [hhead, h.tail, h.head]
    cases contents with
    | nil => rfl
    | cons first rest => simp [List.getLast?_cons]
  · simpa using htail
  · rw [hnext, hprev, h.tail]
    exact h.segment.append_node hfresh h.nodup
  · simp only [List.nodup_append, List.nodup_cons, List.not_mem_nil, not_false_eq_true, List.nodup_nil,
      and_self, List.mem_singleton, true_and]
    exact ⟨h.nodup, fun n hn m hm => hm ▸ ne_of_mem_of_not_mem hn hfresh⟩

theorem Represents.links {T : Type} {queue : Queue T} {nodes : Nodes T} {front back : List T} {node : T}
    (h : queue.Represents nodes (front ++ node :: back)) :
    nodes.prev node = front.getLast? ∧ nodes.next node = back.head? := by
  obtain ⟨_, hback, hforward, _⟩ := (Segment.append front (node :: back)).mp h.segment
  simpa using And.intro hback hforward

theorem Represents.prev_ne_self {T : Type} {queue : Queue T} {nodes : Nodes T} {front back : List T} {node : T}
    (h : queue.Represents nodes (front ++ node :: back)) : nodes.prev node ≠ some node := by
  rw [h.links.1]
  intro heq
  exact (List.nodup_append.mp h.nodup).2.2 node (List.mem_of_getLast? heq) node (by simp) rfl

theorem Represents.remove {T : Type} [DecidableEq T] {queue : Queue T} {nodes : Nodes T} {front back : List T}
    {node : T} (h : queue.Represents nodes (front ++ node :: back)) :
    (queue.remove nodes node).1.Represents (queue.remove nodes node).2 (front ++ back) := by
  obtain ⟨hprev, hnext⟩ := h.links
  obtain ⟨hhead, htail⟩ := remove_queue queue nodes node h.prev_ne_self
  obtain ⟨hnext', hprev'⟩ := remove_links queue nodes node h.prev_ne_self
  have hnodup : (front ++ back).Nodup := h.nodup.sublist (by simp)
  have hfresh : node ∉ front ++ back := by
    have hmiddle := List.nodup_middle.mp h.nodup
    exact (List.nodup_cons.mp hmiddle).1
  constructor
  · rw [hhead, hprev, hnext, h.head]
    cases front with
    | nil => simp
    | cons first rest => simp [List.getLast?_cons]
  · rw [htail, hprev, hnext, h.tail]
    cases back with
    | nil => simp
    | cons first rest => simp [List.getLast?_append, List.getLast?_cons]
  · refine (Segment.remove_node h.nodup h.segment).congr (fun n hn => ?_) (fun n hn => ?_)
    · rw [hnext', hprev, hnext, Function.update_of_ne (ne_of_mem_of_not_mem hn hfresh)]
    · rw [hprev', hprev, hnext, Function.update_of_ne (ne_of_mem_of_not_mem hn hfresh)]
  · exact hnodup

theorem remove_first_empty {T : Type} [DecidableEq T] {queue : Queue T} {nodes : Nodes T}
    (h : queue.head_node = none) : queue.remove_first nodes = (none, queue, nodes) := by
  simp [remove_first, h]

/-- On a represented queue `remove_first` unlinks the head exactly as `remove`
does; in particular it never follows a null pointer. -/
theorem Represents.remove_first_eq {T : Type} [DecidableEq T] {queue : Queue T} {nodes : Nodes T} {first : T}
    {rest : List T} (h : queue.Represents nodes (first :: rest)) :
    queue.remove_first nodes =
      (some first, (queue.remove nodes first).1, (queue.remove nodes first).2) := by
  have hsplit : queue.Represents nodes ([] ++ first :: rest) := h
  obtain ⟨hprev, hnext⟩ := hsplit.links
  have hself := hsplit.prev_ne_self
  obtain ⟨hhead', htail'⟩ := remove_queue queue nodes first hself
  obtain ⟨hnext', hprev'⟩ := remove_links queue nodes first hself
  have hsize : (queue.remove nodes first).1.size = size_decrement queue.size := rfl
  simp only [List.getLast?_nil] at hprev
  simp only [hprev, Option.elim_none] at hhead' htail'
  have hhead : queue.head_node = some first := h.head
  cases rest with
  | nil =>
    have htail : queue.tail_node = some first := h.tail
    simp only [List.head?_nil] at hnext
    have hnodes : (queue.remove nodes first).2 = nodes.set_next (some first) none := by
      apply Nodes.ext_links
      · simp [hnext', hprev, hnext]
      · rw [hprev', hnext, relink_none, ← hprev, Function.update_eq_self, Nodes.prev_set_next]
    have hqueue : (queue.remove nodes first).1 =
        { size := size_decrement queue.size, head_node := none, tail_node := none } := by
      cases hq : (queue.remove nodes first).1
      simp_all
    simp [remove_first, hhead, htail, hnodes, hqueue]
  | cons second rest =>
    have hne : some first ≠ queue.tail_node := by
      rw [h.tail]
      intro heq
      exact (List.nodup_cons.mp h.nodup).1 (List.mem_of_getLast? (by simpa [List.getLast?_cons] using heq.symm))
    simp only [List.head?_cons] at hnext
    have hnodes : (queue.remove nodes first).2 =
        (nodes.set_prev (some second) none).set_next (some first) none := by
      apply Nodes.ext_links
      · simp [hnext', hprev]
      · have hne : second ≠ first := fun heq => (List.nodup_cons.mp h.nodup).1 (heq ▸ List.mem_cons_self)
        simp only [hprev', hnext, hprev, Nodes.prev_set_next, Nodes.prev_set_prev, relink_some]
        rw [Function.update_comm hne, ← hprev, Function.update_eq_self]
    have hqueue : (queue.remove nodes first).1 =
        { size := size_decrement queue.size, head_node := some second, tail_node := queue.tail_node } := by
      cases hq : (queue.remove nodes first).1
      simp_all
    simp [remove_first, hhead, hne, hnext, hnodes, hqueue]

end Queue

end ufh
