import UniversalFencingHub.Queue.Represents

open linked_list looping

namespace ufh

/-- The nodes seen from the other end of a queue. -/
def Nodes.mirror {T : Type} (nodes : Nodes T) : Nodes T :=
  fun node => { next_node := nodes.prev node, prev_node := nodes.next node }

@[simp] theorem Nodes.next_mirror {T : Type} (nodes : Nodes T) : nodes.mirror.next = nodes.prev := rfl

@[simp] theorem Nodes.prev_mirror {T : Type} (nodes : Nodes T) : nodes.mirror.prev = nodes.next := rfl

theorem Nodes.mirror_set_next {T : Type} [DecidableEq T] (nodes : Nodes T) (target value : Option T) :
    (nodes.set_next target value).mirror = nodes.mirror.set_prev target value :=
  Nodes.ext_links (by simp) (by simp)

theorem Nodes.mirror_set_prev {T : Type} [DecidableEq T] (nodes : Nodes T) (target value : Option T) :
    (nodes.set_prev target value).mirror = nodes.mirror.set_next target value :=
  Nodes.ext_links (by simp) (by simp)

/-- The two links are stored independently of each other. -/
theorem Nodes.set_prev_set_next {T : Type} [DecidableEq T] (nodes : Nodes T) (target target' value value' : Option T) :
    (nodes.set_next target value).set_prev target' value' = (nodes.set_prev target' value').set_next target value :=
  Nodes.ext_links (by simp) (by simp)

namespace Queue

/-- A queue seen from its other end. -/
def mirror {T : Type} (queue : Queue T) : Queue T :=
  { queue with head_node := queue.tail_node, tail_node := queue.head_node }

/-- An operation on one queue: the queue represents another list, and the links of the nodes that are
neither on it before nor afterwards stay as they are. -/
structure Updates {T : Type} (nodes : Nodes T) (contents : List T) (after : Queue T) (nodes' : Nodes T)
    (contents' : List T) : Prop where
  represents : after.Represents nodes' contents'
  others : ∀ node, node ∉ contents → node ∉ contents' → nodes' node = nodes node
  detached : ∀ node ∈ contents, node ∉ contents' → Detached nodes' node

section

variable {T : Type} {queue after : Queue T} {nodes nodes' : Nodes T} {contents contents' : List T} {node : T}

theorem Represents.mirror (h : queue.Represents nodes contents) :
    queue.mirror.Represents nodes.mirror contents.reverse where
  head := by rw [List.head?_reverse]; exact h.tail
  tail := by rw [List.getLast?_reverse]; exact h.head
  segment := h.segment.reverse
  nodup := List.nodup_reverse.mpr h.nodup

/-- What a queue represents does not depend on its counter. -/
theorem Represents.of_ends (h : queue.Represents nodes contents) (hhead : after.head_node = queue.head_node)
    (htail : after.tail_node = queue.tail_node) : after.Represents nodes contents :=
  ⟨hhead.trans h.head, htail.trans h.tail, h.segment, h.nodup⟩

theorem Represents.walks (h : queue.Represents nodes contents) :
    Walk nodes.next queue.get_first contents ∧ Walk nodes.prev queue.get_last contents.reverse := by
  have hforward := h.segment.walk
  have hbackward := h.mirror.segment.walk
  rw [← h.head] at hforward
  rw [← h.mirror.head] at hbackward
  exact ⟨hforward, hbackward⟩

/-- An operation at the other end of the queue. -/
theorem Updates.of_mirror (h : Updates nodes.mirror contents.reverse after.mirror nodes'.mirror contents'.reverse) :
    Updates nodes contents after nodes' contents' where
  represents := by
    have hmirror := h.represents.mirror
    rw [List.reverse_reverse] at hmirror
    exact hmirror
  others node hbefore hafter := by
    have hsame := h.others node (by simpa using hbefore) (by simpa using hafter)
    obtain ⟨hprev, hnext⟩ := Node.mk.inj hsame
    exact Nodes.eq_of_links hnext hprev
  detached node hbefore hafter := by
    obtain ⟨hprev, hnext⟩ := h.detached node (by simpa using hbefore) (by simpa using hafter)
    exact ⟨hnext, hprev⟩

variable [DecidableEq T]

theorem updates_add_last (h : queue.Represents nodes contents) (hfresh : node ∉ contents) :
    Updates nodes contents (queue.add_last nodes node).1 (queue.add_last nodes node).2 (contents ++ [node]) where
  represents := h.add_last hfresh
  others other hbefore hafter := by
    have hne : other ≠ node := fun heq => hafter (by simp [heq])
    have htail : queue.tail_node ≠ some other := by
      rw [h.tail]
      exact fun heq => hbefore (List.mem_of_getLast? heq)
    apply Nodes.eq_of_links
    · rw [add_last_next_of_ne queue nodes hne, if_neg htail]
    · rw [add_last_prev_of_ne queue nodes hne]
  detached other hbefore hafter := absurd (List.mem_append_left _ hbefore) hafter

theorem add_last_mirror (queue : Queue T) (nodes : Nodes T) (node : T) :
    queue.mirror.add_last nodes.mirror node =
      ((queue.add_first nodes node).1.mirror, (queue.add_first nodes node).2.mirror) := by
  unfold add_last add_first
  cases hhead : queue.head_node <;> simp [mirror, hhead, Nodes.mirror_set_next, Nodes.mirror_set_prev,
    Nodes.set_prev_set_next]

theorem updates_add_first (h : queue.Represents nodes contents) (hfresh : node ∉ contents) :
    Updates nodes contents (queue.add_first nodes node).1 (queue.add_first nodes node).2 (node :: contents) := by
  have hadded := updates_add_last h.mirror (show node ∉ contents.reverse by simpa using hfresh)
  rw [add_last_mirror, ← List.reverse_cons] at hadded
  exact hadded.of_mirror

theorem updates_remove {front back : List T} (h : queue.Represents nodes (front ++ node :: back)) :
    Updates nodes (front ++ node :: back) (queue.remove nodes node).1 (queue.remove nodes node).2
      (front ++ back) where
  represents := h.remove
  others other hbefore hafter := by
    obtain ⟨hprev, hnext⟩ := h.links
    have hself := h.prev_ne_self
    rw [List.mem_append, List.mem_cons, not_or, not_or] at hbefore
    obtain ⟨hfront, hne, hback⟩ := hbefore
    apply Nodes.eq_of_links
    · rw [remove_next_of_ne queue hself hne, if_neg]
      rw [hprev]
      exact fun heq => hfront (List.mem_of_getLast? heq)
    · rw [remove_prev_of_ne queue hself hne, if_neg]
      rw [hnext]
      exact fun heq => hback (List.mem_of_mem_head? heq)
  detached other hbefore hafter := by
    obtain rfl : other = node := by
      simp only [List.mem_append, List.mem_cons, not_or] at hbefore hafter
      tauto
    exact remove_detaches queue nodes other h.prev_ne_self

theorem updates_remove_first (h : queue.Represents nodes contents) :
    (queue.remove_first nodes).1 = contents.head? ∧
      Updates nodes contents (queue.remove_first nodes).2.1 (queue.remove_first nodes).2.2 contents.tail := by
  cases contents with
  | nil =>
    rw [remove_first_empty h.head]
    exact ⟨rfl, h, fun _ _ _ => rfl, nofun⟩
  | cons first rest =>
    rw [h.remove_first_eq]
    have hsplit : queue.Represents nodes ([] ++ first :: rest) := h
    exact ⟨rfl, updates_remove hsplit⟩

/-- Seen from the other end, `remove_last` is `remove_first`, apart from the counter. -/
theorem remove_first_mirror (queue : Queue T) (nodes : Nodes T) :
    (queue.mirror.remove_first nodes.mirror).1 = (queue.remove_last nodes).1 ∧
      (queue.mirror.remove_first nodes.mirror).2.1.head_node = (queue.remove_last nodes).2.1.tail_node ∧
      (queue.mirror.remove_first nodes.mirror).2.1.tail_node = (queue.remove_last nodes).2.1.head_node ∧
      (queue.mirror.remove_first nodes.mirror).2.2 = (queue.remove_last nodes).2.2.mirror := by
  unfold remove_first remove_last
  cases htail : queue.tail_node with
  | none => simp [mirror, htail]
  | some rmv_node =>
    by_cases hsame : queue.head_node = some rmv_node
    · simp [mirror, htail, hsame, Nodes.mirror_set_prev]
    · have hsame' : some rmv_node ≠ queue.head_node := fun heq => hsame heq.symm
      simp [mirror, htail, hsame, hsame', Nodes.mirror_set_prev, Nodes.mirror_set_next]

theorem updates_remove_last (h : queue.Represents nodes contents) :
    (queue.remove_last nodes).1 = contents.getLast? ∧
      Updates nodes contents (queue.remove_last nodes).2.1 (queue.remove_last nodes).2.2 contents.dropLast := by
  obtain ⟨hreturned, hhead, htail, hnodes⟩ := remove_first_mirror queue nodes
  obtain ⟨hfirst, hupdates⟩ := updates_remove_first h.mirror
  rw [hreturned, List.head?_reverse] at hfirst
  rw [List.tail_reverse, hnodes] at hupdates
  refine ⟨hfirst, Updates.of_mirror ⟨?_, hupdates.others, hupdates.detached⟩⟩
  exact hupdates.represents.of_ends hhead.symm htail.symm

/-- The loop of `clear` ends, and it has unlinked the nodes that it met. -/
theorem run_clear {first : Option T} {fuel : Nat} (hwalk : Walk nodes.next first contents) (hnodup : contents.Nodup)
    (hfuel : contents.length < fuel) :
    ∃ cleared, run clear_round fuel (first, nodes) = some cleared ∧
      (∀ node ∈ contents, Detached cleared node) ∧ ∀ node, node ∉ contents → cleared node = nodes node := by
  induction contents generalizing first fuel nodes with
  | nil =>
    obtain ⟨rest, rfl⟩ : ∃ rest, fuel = rest + 1 := ⟨fuel - 1, by simp only [List.length_nil] at hfuel; omega⟩
    obtain rfl : first = none := hwalk
    exact ⟨nodes, run_result rfl, nofun, fun _ _ => rfl⟩
  | cons clr_node others ih =>
    obtain ⟨rest, rfl⟩ : ∃ rest, fuel = rest + 1 := ⟨fuel - 1, by omega⟩
    obtain ⟨rfl, hothers⟩ := hwalk
    obtain ⟨hfresh, hnodup⟩ := List.nodup_cons.mp hnodup
    have hround : clear_round (some clr_node, nodes) =
        .inl (nodes.next clr_node, (nodes.set_next (some clr_node) none).set_prev (some clr_node) none) := rfl
    have hkept : ∀ node, node ≠ clr_node →
        ((nodes.set_next (some clr_node) none).set_prev (some clr_node) none) node = nodes node := by
      intro node hne
      simp [Nodes.set_prev, Nodes.set_next, hne]
    have hwalk : Walk ((nodes.set_next (some clr_node) none).set_prev (some clr_node) none).next
        (nodes.next clr_node) others := by
      apply hothers.congr
      intro node hnode
      rw [Nodes.next, hkept node (ne_of_mem_of_not_mem hnode hfresh)]
      rfl
    obtain ⟨cleared, hrun, hdetached, hsame⟩ := ih hwalk hnodup (Nat.lt_of_succ_lt_succ hfuel)
    refine ⟨cleared, (run_next hround).trans hrun, ?_, ?_⟩
    · refine List.forall_mem_cons.mpr ⟨?_, hdetached⟩
      have hlinks := hsame clr_node hfresh
      simp [Detached, Nodes.next, Nodes.prev, hlinks, Nodes.set_prev, Nodes.set_next]
    · intro node hnode
      obtain ⟨hne, hothers⟩ := not_or.mp (List.mem_cons.not.mp hnode)
      rw [hsame node hothers, hkept node hne]

theorem updates_clear {fuel : Nat} (h : queue.Represents nodes contents) (hfuel : contents.length < fuel) :
    ∃ cleared, queue.clear nodes fuel = some ({ size := 0 }, cleared) ∧
      Updates nodes contents { size := 0 } cleared [] := by
  obtain ⟨cleared, hrun, hdetached, hsame⟩ := run_clear h.walks.1 h.nodup hfuel
  refine ⟨cleared, ?_, ⟨rfl, rfl, trivial, List.nodup_nil⟩, fun node hbefore _ => hsame node hbefore,
    fun node hbefore _ => hdetached node hbefore⟩
  change run clear_round fuel (queue.head_node, nodes) = some cleared at hrun
  rw [clear, hrun]
  rfl

end

end Queue

end ufh
