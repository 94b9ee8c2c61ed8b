import Mathlib.Data.Fintype.Defs
import UniversalFencingHub.Library.Transition
import UniversalFencingHub.Queue.Updates

open linked_list transition

namespace ufh

/-- The operations of a queue. -/
inductive QueueCall (T : Type) where
  | add_first (ins_node : T)
  | add_last (ins_node : T)
  | remove_first
  | remove_last
  | remove (rmv_node : T)
  | clear
  deriving DecidableEq

namespace QueueCall

variable {T : Type} [DecidableEq T]

/-- The same operation on a list. -/
def contents_after (contents : List T) : QueueCall T → List T
  | add_first ins_node => ins_node :: contents
  | add_last ins_node => contents ++ [ins_node]
  | remove_first => contents.tail
  | remove_last => contents.dropLast
  | remove rmv_node => contents.erase rmv_node
  | clear => []

/-- The node that the same operation on a list returns. -/
def returned (contents : List T) : QueueCall T → Option T
  | remove_first => contents.head?
  | remove_last => contents.getLast?
  | _ => none

def added : QueueCall T → Option T
  | add_first ins_node => some ins_node
  | add_last ins_node => some ins_node
  | _ => none

def removed : QueueCall T → Option T
  | remove rmv_node => some rmv_node
  | _ => none

/-- What the call makes of the counter of a queue with the given contents. -/
def size_after (contents : List T) (size : Nat) : QueueCall T → Nat
  | add_first _ => size_increment size
  | add_last _ => size_increment size
  | remove_first => if contents.length = 0 then size else size_decrement size
  | remove_last => if contents.length ≤ 1 then size else size_decrement size
  | remove _ => size_decrement size
  | clear => 0

/-- The calls that keep the counter of a queue right: a node is counted, and `remove_last` does not take the
only node. -/
def Counted (contents : List T) : QueueCall T → Prop
  | add_first _ => contents.length + 1 < 2 ^ 64
  | add_last _ => contents.length + 1 < 2 ^ 64
  | remove_last => contents.length ≠ 1
  | _ => True

instance (contents : List T) (call : QueueCall T) : Decidable (call.Counted contents) := by
  cases call
  all_goals
    unfold Counted
    infer_instance

/-- A counter that is right stays so exactly in a call that counts, and it does not wrap below zero. -/
theorem size_after_right {contents : List T} {call : QueueCall T}
    (hremoved : ∀ node ∈ call.removed, node ∈ contents) :
    (call.size_after contents contents.length = (call.contents_after contents).length ↔ call.Counted contents) ∧
      ¬ (contents.length = 0 ∧ call.size_after contents contents.length = size_decrement 0) := by
  cases call with
  | add_first ins_node =>
    simp only [size_after, size_increment, size_decrement, contents_after, Counted, List.length_cons, if_true]
    omega
  | add_last ins_node =>
    simp only [size_after, size_increment, size_decrement, contents_after, Counted, List.length_append,
      List.length_singleton, if_true]
    omega
  | remove_first =>
    simp only [size_after, size_decrement, contents_after, Counted, List.length_tail, iff_true]
    split_ifs <;> omega
  | remove_last =>
    simp only [size_after, size_decrement, contents_after, Counted, List.length_dropLast]
    split_ifs <;> omega
  | remove rmv_node =>
    have hmem := hremoved rmv_node rfl
    have hpositive := List.length_pos_of_mem hmem
    simp only [size_after, size_decrement, contents_after, Counted, List.length_erase_of_mem hmem, iff_true]
    split_ifs <;> omega
  | clear =>
    refine ⟨iff_of_true rfl trivial, fun hwrap => ?_⟩
    cases hwrap.2

end QueueCall

namespace Queue

variable {T : Type} [DecidableEq T] {queue after : Queue T} {nodes nodes' : Nodes T} {contents : List T}
  {call : QueueCall T} {fuel : Nat} {returned : Option T}

/-- A call: the node that it returns, the queue and the nodes. -/
def perform (queue : Queue T) (nodes : Nodes T) (fuel : Nat) : QueueCall T → Option (Option T × Queue T × Nodes T)
  | .add_first ins_node => some (none, queue.add_first nodes ins_node)
  | .add_last ins_node => some (none, queue.add_last nodes ins_node)
  | .remove_first => some (queue.remove_first nodes)
  | .remove_last => some (queue.remove_last nodes)
  | .remove rmv_node => some (none, queue.remove nodes rmv_node)
  | .clear => (queue.clear nodes fuel).map fun cleared => (none, cleared)

/-- A call on a queue is the same operation on the list that it represents. -/
theorem perform_spec (h : queue.Represents nodes contents) (hadded : ∀ node ∈ call.added, node ∉ contents)
    (hremoved : ∀ node ∈ call.removed, node ∈ contents) (hfuel : contents.length < fuel) :
    ∃ after nodes', queue.perform nodes fuel call = some (call.returned contents, after, nodes') ∧
      Updates nodes contents after nodes' (call.contents_after contents) := by
  cases call with
  | add_first ins_node => exact ⟨_, _, rfl, updates_add_first h (hadded ins_node rfl)⟩
  | add_last ins_node => exact ⟨_, _, rfl, updates_add_last h (hadded ins_node rfl)⟩
  | remove_first =>
    obtain ⟨hreturned, hupdates⟩ := updates_remove_first h
    refine ⟨_, _, ?_, hupdates⟩
    simp only [perform, QueueCall.returned, ← hreturned]
  | remove_last =>
    obtain ⟨hreturned, hupdates⟩ := updates_remove_last h
    refine ⟨_, _, ?_, hupdates⟩
    simp only [perform, QueueCall.returned, ← hreturned]
  | remove rmv_node =>
    obtain ⟨front, back, rfl⟩ := List.append_of_mem (hremoved rmv_node rfl)
    have hfresh : rmv_node ∉ front := fun hmem =>
      (List.nodup_append.mp h.nodup).2.2 rmv_node hmem rmv_node (List.mem_cons_self ..) rfl
    have hupdates := updates_remove h
    refine ⟨_, _, rfl, ?_⟩
    rwa [QueueCall.contents_after, List.erase_append_right _ hfresh, List.erase_cons_head]
  | clear =>
    obtain ⟨cleared, hclear, hupdates⟩ := updates_clear h hfuel
    refine ⟨_, _, ?_, hupdates⟩
    rw [perform, hclear]
    rfl

/-- A larger bound on the loop of `clear` changes nothing for a call that returns. -/
theorem perform_mono {more : Nat} {result : Option T × Queue T × Nodes T}
    (hperform : queue.perform nodes fuel call = some result) (hle : fuel ≤ more) :
    queue.perform nodes more call = some result := by
  cases call with
  | clear =>
    simp only [perform, clear, Option.map_eq_some_iff] at hperform ⊢
    obtain ⟨cleared, ⟨last, hrun, rfl⟩, rfl⟩ := hperform
    exact ⟨_, ⟨last, looping.run_mono hrun hle, rfl⟩, rfl⟩
  | _ => exact hperform

theorem perform_updates (h : queue.Represents nodes contents) (hadded : ∀ node ∈ call.added, node ∉ contents)
    (hremoved : ∀ node ∈ call.removed, node ∈ contents)
    (hperform : queue.perform nodes fuel call = some (returned, after, nodes')) :
    returned = call.returned contents ∧ Updates nodes contents after nodes' (call.contents_after contents) := by
  obtain ⟨_, _, hspec, hupdates⟩ :=
    perform_spec h hadded hremoved (show contents.length < max fuel (contents.length + 1) by omega)
  rw [perform_mono hperform (Nat.le_max_left ..)] at hspec
  simp only [Option.some.injEq, Prod.mk.injEq] at hspec
  obtain ⟨rfl, rfl, rfl⟩ := hspec
  exact ⟨rfl, hupdates⟩

omit [DecidableEq T] in
/-- Head and tail are the same on a queue with one node at most. -/
theorem Represents.short_iff (h : queue.Represents nodes contents) :
    queue.head_node = queue.tail_node ↔ contents.length ≤ 1 := by
  rw [h.head, h.tail]
  match contents, h.nodup with
  | [], _ => simp
  | [_], _ => simp
  | first :: second :: rest, hnodup =>
    have hfresh := (List.nodup_cons.mp hnodup).1
    simp only [List.head?_cons, List.getLast?_cons_cons, List.length_cons]
    refine iff_of_false (fun heq => hfresh (List.mem_of_getLast? heq.symm)) (by omega)

theorem Represents.remove_first_size (h : queue.Represents nodes contents) :
    (queue.remove_first nodes).2.1.size =
      if contents.length = 0 then queue.size else size_decrement queue.size := by
  have hempty := h.head_eq_none_iff
  rw [← List.length_eq_zero_iff] at hempty
  unfold remove_first
  cases hhead : queue.head_node with
  | none => rw [if_pos (hempty.mp hhead)]
  | some rmv_node =>
    have hlength : contents.length ≠ 0 := by
      intro hzero
      rw [hempty.mpr hzero] at hhead
      cases hhead
    rw [if_neg hlength]

theorem Represents.remove_last_size (h : queue.Represents nodes contents) :
    (queue.remove_last nodes).2.1.size =
      if contents.length ≤ 1 then queue.size else size_decrement queue.size := by
  have hshort := h.short_iff
  unfold remove_last
  cases htail : queue.tail_node with
  | none =>
    have hempty : contents = [] := by
      rw [h.tail] at htail
      exact List.getLast?_eq_none_iff.mp htail
    simp [hempty]
  | some rmv_node =>
    rw [htail] at hshort
    by_cases hsame : queue.head_node = some rmv_node
    · rw [if_pos (hshort.mp hsame)]
      simp only [hsame, if_true]
    · rw [if_neg (fun hle => hsame (hshort.mpr hle))]
      simp only [if_neg hsame]

/-- What a call does with the counter depends on the length of the list only. -/
theorem perform_size {result : Option T × Queue T × Nodes T} (h : queue.Represents nodes contents)
    (hperform : queue.perform nodes fuel call = some result) :
    result.2.1.size = call.size_after contents queue.size := by
  cases call with
  | add_first ins_node =>
    obtain rfl := Option.some.inj hperform
    rfl
  | add_last ins_node =>
    obtain rfl := Option.some.inj hperform
    rfl
  | remove_first =>
    obtain rfl := Option.some.inj hperform
    exact h.remove_first_size
  | remove_last =>
    obtain rfl := Option.some.inj hperform
    exact h.remove_last_size
  | remove rmv_node =>
    obtain rfl := Option.some.inj hperform
    rfl
  | clear =>
    obtain ⟨cleared, hcleared, rfl⟩ := Option.map_eq_some_iff.mp hperform
    obtain ⟨last, _, rfl⟩ := Option.map_eq_some_iff.mp hcleared
    rfl

end Queue

/-- Queues over the same nodes, and the lists that the same operations make of empty lists. -/
structure Queues (I T : Type) where
  queues : I → Queue T := fun _ => {}
  nodes : Nodes T := fun _ => {}
  lists : I → List T := fun _ => []

/-- A call on one of the queues, with a bound for the loop of `clear`. -/
structure QueueAction (I T : Type) where
  id : I
  call : QueueCall T
  fuel : Nat := 0

namespace Queues

variable {I T : Type}

/-- A node is added only while it is on no queue, and removed only from the queue that it is on. -/
def Allowed (state : Queues I T) (action : QueueAction I T) : Prop :=
  (∀ node ∈ action.call.added, ∀ id, node ∉ state.lists id) ∧
    ∀ node ∈ action.call.removed, node ∈ state.lists action.id

/-- The queues represent the lists, no node is on two of them, and the links of the other nodes are null. -/
structure Represents (state : Queues I T) : Prop where
  queues : ∀ id, (state.queues id).Represents state.nodes (state.lists id)
  disjoint : ∀ first second node, node ∈ state.lists first → node ∈ state.lists second → first = second
  detached : ∀ node, (∀ id, node ∉ state.lists id) → Queue.Detached state.nodes node

/-- `get_size()` is the number of nodes that are reached from the head. -/
def SizesRight (state : Queues I T) : Prop :=
  ∀ id, ∃ contents, Walk state.nodes.next (state.queues id).get_first contents ∧
    (state.queues id).get_size = contents.length

/-- A counter goes down from zero. -/
def Wraps (before after : Queues I T) : Prop :=
  ∃ id, (before.queues id).size = 0 ∧ (after.queues id).size = size_decrement 0

variable [DecidableEq I] [DecidableEq T]

def step (state : Queues I T) (action : QueueAction I T) : Option (Queues I T) :=
  ((state.queues action.id).perform state.nodes action.fuel action.call).map fun result =>
    { queues := Function.update state.queues action.id result.2.1
      nodes := result.2.2
      lists := Function.update state.lists action.id (action.call.contents_after (state.lists action.id)) }

/-- The calls that keep the counters right. -/
def Counted (state : Queues I T) (action : QueueAction I T) : Prop :=
  action.call.Counted (state.lists action.id)

instance [Fintype I] (state : Queues I T) (action : QueueAction I T) : Decidable (state.Allowed action) :=
  inferInstanceAs (Decidable (_ ∧ _))

instance (state : Queues I T) (action : QueueAction I T) : Decidable (state.Counted action) :=
  inferInstanceAs (Decidable (action.call.Counted (state.lists action.id)))

variable {before after state : Queues I T} {action : QueueAction I T}

omit [DecidableEq I] [DecidableEq T] in
theorem initial_represents : ({} : Queues I T).Represents :=
  ⟨fun _ => ⟨rfl, rfl, trivial, List.nodup_nil⟩, nofun, fun _ _ => ⟨rfl, rfl⟩⟩

theorem step_cases (hstep : before.step action = some after) : ∃ returned queue,
    (before.queues action.id).perform before.nodes action.fuel action.call = some (returned, queue, after.nodes) ∧
      after.queues = Function.update before.queues action.id queue ∧
      after.lists = Function.update before.lists action.id (action.call.contents_after (before.lists action.id)) := by
  obtain ⟨⟨returned, queue, nodes⟩, hperform, rfl⟩ := Option.map_eq_some_iff.mp hstep
  exact ⟨returned, queue, hperform, rfl, rfl⟩

omit [DecidableEq I] in
/-- The nodes of the list afterwards were on it, or on no queue. -/
theorem mem_contents_after {contents : List T} {call : QueueCall T} {node : T}
    (hmem : node ∈ call.contents_after contents) : node ∈ contents ∨ node ∈ call.added := by
  cases call with
  | add_first ins_node =>
    obtain rfl | hold := List.mem_cons.mp hmem
    · exact Or.inr rfl
    · exact Or.inl hold
  | add_last ins_node =>
    obtain hold | hnew := List.mem_append.mp hmem
    · exact Or.inl hold
    · exact Or.inr (congrArg some (List.mem_singleton.mp hnew).symm)
  | remove_first => exact Or.inl (List.mem_of_mem_tail hmem)
  | remove_last => exact Or.inl ((List.dropLast_sublist _).subset hmem)
  | remove rmv_node => exact Or.inl (List.mem_of_mem_erase hmem)
  | clear => cases hmem

omit [DecidableEq I] in
/-- A node of another queue is not on the queue of the call, neither before nor after it. -/
theorem Represents.not_mem_of_ne (h : before.Represents) (hallowed : before.Allowed action) {id : I}
    (hne : id ≠ action.id) {node : T} (hnode : node ∈ before.lists id) :
    node ∉ before.lists action.id ∧ node ∉ action.call.contents_after (before.lists action.id) := by
  have hoff : node ∉ before.lists action.id := fun hmem => hne (h.disjoint id action.id node hnode hmem)
  refine ⟨hoff, fun hmem => ?_⟩
  obtain hold | hnew := mem_contents_after hmem
  · exact hoff hold
  · exact hallowed.1 node hnew id hnode

/-- Every call that is allowed keeps the queues and the lists in agreement. -/
theorem Represents.step (h : before.Represents) (hallowed : before.Allowed action)
    (hstep : before.step action = some after) : after.Represents := by
  obtain ⟨hadded, hremoved⟩ := hallowed
  obtain ⟨returned, queue, hperform, hqueues, hlists⟩ := step_cases hstep
  obtain ⟨_, hupdates⟩ := Queue.perform_updates (h.queues action.id) (fun node hnode => hadded node hnode action.id)
    hremoved hperform
  have hothers : ∀ id, id ≠ action.id → ∀ node ∈ before.lists id,
      node ∉ before.lists action.id ∧ node ∉ action.call.contents_after (before.lists action.id) :=
    fun _ hne _ hnode => h.not_mem_of_ne ⟨hadded, hremoved⟩ hne hnode
  constructor
  · intro id
    rw [hqueues, hlists]
    by_cases hsame : id = action.id
    · subst hsame
      rw [Function.update_self, Function.update_self]
      exact hupdates.represents
    · rw [Function.update_of_ne hsame, Function.update_of_ne hsame]
      apply (h.queues id).congr
      intro node hnode
      obtain ⟨hoff, hoff'⟩ := hothers id hsame node hnode
      exact hupdates.others node hoff hoff'
  · intro first second node hfirst hsecond
    rw [hlists] at hfirst hsecond
    by_contra hne
    by_cases hsame : first = action.id
    · subst hsame
      rw [Function.update_self] at hfirst
      rw [Function.update_of_ne (Ne.symm hne)] at hsecond
      exact (hothers second (Ne.symm hne) node hsecond).2 hfirst
    · rw [Function.update_of_ne hsame] at hfirst
      by_cases hsame' : second = action.id
      · subst hsame'
        rw [Function.update_self] at hsecond
        exact (hothers first hsame node hfirst).2 hsecond
      · rw [Function.update_of_ne hsame'] at hsecond
        exact hne (h.disjoint first second node hfirst hsecond)
  · intro node hnode
    rw [hlists] at hnode
    have hafter := hnode action.id
    rw [Function.update_self] at hafter
    by_cases hbefore : node ∈ before.lists action.id
    · exact hupdates.detached node hbefore hafter
    · have hlinks := hupdates.others node hbefore hafter
      have hoff : ∀ id, node ∉ before.lists id := by
        intro id
        by_cases hsame : id = action.id
        · rwa [hsame]
        · have hother := hnode id
          rwa [Function.update_of_ne hsame] at hother
      obtain ⟨hnext, hprev⟩ := h.detached node hoff
      refine ⟨?_, ?_⟩
      · rw [Nodes.next, hlinks]
        exact hnext
      · rw [Nodes.prev, hlinks]
        exact hprev

theorem represents_of_reaches {guard : Queues I T → QueueAction I T → Prop}
    (hguard : ∀ state action, guard state action → state.Allowed action)
    (h : ReachesWhere Queues.step guard {} state) : state.Represents := by
  apply ReachesWhere.invariant h
  · exact initial_represents
  · intro before action after hbefore hstep hafter
    exact hbefore.step (hguard before action hstep) hafter

/-- The links of the queues implement lists. Following them from the head, and back from the tail, gives the
lists that the same operations make, every call returns the node that it returns on a list, and the links of a
node that is on no queue are null. -/
theorem queues_implement_lists (h : ReachesWhere step Allowed {} state) :
    (∀ id, Walk state.nodes.next (state.queues id).get_first (state.lists id) ∧
        Walk state.nodes.prev (state.queues id).get_last (state.lists id).reverse) ∧
      (∀ node, (∀ id, node ∉ state.lists id) → state.nodes node = { next_node := none, prev_node := none }) ∧
      ∀ action, state.Allowed action → (state.lists action.id).length < action.fuel → ∃ after queue,
        state.step action = some after ∧
          (state.queues action.id).perform state.nodes action.fuel action.call =
            some (action.call.returned (state.lists action.id), queue, after.nodes) := by
  have hrepresents := represents_of_reaches (fun _ _ hallowed => hallowed) h
  refine ⟨fun id => (hrepresents.queues id).walks, fun node hnode => ?_, fun action hallowed hfuel => ?_⟩
  · obtain ⟨hnext, hprev⟩ := hrepresents.detached node hnode
    exact congrArg₂ Node.mk hnext hprev
  · obtain ⟨hadded, hremoved⟩ := hallowed
    obtain ⟨queue, nodes, hperform, _⟩ := Queue.perform_spec (hrepresents.queues action.id)
      (fun node hnode => hadded node hnode action.id) hremoved hfuel
    have hstep : state.step action = some
        { queues := Function.update state.queues action.id queue
          nodes := nodes
          lists := Function.update state.lists action.id
            (action.call.contents_after (state.lists action.id)) } := by
      rw [step, hperform]
      rfl
    exact ⟨_, queue, hstep, hperform⟩

/-- A node moves from the end of one queue to the front of the other. -/
def migration : List (QueueAction Bool Nat) :=
  [{ id := false, call := .add_last 3 }, { id := false, call := .add_last 7 }, { id := true, call := .add_last 5 },
    { id := false, call := .remove_last }, { id := true, call := .add_first 7 }]

theorem queues_implement_lists_migration : ∃ state : Queues Bool Nat, state.lists false = [3] ∧
    Walk state.nodes.next (state.queues true).get_first [7, 5] ∧
    Walk state.nodes.prev (state.queues true).get_last [5, 7] := by
  obtain ⟨state, hreached, hfound⟩ := exists_reachesWhere_of_runWhere
    (by decide : ((runWhere step (fun state action => decide (state.Allowed action)) {} migration).any fun state =>
      state.lists false = [3] ∧ state.lists true = [7, 5]) = true)
  simp only [Bool.decide_and, Bool.and_eq_true, decide_eq_true_eq] at hfound
  obtain ⟨hwalks, _⟩ := queues_implement_lists (hreached.weaken fun _ _ hallowed => of_decide_eq_true hallowed)
  obtain ⟨hforward, hbackward⟩ := hwalks true
  rw [hfound.2] at hforward hbackward
  exact ⟨state, hfound.1, hforward, hbackward⟩

/-- The counters, call by call. A counter that is right is so afterwards exactly if the call counts. -/
theorem sizes_right_iff (h : before.Represents) (hsizes : before.SizesRight) (hallowed : before.Allowed action)
    (hstep : before.step action = some after) :
    ¬ before.Wraps after ∧ (after.SizesRight ↔ before.Counted action) := by
  have hafter := h.step hallowed hstep
  have hsize : ∀ id, (before.queues id).size = (before.lists id).length := by
    intro id
    obtain ⟨contents, hwalk, hcount⟩ := hsizes id
    rw [← (h.queues id).walks.1.unique hwalk] at hcount
    exact hcount
  obtain ⟨returned, queue, hperform, hqueues, hlists⟩ := step_cases hstep
  have hcounter := Queue.perform_size (h.queues action.id) hperform
  rw [hsize action.id] at hcounter
  obtain ⟨hright, hwrap⟩ := QueueCall.size_after_right hallowed.2
  rw [← hcounter] at hright hwrap
  constructor
  · rintro ⟨id, hzero, hwrapped⟩
    rw [hqueues] at hwrapped
    by_cases hsame : id = action.id
    · subst hsame
      rw [Function.update_self] at hwrapped
      exact hwrap ⟨(hsize action.id).symm.trans hzero, hwrapped⟩
    · rw [Function.update_of_ne hsame, hzero] at hwrapped
      cases hwrapped
  · rw [Counted, ← hright]
    constructor
    · intro hall
      obtain ⟨contents, hwalk, hcount⟩ := hall action.id
      rw [← (hafter.queues action.id).walks.1.unique hwalk, hlists, hqueues, Function.update_self,
        Function.update_self] at hcount
      exact hcount
    · intro hcount id
      refine ⟨after.lists id, (hafter.queues id).walks.1, ?_⟩
      rw [Queue.get_size, hlists, hqueues]
      by_cases hsame : id = action.id
      · subst hsame
        rw [Function.update_self, Function.update_self]
        exact hcount
      · rw [Function.update_of_ne hsame, Function.update_of_ne hsame]
        exact hsize id

/-- The counters of the queues are right in every run in which `remove_last` never takes the only node of a
queue, and a call that does so, or one that adds a node number `2 ^ 64`, makes a counter wrong. -/
theorem size_accounting :
    (∀ state : Queues I T,
        ReachesWhere step (fun state action => state.Allowed action ∧ state.Counted action) {} state →
          state.SizesRight) ∧
      ∀ (before after : Queues I T) (action : QueueAction I T),
        ReachesWhere step (fun state action => state.Allowed action ∧ state.Counted action) {} before →
        before.Allowed action → before.step action = some after →
          ¬ before.Wraps after ∧ (after.SizesRight ↔ before.Counted action) := by
  have hsizes : ∀ state : Queues I T,
      ReachesWhere step (fun state action => state.Allowed action ∧ state.Counted action) {} state →
        state.SizesRight := by
    intro state h
    apply ReachesWhere.invariant_under h
      (fun state hstate => represents_of_reaches (fun _ _ hguard => hguard.1) hstate)
    · exact fun _ => ⟨[], rfl, rfl⟩
    · rintro before action after hrepresents hbefore ⟨hallowed, hcounted⟩ hstep
      exact (sizes_right_iff hrepresents hbefore hallowed hstep).2.mpr hcounted
  refine ⟨hsizes, fun before after action h hallowed hstep => ?_⟩
  exact sizes_right_iff (represents_of_reaches (fun _ _ hguard => hguard.1) h) (hsizes before h) hallowed hstep

/-- Two nodes are added and one of them is removed from the end. -/
theorem size_accounting_two : ∃ state : Queues Bool Nat, state.lists false = [3] ∧
    (state.queues false).get_size = 1 ∧ state.SizesRight := by
  obtain ⟨state, hreached, hfound⟩ := exists_reachesWhere_of_runWhere
    (by decide : ((runWhere step (fun state action => decide (state.Allowed action ∧ state.Counted action)) {}
      [{ id := false, call := .add_last 3 }, { id := false, call := .add_last 7 },
        { id := false, call := .remove_last }]).any
        fun state => state.lists false = [3] ∧ (state.queues false).get_size = 1) = true)
  simp only [Bool.decide_and, Bool.and_eq_true, decide_eq_true_eq] at hfound
  exact ⟨state, hfound.1, hfound.2,
    size_accounting.1 state (hreached.weaken fun _ _ hguard => of_decide_eq_true hguard)⟩

/-- `remove_last` takes the only node, and the empty queue still has size one. -/
theorem size_not_accounted :
    ¬ ∀ state : Queues Bool Nat, ReachesWhere step Allowed {} state → state.SizesRight := by
  intro hall
  obtain ⟨state, hreached, hfound⟩ := exists_reachesWhere_of_runWhere
    (by decide : ((runWhere step (fun state action => decide (state.Allowed action)) {}
      [{ id := false, call := .add_last 3 }, { id := false, call := .remove_last }]).any fun state : Queues Bool Nat =>
        (state.queues false).get_first = none ∧ (state.queues false).get_size = 1) = true)
  simp only [Bool.decide_and, Bool.and_eq_true, decide_eq_true_eq] at hfound
  obtain ⟨hfirst, hsize⟩ := hfound
  obtain ⟨contents, hwalk, hcount⟩ :=
    hall state (hreached.weaken fun _ _ hallowed => of_decide_eq_true hallowed) false
  rw [hfirst] at hwalk
  rw [hsize] at hcount
  cases contents with
  | nil => cases hcount
  | cons node rest => cases hwalk.1

end Queues

end ufh
