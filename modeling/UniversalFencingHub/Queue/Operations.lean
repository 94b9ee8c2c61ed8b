import Mathlib.Algebra.GroupWithZero.Nat
import UniversalFencingHub.Library.Loop
import UniversalFencingHub.Library.Segment

open linked_list

namespace ufh

/-- `++value` on a `size_t`. -/
def size_increment (value : Nat) : Nat := (value + 1) % 2 ^ 64

/-- `--value` on a `size_t`; zero wraps to the largest value. -/
def size_decrement (value : Nat) : Nat := if value = 0 then 2 ^ 64 - 1 else value - 1

/-- `left - right` on `size_t` operands; a negative difference wraps. -/
def size_subtract (left right : Nat) : Nat :=
  if right ≤ left then left - right else 2 ^ 64 - (right - left)

/-- The link fields of `Queue<T>::Node`. A pointer is a `T`, `nullptr` is `none`. -/
structure Node (T : Type) where
  next_node : Option T := none
  prev_node : Option T := none
  deriving DecidableEq

/-- The link fields of all objects that can be queued. -/
abbrev Nodes (T : Type) := T → Node T

namespace Nodes

variable {T : Type} [DecidableEq T]

def next (nodes : Nodes T) : T → Option T := fun node => (nodes node).next_node

def prev (nodes : Nodes T) : T → Option T := fun node => (nodes node).prev_node

/-- `target->next_node = value`. A store through a null pointer is undefined in
C++; here it changes nothing. -/
def set_next (nodes : Nodes T) (target : Option T) (value : Option T) : Nodes T :=
  match target with
  | some node => Function.update nodes node { nodes node with next_node := value }
  | none => nodes

/-- `target->prev_node = value`. -/
def set_prev (nodes : Nodes T) (target : Option T) (value : Option T) : Nodes T :=
  match target with
  | some node => Function.update nodes node { nodes node with prev_node := value }
  | none => nodes

@[simp] theorem next_set_next (nodes : Nodes T) (target value : Option T) :
    (nodes.set_next target value).next = relink nodes.next target value := by
  cases target with
  | none => rfl
  | some node =>
    funext other
    by_cases h : other = node
    · subst h
      simp [next, set_next]
    · simp [next, set_next, h]

@[simp] theorem prev_set_next (nodes : Nodes T) (target value : Option T) :
    (nodes.set_next target value).prev = nodes.prev := by
  cases target with
  | none => rfl
  | some node =>
    funext other
    by_cases h : other = node
    · subst h
      simp [prev, set_next]
    · simp [prev, set_next, h]

@[simp] theorem prev_set_prev (nodes : Nodes T) (target value : Option T) :
    (nodes.set_prev target value).prev = relink nodes.prev target value := by
  cases target with
  | none => rfl
  | some node =>
    funext other
    by_cases h : other = node
    · subst h
      simp [prev, set_prev]
    · simp [prev, set_prev, h]

@[simp] theorem next_set_prev (nodes : Nodes T) (target value : Option T) :
    (nodes.set_prev target value).next = nodes.next := by
  cases target with
  | none => rfl
  | some node =>
    funext other
    by_cases h : other = node
    · subst h
      simp [next, set_prev]
    · simp [next, set_prev, h]

omit [DecidableEq T] in
theorem eq_of_links {first second : Nodes T} {node : T} (hnext : first.next node = second.next node)
    (hprev : first.prev node = second.prev node) : first node = second node := by
  cases hfirst : first node
  cases hsecond : second node
  simp_all [Nodes.next, Nodes.prev]

omit [DecidableEq T] in
theorem ext_links {first second : Nodes T} (hnext : first.next = second.next)
    (hprev : first.prev = second.prev) : first = second := by
  funext node
  exact eq_of_links (congrFun hnext node) (congrFun hprev node)

end Nodes

/-- The fields of class `Queue<T>`. -/
structure Queue (T : Type) where
  size : Nat := 0
  head_node : Option T := none
  tail_node : Option T := none
  deriving DecidableEq

namespace Queue

variable {T : Type} [DecidableEq T]

def add_first (queue : Queue T) (nodes : Nodes T) (ins_node : T) : Queue T × Nodes T :=
  let (tail, nodes) :=
    match queue.head_node with
    | some head => (queue.tail_node, nodes.set_prev (some head) (some ins_node))
    | none => (some ins_node, nodes)
  let nodes := nodes.set_next (some ins_node) queue.head_node
  let nodes := nodes.set_prev (some ins_node) none
  ({ size := size_increment queue.size, head_node := some ins_node, tail_node := tail }, nodes)

def add_last (queue : Queue T) (nodes : Nodes T) (ins_node : T) : Queue T × Nodes T :=
  let (head, nodes) :=
    match queue.tail_node with
    | some tail => (queue.head_node, nodes.set_next (some tail) (some ins_node))
    | none => (some ins_node, nodes)
  let nodes := nodes.set_next (some ins_node) none
  let nodes := nodes.set_prev (some ins_node) queue.tail_node
  ({ size := size_increment queue.size, head_node := head, tail_node := some ins_node }, nodes)

def get_first (queue : Queue T) : Option T := queue.head_node

def get_last (queue : Queue T) : Option T := queue.tail_node

def remove_first (queue : Queue T) (nodes : Nodes T) : Option T × Queue T × Nodes T :=
  match queue.head_node with
  | none => (none, queue, nodes)
  | some rmv_node =>
    let (head, tail, nodes) :=
      if queue.head_node = queue.tail_node then (none, none, nodes)
      else
        let head := nodes.next rmv_node
        (head, queue.tail_node, nodes.set_prev head none)
    let nodes := nodes.set_next (some rmv_node) none
    (some rmv_node, { size := size_decrement queue.size, head_node := head, tail_node := tail }, nodes)

/-- `remove_last`, which counts down only when other nodes stay on the queue. -/
def remove_last (queue : Queue T) (nodes : Nodes T) : Option T × Queue T × Nodes T :=
  match queue.tail_node with
  | none => (none, queue, nodes)
  | some rmv_node =>
    let (queue, nodes) :=
      if queue.head_node = queue.tail_node then ({ queue with head_node := none, tail_node := none }, nodes)
      else
        let tail := nodes.prev rmv_node
        ({ queue with size := size_decrement queue.size, tail_node := tail }, nodes.set_next tail none)
    let nodes := nodes.set_prev (some rmv_node) none
    (some rmv_node, queue, nodes)

def remove (queue : Queue T) (nodes : Nodes T) (rmv_node : T) : Queue T × Nodes T :=
  let (head, nodes) :=
    match nodes.prev rmv_node with
    | none => (nodes.next rmv_node, nodes)
    | some before => (queue.head_node, nodes.set_next (some before) (nodes.next rmv_node))
  let (tail, nodes) :=
    match nodes.next rmv_node with
    | none => (nodes.prev rmv_node, nodes)
    | some after => (queue.tail_node, nodes.set_prev (some after) (nodes.prev rmv_node))
  let nodes := nodes.set_prev (some rmv_node) none
  let nodes := nodes.set_next (some rmv_node) none
  ({ size := size_decrement queue.size, head_node := head, tail_node := tail }, nodes)

/-- A round of the loop in `clear`. -/
def clear_round : Option T × Nodes T → (Option T × Nodes T) ⊕ Nodes T
  | (some clr_node, nodes) =>
    let next_node := nodes.next clr_node
    let nodes := nodes.set_next (some clr_node) none
    let nodes := nodes.set_prev (some clr_node) none
    .inl (next_node, nodes)
  | (none, nodes) => .inr nodes

/-- `clear`, with a bound on the rounds of its loop. -/
def clear (queue : Queue T) (nodes : Nodes T) (fuel : Nat) : Option (Queue T × Nodes T) :=
  (looping.run clear_round fuel (queue.head_node, nodes)).map fun nodes =>
    ({ queue with head_node := none, tail_node := none, size := 0 }, nodes)

def get_size (queue : Queue T) : Nat := queue.size

end Queue

end ufh
