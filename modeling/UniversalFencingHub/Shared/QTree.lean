import Mathlib.Data.List.Sort
import UniversalFencingHub.Shared.CharBuffer

namespace ufh

/-- The exception that inserting a key into a tree throws if the key is there. -/
structure DuplicateInsertException where
  deriving DecidableEq

/-- The operations of the external class `QTree` that the hub calls. The class is not part
of the repository, so it stays a parameter of the model. -/
class QTree (Key : Type) where
  Tree : Type → Type
  new {Val : Type} : Tree Val
  insert {Val : Type} : Tree Val → Key → Val → Except DuplicateInsertException (Tree Val)
  get {Val : Type} : Tree Val → Key → Option Val
  /-- Changing the value to which `get` leads. -/
  update {Val : Type} : Tree Val → Key → (Val → Val) → Tree Val
  /-- The keys and values of the nodes that a `NodesIterator` visits, in its order. -/
  nodes {Val : Type} : Tree Val → List (Key × Val)

open CharBuffer QTree

/-- What the hub relies on: a tree is a map, whose keys are compared by their contents, and a key
that it does not have can be inserted. -/
class LawfulQTree (Key : Type) [CharBuffer Key] [QTree Key] : Prop where
  nodes_new : ∀ Val : Type, nodes (new : Tree Key Val) = []
  insert_new : ∀ {Val : Type} (tree : Tree Key Val) (key : Key) (value : Val),
    (∀ node ∈ nodes tree, contents node.1 ≠ contents key) →
      ∃ result, insert tree key value = .ok result ∧ (nodes result).Perm ((key, value) :: nodes tree)
  get_eq : ∀ {Val : Type} (tree : Tree Key Val) (key : Key),
    get tree key = ((nodes tree).find? fun node => contents node.1 = contents key).map (·.2)
  nodes_update : ∀ {Val : Type} (tree : Tree Key Val) (key : Key) (change : Val → Val),
    nodes (update tree key change) =
      (nodes tree).map fun node => if contents node.1 = contents key then (node.1, change node.2) else node

theorem LawfulQTree.mem_of_get {Key Val : Type} [CharBuffer Key] [QTree Key] [LawfulQTree Key] {tree : Tree Key Val}
    {key : Key} {value : Val} (hget : get tree key = some value) :
    ∃ node ∈ nodes tree, contents node.1 = contents key ∧ node.2 = value := by
  rw [LawfulQTree.get_eq] at hget
  obtain ⟨node, hfind, rfl⟩ := Option.map_eq_some_iff.mp hget
  exact ⟨node, List.mem_of_find?_eq_some hfind, by simpa using List.find?_some hfind, rfl⟩

/-- A plain map that follows the documented behaviour, with its nodes in the order of their keys. -/
instance : QTree BoundedBuffer where
  Tree Val := List (BoundedBuffer × Val)
  new := []
  insert tree key value :=
    if tree.any fun node => node.1.contents = key.contents then .error {}
    else .ok (tree.orderedInsert (fun node other => node.1.contents < other.1.contents) (key, value))
  get tree key := (tree.find? fun node => node.1.contents = key.contents).map (·.2)
  update tree key change :=
    tree.map fun node => if node.1.contents = key.contents then (node.1, change node.2) else node
  nodes tree := tree

instance : LawfulQTree BoundedBuffer where
  nodes_new _ := rfl
  insert_new tree key value hnew := by
    have hnone : ¬ (List.any tree fun node => node.1.contents = key.contents) = true := by
      rw [List.any_eq_true]
      rintro ⟨node, hnode, hkey⟩
      exact hnew node hnode (of_decide_eq_true hkey)
    exact ⟨_, if_neg hnone, List.perm_orderedInsert _ _ _⟩
  get_eq _ _ := rfl
  nodes_update _ _ _ := rfl

end ufh
