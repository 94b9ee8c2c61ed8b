import Mathlib.Data.List.Induction
import Mathlib.Data.List.Perm.Basic

namespace resources

/-- What happens to the resources of a pool. -/
inductive Event (A : Type) where
  | acquired (resource : A)
  | released (resource : A)
  deriving DecidableEq

/-- The resources that are held after a sequence of events. -/
def held {A : Type} [DecidableEq A] (events : List (Event A)) : List A :=
  events.foldl (fun resources event =>
    match event with
    | .acquired resource => resource :: resources
    | .released resource => resources.erase resource) []

/-- A resource is acquired again only after it has been released. -/
def Exclusive {A : Type} (events : List (Event A)) : Prop :=
  ∀ front middle back resource,
    events = front ++ .acquired resource :: middle ++ .acquired resource :: back → .released resource ∈ middle

section

variable {A : Type} [DecidableEq A] {events : List (Event A)} {resource : A}

@[simp] theorem held_nil : held ([] : List (Event A)) = [] := rfl

@[simp] theorem held_acquired (events : List (Event A)) (resource : A) :
    held (events ++ [.acquired resource]) = resource :: held events := by
  rw [held, List.foldl_append]
  rfl

@[simp] theorem held_released (events : List (Event A)) (resource : A) :
    held (events ++ [.released resource]) = (held events).erase resource := by
  rw [held, List.foldl_append]
  rfl

/-- A resource that has been acquired is held until it is released. -/
theorem mem_held_of_acquired (front : List (Event A)) {middle : List (Event A)}
    (hkept : .released resource ∉ middle) : resource ∈ held (front ++ .acquired resource :: middle) := by
  induction middle using List.reverseRecOn with
  | nil =>
    rw [held_acquired]
    exact List.mem_cons_self ..
  | append_singleton middle event ih =>
    rw [List.mem_append, List.mem_singleton, not_or] at hkept
    have hmem := ih hkept.1
    rw [← List.cons_append, ← List.append_assoc]
    cases event with
    | acquired other =>
      rw [held_acquired]
      exact List.mem_cons_of_mem _ hmem
    | released other =>
      rw [held_released]
      have hne : resource ≠ other := fun heq => hkept.2 (congrArg Event.released heq)
      exact (List.mem_erase_of_ne hne).mpr hmem

omit [DecidableEq A] in
theorem exclusive_nil : Exclusive ([] : List (Event A)) := by
  intro front middle back resource hsplit
  cases front <;> cases hsplit

/-- Resources stay exclusive as long as only those are acquired that nobody holds. -/
theorem Exclusive.snoc (h : Exclusive events) {event : Event A}
    (hfree : ∀ resource, event = .acquired resource → resource ∉ held events) : Exclusive (events ++ [event]) := by
  intro front middle back resource hsplit
  rcases List.eq_nil_or_concat' back with rfl | ⟨rest, last, rfl⟩
  · obtain ⟨rfl, hlast⟩ := List.append_inj' hsplit rfl
    by_contra hkept
    exact hfree resource (List.singleton_inj.mp hlast) (mem_held_of_acquired front hkept)
  · rw [← List.cons_append, ← List.append_assoc] at hsplit
    exact h front middle rest resource (List.append_inj' hsplit rfl).1

end

end resources
