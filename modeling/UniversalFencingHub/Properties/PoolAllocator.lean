import UniversalFencingHub.GenAlloc
import UniversalFencingHub.Library.Resources
import UniversalFencingHub.Library.Transition
import UniversalFencingHub.Queue.Operations

open resources transition

namespace ufh

/-- `get_allocated_count` -/
def GenAlloc.get_allocated_count {T : Type} (alloc : GenAlloc T) : Nat :=
  size_subtract alloc.pool_size alloc.alloc_index

/-- The calls of a pool and of the scope pointers that it returns. A scope pointer is named by its position
among those that `allocate_scope` has returned so far. -/
inductive PoolCall (T : Type) where
  | allocate
  | allocate_scope
  | release (scope : Nat)
  | destroy (scope : Nat)
  | deallocate (obj : T)

/-- A pool with the objects that its scope pointers own. -/
structure ScopedPool (T : Type) where
  alloc : GenAlloc T
  scopes : List (Option T) := []
  deriving DecidableEq

namespace ScopedPool

variable {T : Type}

/-- `allocate`; `none` stands for `std::bad_alloc`. -/
def allocate (pool : ScopedPool T) : Option (T × ScopedPool T) :=
  pool.alloc.allocate.map fun (obj, alloc) => (obj, { pool with alloc })

/-- `allocate_scope`, with the object that the scope pointer owns. -/
def allocate_scope (pool : ScopedPool T) : Option (T × ScopedPool T) :=
  pool.allocate.map fun (obj, pool) => (obj, { pool with scopes := pool.scopes ++ [some obj] })

/-- `release` of a scope pointer: the object stays allocated. -/
def release (pool : ScopedPool T) (scope : Nat) : ScopedPool T := { pool with scopes := pool.scopes.set scope none }

def deallocate (pool : ScopedPool T) (obj : T) : ScopedPool T := { pool with alloc := pool.alloc.deallocate obj }

/-- The object that a scope pointer owns. -/
def owned (pool : ScopedPool T) (scope : Nat) : Option T := pool.scopes[scope]?.join

/-- The destructor of a scope pointer, which calls `Dealloc::operator()` unless the pointer is null. -/
def destroy (pool : ScopedPool T) (scope : Nat) : ScopedPool T :=
  match pool.owned scope with
  | some obj => (pool.deallocate obj).release scope
  | none => pool

/-- What a call returns, and the pool after it. A call that throws returns nothing and changes nothing. -/
def perform (pool : ScopedPool T) : PoolCall T → Option T × ScopedPool T
  | .allocate => pool.allocate.elim (none, pool) fun (obj, pool) => (some obj, pool)
  | .allocate_scope => pool.allocate_scope.elim (none, pool) fun (obj, pool) => (some obj, pool)
  | .release scope => (pool.owned scope, pool.release scope)
  | .destroy scope => (none, pool.destroy scope)
  | .deallocate obj => (none, pool.deallocate obj)

end ScopedPool

/-- A pool in use, and which objects its callers have been given and have returned. -/
structure PoolUse (T : Type) extends ScopedPool T where
  events : List (Event T) := []
  deriving DecidableEq

namespace PoolUse

variable {T : Type}

def initial (pool : List T) : PoolUse T := { alloc := .new pool }

/-- The object that a call returns to the pool. -/
def returned (use : PoolUse T) : PoolCall T → Option T
  | .destroy scope => use.owned scope
  | .deallocate obj => some obj
  | _ => none

/-- What a call means for its caller: the object that it has been given or has returned. -/
def recorded (use : PoolUse T) (call : PoolCall T) (result : Option T) : List (Event T) :=
  match call with
  | .allocate | .allocate_scope => result.toList.map .acquired
  | _ => (use.returned call).toList.map .released

/-- Every call returns or throws. -/
def step (use : PoolUse T) (call : PoolCall T) : Option (PoolUse T) :=
  let (result, pool) := use.perform call
  some { toScopedPool := pool, events := use.events ++ use.recorded call result }

variable [DecidableEq T]

/-- Only objects that are currently allocated are deallocated. -/
def Legal (use : PoolUse T) (call : PoolCall T) : Prop := ∀ obj ∈ use.returned call, obj ∈ held use.events

instance (use : PoolUse T) (call : PoolCall T) : Decidable (use.Legal call) :=
  match hreturned : use.returned call with
  | none => .isTrue fun obj hobj => by rw [hreturned] at hobj; cases hobj
  | some obj => decidable_of_iff (obj ∈ held use.events) (by simp [Legal, hreturned])

end PoolUse

/-- The free objects and the objects that are handed out make up the pool. -/
structure GenAlloc.Accounts {T : Type} [DecidableEq T] (alloc : GenAlloc T) (pool : List T)
    (events : List (Event T)) : Prop where
  valid : alloc.Valid
  size : alloc.pool_size = pool.length
  objects : (alloc.free_objects ++ held events).Perm pool
  exclusive : Exclusive events

namespace GenAlloc

variable {T : Type} [DecidableEq T] {alloc rest : GenAlloc T} {pool : List T} {events : List (Event T)} {obj : T}

theorem new_accounts (hdistinct : pool.Nodup) : (new pool).Accounts pool [] := by
  refine ⟨new_valid hdistinct, rfl, ?_, exclusive_nil⟩
  rw [new_free_objects, held_nil, List.append_nil]

theorem Accounts.nodup (h : alloc.Accounts pool events) (hdistinct : pool.Nodup) :
    (alloc.free_objects ++ held events).Nodup :=
  h.objects.nodup_iff.mpr hdistinct

theorem Accounts.allocate (h : alloc.Accounts pool events) (hdistinct : pool.Nodup)
    (hallocate : alloc.allocate = some (obj, rest)) : rest.Accounts pool (events ++ [.acquired obj]) := by
  obtain ⟨hfree, hvalid, hsize⟩ := h.valid.allocate_eq_some hallocate
  have hobjects := h.objects
  have hnodup := h.nodup hdistinct
  rw [hfree, List.append_assoc, List.singleton_append] at hobjects hnodup
  refine ⟨hvalid, hsize.trans h.size, ?_, h.exclusive.snoc fun resource heq => ?_⟩
  · rwa [held_acquired]
  · cases heq
    exact (List.nodup_cons.mp (List.nodup_append.mp hnodup).2.1).1

/-- An object that is handed out is not free, and there is room for it. -/
theorem Accounts.not_free (h : alloc.Accounts pool events) (hdistinct : pool.Nodup) (hheld : obj ∈ held events) :
    obj ∉ alloc.free_objects := by
  obtain ⟨_, _, hdisjoint⟩ := List.nodup_append.mp (h.nodup hdistinct)
  exact fun hmem => hdisjoint obj hmem obj hheld rfl

theorem Accounts.room (h : alloc.Accounts pool events) (hheld : obj ∈ held events) :
    alloc.alloc_index < alloc.pool_size := by
  have hlength := h.objects.length_eq
  have hpositive := List.length_pos_of_mem hheld
  have hfree := h.valid.free_length
  rw [List.length_append] at hlength
  rw [get_free_count] at hfree
  have hsize := h.size
  omega

theorem Accounts.deallocate (h : alloc.Accounts pool events) (hdistinct : pool.Nodup)
    (hheld : obj ∈ held events) : (alloc.deallocate obj).Accounts pool (events ++ [.released obj]) := by
  obtain ⟨hfree, hvalid, hsize⟩ := h.valid.deallocate (h.not_free hdistinct hheld) (h.room hheld)
  refine ⟨hvalid, hsize.trans h.size, ?_, h.exclusive.snoc fun resource heq => ?_⟩
  · rw [hfree, held_released, List.append_assoc, List.singleton_append]
    exact ((List.perm_cons_erase hheld).symm.append_left _).trans h.objects
  · cases heq

/-- What the accounts say about the counters and about the next allocation. -/
theorem Accounts.free_iff (h : alloc.Accounts pool events) (hdistinct : pool.Nodup) (obj : T) :
    obj ∈ alloc.free_objects ↔ obj ∈ pool ∧ obj ∉ held events := by
  obtain ⟨_, _, hdisjoint⟩ := List.nodup_append.mp (h.nodup hdistinct)
  rw [← h.objects.mem_iff, List.mem_append]
  constructor
  · intro hfree
    exact ⟨Or.inl hfree, fun hheld => hdisjoint obj hfree obj hheld rfl⟩
  · rintro ⟨hfree | hheld, hnot⟩
    · exact hfree
    · exact absurd hheld hnot

theorem Accounts.allocated_count (h : alloc.Accounts pool events) :
    alloc.get_allocated_count = (held events).length := by
  have hlength := h.objects.length_eq
  have hfree := h.valid.free_length
  have hsize := h.size
  rw [List.length_append] at hlength
  rw [get_free_count] at hfree
  rw [get_allocated_count, size_subtract, if_pos h.valid.index_le]
  omega

theorem Accounts.allocate_eq_none_iff (h : alloc.Accounts pool events) (hdistinct : pool.Nodup) :
    alloc.allocate = none ↔ ∀ obj ∈ pool, obj ∈ held events := by
  rw [h.valid.allocate_eq_none_iff, ← h.valid.free_length, List.length_eq_zero_iff]
  constructor
  · intro hempty obj hobj
    by_contra hnot
    have hfree := (h.free_iff hdistinct obj).mpr ⟨hobj, hnot⟩
    rw [hempty] at hfree
    cases hfree
  · intro hall
    refine List.eq_nil_iff_forall_not_mem.mpr fun obj hfree => ?_
    obtain ⟨hobj, hnot⟩ := (h.free_iff hdistinct obj).mp hfree
    exact hnot (hall obj hobj)

end GenAlloc

namespace PoolUse

variable {T : Type} [DecidableEq T] {use after : PoolUse T} {call : PoolCall T} {pool : List T}

/-- Every legal call keeps the accounts. -/
theorem accounts_step (h : use.alloc.Accounts pool use.events) (hdistinct : pool.Nodup) (hlegal : use.Legal call)
    (hstep : use.step call = some after) : after.alloc.Accounts pool after.events := by
  obtain rfl := Option.some.inj hstep
  cases call with
  | allocate =>
    cases hallocate : use.alloc.allocate with
    | none => simpa [ScopedPool.perform, ScopedPool.allocate, hallocate, recorded] using h
    | some taken =>
      obtain ⟨obj, alloc⟩ := taken
      simpa [ScopedPool.perform, ScopedPool.allocate, hallocate, recorded] using h.allocate hdistinct hallocate
  | allocate_scope =>
    cases hallocate : use.alloc.allocate with
    | none =>
      simpa [ScopedPool.perform, ScopedPool.allocate_scope, ScopedPool.allocate, hallocate, recorded] using h
    | some taken =>
      obtain ⟨obj, alloc⟩ := taken
      simpa [ScopedPool.perform, ScopedPool.allocate_scope, ScopedPool.allocate, hallocate, recorded]
        using h.allocate hdistinct hallocate
  | release scope =>
    simpa [ScopedPool.perform, ScopedPool.release, recorded, returned] using h
  | destroy scope =>
    cases howned : use.owned scope with
    | none => simpa [ScopedPool.perform, ScopedPool.destroy, howned, recorded, returned] using h
    | some obj =>
      simpa [ScopedPool.perform, ScopedPool.destroy, ScopedPool.deallocate, ScopedPool.release, howned, recorded,
        returned] using h.deallocate hdistinct (hlegal obj howned)
  | deallocate obj =>
    simpa [ScopedPool.perform, ScopedPool.deallocate, recorded, returned] using h.deallocate hdistinct (hlegal obj rfl)

/-- The destructor of a scope pointer puts its object on top of the free ones. -/
theorem free_objects_destroy (h : use.alloc.Accounts pool use.events) (hdistinct : pool.Nodup) {scope : Nat} {obj : T}
    (howned : use.owned scope = some obj) (hheld : obj ∈ held use.events) :
    (use.destroy scope).alloc.free_objects = use.alloc.free_objects ++ [obj] := by
  have hdestroy : (use.destroy scope).alloc = use.alloc.deallocate obj := by
    rw [ScopedPool.destroy, howned]
    rfl
  rw [hdestroy]
  exact (h.valid.deallocate (h.not_free hdistinct hheld) (h.room hheld)).1

/-- The pool allocator keeps account of its objects. In every state that legal calls lead to, the entries of
`free_list` below `alloc_index` are the objects that are not handed out, each of them once, no object was
handed out again before it was returned, `allocate` and `allocate_scope` throw exactly when all objects are handed
out, and a scope pointer returns its object when it is destroyed. -/
theorem pool_accounts (hdistinct : pool.Nodup) (h : ReachesWhere step Legal (initial pool) use) :
    ((use.alloc.free_list.take use.alloc.alloc_index).length = use.alloc.alloc_index ∧
        (use.alloc.free_list.take use.alloc.alloc_index).Nodup ∧
        ∀ obj, obj ∈ use.alloc.free_list.take use.alloc.alloc_index ↔ obj ∈ pool ∧ obj ∉ held use.events) ∧
      (Exclusive use.events ∧ (held use.events).Nodup) ∧
      (use.alloc.allocate = none ↔ ∀ obj ∈ pool, obj ∈ held use.events) ∧
      use.alloc.get_free_count + use.alloc.get_allocated_count = pool.length ∧
      use.alloc.get_allocated_count = (held use.events).length ∧
      (use.allocate_scope = none ↔ ∀ obj ∈ pool, obj ∈ held use.events) ∧
      ∀ scope, ∀ obj ∈ use.owned scope, obj ∈ held use.events →
        (use.destroy scope).alloc.free_objects = use.alloc.free_objects ++ [obj] := by
  have haccounts : use.alloc.Accounts pool use.events := by
    apply ReachesWhere.invariant h
    · exact GenAlloc.new_accounts hdistinct
    · intro before call after hbefore hlegal hstep
      exact accounts_step hbefore hdistinct hlegal hstep
  have hcount := haccounts.allocated_count
  have hlength := haccounts.objects.length_eq
  have hfree := haccounts.valid.free_length
  have hnone := haccounts.allocate_eq_none_iff hdistinct
  rw [List.length_append] at hlength
  refine ⟨⟨hfree, haccounts.valid.nodup, haccounts.free_iff hdistinct⟩, ⟨haccounts.exclusive, ?_⟩, hnone, by omega,
    hcount, ?_, fun scope obj howned hheld => free_objects_destroy haccounts hdistinct howned hheld⟩
  · exact (List.nodup_append.mp (haccounts.nodup hdistinct)).2.1
  · rw [ScopedPool.allocate_scope, ScopedPool.allocate, Option.map_eq_none_iff, Option.map_eq_none_iff]
    exact hnone

/-- An object is handed out, returned by the end of its scope and handed out again. -/
theorem pool_accounts_reused : ∃ use : PoolUse Bool,
    use.events = [.acquired true, .released true, .acquired true] ∧ Exclusive use.events ∧
      use.alloc.get_allocated_count = 1 := by
  obtain ⟨use, hreached, hfound⟩ := exists_reachesWhere_of_runWhere
    (by decide : ((runWhere step (fun use call => decide (use.Legal call)) (initial [false, true])
      [.allocate_scope, .destroy 0, .allocate]).any fun use =>
        use.events = [.acquired true, .released true, .acquired true]) = true)
  have hevents := of_decide_eq_true hfound
  obtain ⟨_, ⟨hexclusive, _⟩, _, _, hcount, _⟩ := pool_accounts (by decide)
    (hreached.weaken fun _ _ hlegal => of_decide_eq_true hlegal)
  rw [hevents] at hcount
  exact ⟨use, hevents, hexclusive, hcount⟩

end PoolUse

end ufh
