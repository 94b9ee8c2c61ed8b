import Mathlib.Data.Fintype.Card
import Mathlib.Data.List.Nodup

namespace ufh

/-- The pool bookkeeping of class `GenAlloc<T>`. The first `alloc_index` entries
of `free_list` are the free objects; the entries above are stale. -/
structure GenAlloc (T : Type) where
  pool_size : Nat
  free_list : List T
  alloc_index : Nat
  deriving DecidableEq

namespace GenAlloc

/-- The constructor, over the objects of the pool in the order of their index. -/
def new {T : Type} (pool : List T) : GenAlloc T :=
  { pool_size := pool.length, free_list := pool, alloc_index := pool.length }

def get_free_count {T : Type} (alloc : GenAlloc T) : Nat := alloc.alloc_index

/-- `allocate`; `none` stands for `std::bad_alloc`. -/
def allocate {T : Type} (alloc : GenAlloc T) : Option (T × GenAlloc T) :=
  if 0 < alloc.alloc_index then
    let alloc := { alloc with alloc_index := alloc.alloc_index - 1 }
    alloc.free_list[alloc.alloc_index]?.map (fun obj => (obj, alloc))
  else none

def deallocate {T : Type} (alloc : GenAlloc T) (obj : T) : GenAlloc T :=
  if alloc.alloc_index < alloc.pool_size then
    { alloc with free_list := alloc.free_list.set alloc.alloc_index obj, alloc_index := alloc.alloc_index + 1 }
  else alloc

def free_objects {T : Type} (alloc : GenAlloc T) : List T := alloc.free_list.take alloc.alloc_index

/-- The free list has room for the whole pool and lists no object twice. -/
structure Valid {T : Type} (alloc : GenAlloc T) : Prop where
  length_eq : alloc.free_list.length = alloc.pool_size
  index_le : alloc.alloc_index ≤ alloc.pool_size
  nodup : alloc.free_objects.Nodup

theorem new_free_objects {T : Type} (pool : List T) : (new pool).free_objects = pool := by
  simp [new, free_objects]

theorem new_valid {T : Type} {pool : List T} (h : pool.Nodup) : (new pool).Valid :=
  ⟨rfl, le_rfl, by rwa [new_free_objects]⟩

theorem Valid.free_length {T : Type} {alloc : GenAlloc T} (h : alloc.Valid) :
    alloc.free_objects.length = alloc.get_free_count := by
  have hle := h.index_le
  simp [free_objects, get_free_count, h.length_eq, hle]

/-- `allocate` fails exactly when no object is free. -/
theorem Valid.allocate_eq_none_iff {T : Type} {alloc : GenAlloc T} (h : alloc.Valid) :
    alloc.allocate = none ↔ alloc.get_free_count = 0 := by
  have hle := h.index_le
  have hlength := h.length_eq
  unfold allocate get_free_count
  by_cases hpositive : 0 < alloc.alloc_index
  · simp only [if_pos hpositive, Option.map_eq_none_iff, List.getElem?_eq_none_iff]
    omega
  · simp only [if_neg hpositive, true_iff]
    omega

/-- `allocate` hands out the last free object. -/
theorem Valid.allocate_eq_some {T : Type} {alloc rest : GenAlloc T} {obj : T} (h : alloc.Valid)
    (hallocate : alloc.allocate = some (obj, rest)) :
    alloc.free_objects = rest.free_objects ++ [obj] ∧ rest.Valid ∧ rest.pool_size = alloc.pool_size := by
  have hle := h.index_le
  have hlength := h.length_eq
  unfold allocate at hallocate
  split at hallocate
  · next hpositive =>
    obtain ⟨found, hfound, heq⟩ := Option.map_eq_some_iff.mp hallocate
    obtain ⟨rfl, rfl⟩ := Prod.mk.inj heq
    have hindex : alloc.alloc_index - 1 + 1 = alloc.alloc_index := by omega
    have hsplit : alloc.free_objects = alloc.free_list.take (alloc.alloc_index - 1) ++ [found] := by
      have htake := List.take_add_one (l := alloc.free_list) (i := alloc.alloc_index - 1)
      rw [hindex, hfound] at htake
      exact htake
    refine ⟨hsplit, ⟨hlength, ?_, ?_⟩, rfl⟩
    · change alloc.alloc_index - 1 ≤ alloc.pool_size
      omega
    · have hnodup := h.nodup
      rw [hsplit] at hnodup
      exact (List.nodup_append.mp hnodup).1
  · cases hallocate

/-- `deallocate` puts the object on top of the free list while the list is not full. -/
theorem Valid.deallocate {T : Type} {alloc : GenAlloc T} {obj : T} (h : alloc.Valid)
    (hfresh : obj ∉ alloc.free_objects) (hroom : alloc.alloc_index < alloc.pool_size) :
    (alloc.deallocate obj).free_objects = alloc.free_objects ++ [obj] ∧
      (alloc.deallocate obj).Valid ∧ (alloc.deallocate obj).pool_size = alloc.pool_size := by
  have hlength := h.length_eq
  have hfree : (alloc.deallocate obj).free_objects = alloc.free_objects ++ [obj] := by
    simp only [GenAlloc.deallocate, if_pos hroom, free_objects]
    rw [List.take_add_one, List.take_set_of_le (by omega), List.getElem?_set_self (by omega)]
    rfl
  refine ⟨hfree, ⟨?_, ?_, ?_⟩, ?_⟩
  · simpa [GenAlloc.deallocate, if_pos hroom] using hlength
  · simp only [GenAlloc.deallocate, if_pos hroom]
    omega
  · rw [hfree]
    simpa using List.Nodup.concat hfresh h.nodup
  · simp [GenAlloc.deallocate, if_pos hroom]

theorem get_free_count_deallocate {T : Type} (alloc : GenAlloc T) (obj : T) :
    alloc.get_free_count ≤ (alloc.deallocate obj).get_free_count := by
  unfold GenAlloc.deallocate
  split
  · exact Nat.le_succ _
  · exact le_rfl

theorem free_objects_deallocate {T : Type} (alloc : GenAlloc T) (obj : T) :
    alloc.free_objects ⊆ (alloc.deallocate obj).free_objects := by
  unfold GenAlloc.deallocate
  split
  · intro other hother
    have hkept : other ∈ (alloc.free_list.set alloc.alloc_index obj).take alloc.alloc_index := by
      rwa [List.take_set_of_le le_rfl]
    exact (List.take_prefix_take_left (Nat.le_succ alloc.alloc_index)).subset hkept
  · exact List.Subset.refl _

/-- A pool over the objects `0 .. n - 1` is not full while one object is handed out. -/
theorem Valid.room {n : Nat} {alloc : GenAlloc (Fin n)} (h : alloc.Valid) (hsize : alloc.pool_size = n)
    {obj : Fin n} (hfresh : obj ∉ alloc.free_objects) : alloc.alloc_index < alloc.pool_size := by
  have hnodup : (obj :: alloc.free_objects).Nodup := List.nodup_cons.mpr ⟨hfresh, h.nodup⟩
  have hcard := hnodup.length_le_card
  have hlength := h.free_length
  simp only [List.length_cons, Fintype.card_fin, get_free_count] at hcard hlength
  omega

end GenAlloc

end ufh
