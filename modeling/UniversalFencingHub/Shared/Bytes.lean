import Mathlib.Algebra.GroupWithZero.Nat
import Mathlib.Data.List.Basic
import Mathlib.Data.List.TakeWhile

namespace ufh

/-- The contents of a `char` array, as unsigned bytes. -/
abbrev Bytes := List UInt8

/-- `zero_memory` over a whole array. -/
def zero_memory (object_count : Nat) : Bytes := List.replicate object_count 0

/-- Overwriting the bytes from `offset` on. -/
def store (buffer : Bytes) (offset : Nat) (data : Bytes) : Bytes :=
  buffer.take offset ++ data ++ buffer.drop (offset + data.length)

/-- The bytes in front of the first occurrence of a byte. -/
def before_first (byte : UInt8) (text : Bytes) : Bytes := text.takeWhile (· ≠ byte)

/-- The bytes behind the first occurrence of a byte. -/
def after_first (byte : UInt8) (text : Bytes) : Bytes := (text.dropWhile (· ≠ byte)).drop 1

@[simp] theorem length_zero_memory (count : Nat) : (zero_memory count).length = count := by simp [zero_memory]

theorem length_store {buffer data : Bytes} {offset : Nat} (h : offset + data.length ≤ buffer.length) :
    (store buffer offset data).length = buffer.length := by
  simp only [store, List.length_append, List.length_take, List.length_drop]
  omega

/-- A store that continues the used part of a buffer appends to it. -/
theorem take_store {buffer data : Bytes} {offset : Nat} (h : offset ≤ buffer.length) :
    (store buffer offset data).take (offset + data.length) = buffer.take offset ++ data := by
  have hlength : (buffer.take offset ++ data).length = offset + data.length := by
    simp only [List.length_append, List.length_take]
    omega
  rw [store, List.take_append_of_le_length (by omega), List.take_of_length_le (by omega)]

theorem store_nil (buffer : Bytes) (offset : Nat) : store buffer offset [] = buffer := by
  simp [store]

theorem findIdx?_eq_before_first (byte : UInt8) (text : Bytes) :
    text.findIdx? (· == byte) = if byte ∈ text then some (before_first byte text).length else none := by
  induction text with
  | nil => rfl
  | cons first rest ih =>
    rw [List.findIdx?_cons, ih]
    by_cases hfirst : first = byte
    · simp [hfirst, before_first]
    · have hmem : byte ∈ first :: rest ↔ byte ∈ rest := List.mem_cons.trans (or_iff_right (Ne.symm hfirst))
      have hlength : (before_first byte (first :: rest)).length = (before_first byte rest).length + 1 := by
        simp [before_first, hfirst]
      rw [hlength, beq_eq_false_iff_ne.mpr hfirst, if_neg (by decide)]
      by_cases hrest : byte ∈ rest
      · rw [if_pos hrest, if_pos (hmem.mpr hrest)]
        rfl
      · rw [if_neg hrest, if_neg (fun h => hrest (hmem.mp h))]
        rfl

theorem before_first_append {byte : UInt8} {text : Bytes} (rest : Bytes) (h : byte ∉ text) :
    before_first byte (text ++ byte :: rest) = text := by
  have hall : ∀ other ∈ text, decide (other ≠ byte) = true :=
    fun _ hother => decide_eq_true (fun heq => h (heq ▸ hother))
  rw [before_first, List.takeWhile_append_of_pos hall, List.takeWhile_cons_of_neg (by simp), List.append_nil]

theorem before_first_of_not_mem {byte : UInt8} {text : Bytes} (h : byte ∉ text) : before_first byte text = text :=
  List.takeWhile_eq_self_iff.mpr (fun _ hother => decide_eq_true (fun heq => h (heq ▸ hother)))

theorem take_length_before_first (byte : UInt8) (text : Bytes) :
    text.take (before_first byte text).length = before_first byte text :=
  (List.prefix_iff_eq_take.mp (List.takeWhile_prefix _)).symm

theorem drop_length_before_first (byte : UInt8) (text : Bytes) :
    text.drop ((before_first byte text).length + 1) = after_first byte text := by
  have hsplit : before_first byte text ++ text.dropWhile (· ≠ byte) = text := List.takeWhile_append_dropWhile
  have hdrop : text.drop (before_first byte text).length = text.dropWhile (· ≠ byte) :=
    (congrArg (List.drop (before_first byte text).length) hsplit).symm.trans (List.drop_left ..)
  rw [← List.drop_drop, hdrop]
  rfl

theorem length_before_first_lt {byte : UInt8} {text : Bytes} (h : byte ∈ text) :
    (before_first byte text).length < text.length := by
  have hindex := findIdx?_eq_before_first byte text
  rw [if_pos h] at hindex
  exact (List.findIdx?_eq_some_iff_getElem.mp hindex).1

end ufh
