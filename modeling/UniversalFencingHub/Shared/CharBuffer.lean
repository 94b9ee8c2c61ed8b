import UniversalFencingHub.Shared.Bytes

namespace ufh

/-- The exception that operations of class `CharBuffer` throw. -/
structure RangeException where
  deriving DecidableEq

/-- The index of the first occurrence of a pattern in a text. -/
def first_match (pattern : Bytes) : Bytes → Option Nat
  | [] => if pattern = [] then some 0 else none
  | byte :: rest =>
    if pattern.isPrefixOf (byte :: rest) then some 0 else (first_match pattern rest).map (· + 1)

/-- The operations of the external class `CharBuffer` that the hub calls. The
class is not part of the repository, so it stays a parameter of the model. -/
class CharBuffer (Buf : Type) where
  /-- `CharBuffer(size_t capacity)` -/
  with_capacity : Nat → Buf
  /-- `CharBuffer(const char*)` -/
  from_c_str : Bytes → Buf
  capacity : Buf → Nat
  /-- `c_str()` together with `length()` -/
  contents : Buf → Bytes
  clear : Buf → Buf
  wipe : Buf → Buf
  /-- `operator=` -/
  assign : Buf → Buf → Except RangeException Buf
  substring_raw_from : Buf → Bytes → Nat → Nat → Except RangeException Buf
  substring_from : Buf → Buf → Nat → Nat → Except RangeException Buf
  substring : Buf → Nat → Nat → Except RangeException Buf
  /-- `index_of`; `none` stands for `NPOS` -/
  index_of : Buf → Buf → Option Nat
  /-- `operator==(const char*)` -/
  equals : Buf → Bytes → Bool

open CharBuffer

/-- What the hub relies on: the operations do what their names say, and a source
longer than the capacity of the target raises `RangeException`. -/
class LawfulCharBuffer (Buf : Type) [CharBuffer Buf] : Prop where
  contents_with_capacity : ∀ size, contents (with_capacity size : Buf) = []
  capacity_with_capacity : ∀ size, capacity (with_capacity size : Buf) = size
  contents_from_c_str : ∀ text, contents (from_c_str text : Buf) = text
  contents_clear : ∀ buf : Buf, contents (clear buf) = []
  capacity_clear : ∀ buf : Buf, capacity (clear buf) = capacity buf
  contents_wipe : ∀ buf : Buf, contents (wipe buf) = []
  capacity_wipe : ∀ buf : Buf, capacity (wipe buf) = capacity buf
  assign_fits : ∀ target source : Buf, (contents source).length ≤ capacity target →
    ∃ result, assign target source = .ok result ∧ contents result = contents source ∧
      capacity result = capacity target
  assign_exceeds : ∀ target source : Buf, capacity target < (contents source).length →
    assign target source = .error {}
  substring_raw_from_fits : ∀ (target : Buf) (source : Bytes) (start stop : Nat),
    start ≤ stop → stop ≤ source.length → stop - start ≤ capacity target →
    ∃ result, substring_raw_from target source start stop = .ok result ∧
      contents result = (source.take stop).drop start ∧ capacity result = capacity target
  substring_from_fits : ∀ (target source : Buf) (start stop : Nat),
    start ≤ stop → stop ≤ (contents source).length → stop - start ≤ capacity target →
    ∃ result, substring_from target source start stop = .ok result ∧
      contents result = ((contents source).take stop).drop start ∧ capacity result = capacity target
  substring_fits : ∀ (buf : Buf) (start stop : Nat), start ≤ stop → stop ≤ (contents buf).length →
    ∃ result, substring buf start stop = .ok result ∧
      contents result = ((contents buf).take stop).drop start ∧ capacity result = capacity buf
  index_of_eq : ∀ text pattern : Buf, index_of text pattern = first_match (contents pattern) (contents text)
  equals_iff : ∀ (buf : Buf) (text : Bytes), equals buf text = true ↔ contents buf = text

/-- The first occurrence of a single byte. -/
theorem first_match_singleton (byte : UInt8) (text : Bytes) :
    first_match [byte] text = text.findIdx? (· == byte) := by
  induction text with
  | nil => rfl
  | cons first rest ih =>
    rw [first_match, ih, List.findIdx?_cons]
    by_cases h : byte = first
    · simp [h, List.isPrefixOf]
    · have h' : ¬ first = byte := fun heq => h heq.symm
      simp [h, h', List.isPrefixOf]

/-- A plain buffer of bounded capacity that follows the documented behaviour. -/
structure BoundedBuffer where
  capacity : Nat
  contents : Bytes
  deriving DecidableEq

namespace BoundedBuffer

/-- Replacing the contents, with the capacity check of every operation. -/
def fill (target : BoundedBuffer) (contents : Bytes) : Except RangeException BoundedBuffer :=
  if contents.length ≤ target.capacity then .ok { target with contents } else .error {}

instance : CharBuffer BoundedBuffer where
  with_capacity size := { capacity := size, contents := [] }
  from_c_str text := { capacity := text.length, contents := text }
  capacity buf := buf.capacity
  contents buf := buf.contents
  clear buf := { buf with contents := [] }
  wipe buf := { buf with contents := [] }
  assign target source := target.fill source.contents
  substring_raw_from target source start stop := target.fill ((source.take stop).drop start)
  substring_from target source start stop := target.fill ((source.contents.take stop).drop start)
  substring buf start stop := .ok { buf with contents := (buf.contents.take stop).drop start }
  index_of text pattern := first_match pattern.contents text.contents
  equals buf text := buf.contents == text

theorem fill_fits {target : BoundedBuffer} {contents : Bytes} (h : contents.length ≤ target.capacity) :
    target.fill contents = .ok { target with contents } := if_pos h

instance : LawfulCharBuffer BoundedBuffer where
  contents_with_capacity _ := rfl
  capacity_with_capacity _ := rfl
  contents_from_c_str _ := rfl
  contents_clear _ := rfl
  capacity_clear _ := rfl
  contents_wipe _ := rfl
  capacity_wipe _ := rfl
  assign_fits target source h := ⟨_, fill_fits h, rfl, rfl⟩
  assign_exceeds target source h := if_neg (Nat.not_le_of_lt h)
  substring_raw_from_fits target source start stop hle hstop hfits :=
    ⟨_, fill_fits (by
      change stop - start ≤ target.capacity at hfits
      simpa [hstop] using hfits), rfl, rfl⟩
  substring_from_fits target source start stop hle hstop hfits :=
    ⟨_, fill_fits (by
      change stop ≤ source.contents.length at hstop
      change stop - start ≤ target.capacity at hfits
      simpa [hstop] using hfits), rfl, rfl⟩
  substring_fits buf start stop hle hstop := ⟨_, rfl, rfl, rfl⟩
  index_of_eq _ _ := rfl
  equals_iff buf text := beq_iff_eq

end BoundedBuffer

end ufh
