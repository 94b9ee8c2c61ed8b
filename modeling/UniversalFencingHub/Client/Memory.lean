import UniversalFencingHub.Properties.ArgumentLists

open raising ufh.CharBuffer

namespace ufh

namespace client

/-- The system, when memory never runs out. -/
def System.ample (system : System) : System := { system with allocates := fun _ => true }

theorem System.ample_allocates (system : System) : ∀ allocation, system.ample.allocates allocation = true :=
  fun _ => rfl

/-- A function ends as it would with ample memory, or it runs out of memory. -/
def Degrades {T : Type} (outcome ample : Except Thrown T) : Prop := outcome = ample ∨ outcome = .error .bad_alloc

section

variable {T U : Type} {system : System} {outcome ample : Except Thrown T}

theorem Degrades.same (outcome : Except Thrown T) : Degrades outcome outcome := Or.inl rfl

theorem Degrades.exhausted : Degrades (.error .bad_alloc) ample := Or.inr rfl

theorem Degrades.ok (h : Degrades outcome ample) {value : T} (hok : outcome = .ok value) : ample = .ok value := by
  obtain hsame | hexhausted := h
  · rw [← hsame, hok]
  · rw [hok] at hexhausted
    cases hexhausted

theorem Degrades.bind (h : Degrades outcome ample) {rest rest' : T → Except Thrown U}
    (hrest : ∀ value, Degrades (rest value) (rest' value)) : Degrades (outcome >>= rest) (ample >>= rest') := by
  obtain rfl | rfl := h
  · cases outcome with
    | error exc => exact .same _
    | ok value => exact hrest value
  · exact .exhausted

/-- Memory is allocated first. -/
theorem Degrades.allocated (h : Degrades outcome ample) (allocation : Allocation) :
    Degrades (if system.allocates allocation then outcome else .error .bad_alloc)
      (if system.ample.allocates allocation then ample else .error .bad_alloc) := by
  rw [if_pos (system.ample_allocates allocation)]
  split
  · exact h
  · exact .exhausted

theorem degrades_allocate (allocation : Allocation) :
    Degrades (allocate system allocation) (allocate system.ample allocation) :=
  (Degrades.same (.ok ())).allocated allocation

theorem degrades_throw_arguments (error_msg : Bytes) :
    Degrades (throw_arguments system error_msg : Except Thrown T) (throw_arguments system.ample error_msg) :=
  (Degrades.same (.error (.ArgumentsException error_msg))).allocated .error_msg

end

namespace Arguments

section

variable {Buf : Type} [CharBuffer Buf] [QTree Buf] {system : System} {arg_map result : ArgMap Buf}

theorem degrades_add_entries (added : List (Bytes × Nat)) :
    Degrades (ClientParameters.add_entries system arg_map added)
      (ClientParameters.add_entries system.ample arg_map added) := by
  induction added generalizing arg_map with
  | nil => exact .same _
  | cons entry rest ih =>
    obtain ⟨key, value_capacity⟩ := entry
    have hentry : Degrades (add_entry system arg_map key value_capacity)
      (add_entry system.ample arg_map key value_capacity) := (Degrades.same _).allocated _
    rw [ClientParameters.add_entries, ClientParameters.add_entries]
    obtain hsame | hexhausted := hentry
    · rw [hsame]
      split
      · exact ih
      · exact .same _
    · rw [hexhausted]
      exact .exhausted

theorem degrades_mark_required (key : Bytes) :
    Degrades (mark_required system arg_map key) (mark_required system.ample arg_map key) := by
  refine Degrades.allocated ?_ _
  simp only
  split
  · exact .same _
  · exact degrades_throw_arguments _

theorem degrades_check_required : Degrades (check_required system arg_map) (check_required system.ample arg_map) := by
  unfold check_required
  simp only
  split
  · exact .same _
  · exact degrades_throw_arguments _

theorem degrades_get_value (key : Bytes) :
    Degrades (get_value system arg_map key) (get_value system.ample arg_map key) := by
  refine Degrades.allocated ?_ _
  split
  · exact .same _
  · exact degrades_throw_arguments _

/-- Arguments that have been required are marked, and they are all there. -/
theorem mark_all_of_require {required : List Bytes} (hrequire : Client.require system arg_map required = .ok result) :
    mark_all system.ample arg_map required = .ok result ∧ check_required system result = .ok () := by
  induction required generalizing arg_map with
  | nil =>
    obtain ⟨⟨⟩, hcheck, hresult⟩ := bind_eq_ok.mp hrequire
    cases hresult
    exact ⟨rfl, hcheck⟩
  | cons key rest ih =>
    obtain ⟨marked, hmark, hrest⟩ := bind_eq_ok.mp hrequire
    rw [mark_all, (degrades_mark_required key).ok hmark]
    exact ih hrest

variable [LawfulCharBuffer Buf] [LawfulQTree Buf] {keys : List (Bytes × Nat)} {required given : List Bytes}

/-- A value that is looked up is the one that was given. -/
theorem Stores.value_of (h : Stores arg_map keys required given) {key : Bytes} {value : Buf}
    (hkey : key ∈ keys.map Prod.fst) (hget : Arguments.get_value system arg_map key = .ok value) :
    contents value = given_value given key := by
  obtain ⟨stored, hstored, hcontents⟩ := h.get_value system.ample_allocates hkey
  obtain rfl := Except.ok.inj (hstored.symm.trans ((degrades_get_value key).ok hget))
  exact hcontents

theorem Stores.require (h : Stores arg_map keys required given) {more : List Bytes}
    (hmore : ∀ key ∈ more, key ∈ keys.map Prod.fst) (hrequire : Client.require system arg_map more = .ok result) :
    Stores result keys (required ++ more) given := by
  obtain ⟨marked, hmarked, hstores⟩ := h.mark_all system.ample_allocates hmore
  obtain rfl := Except.ok.inj (hmarked.symm.trans (mark_all_of_require hrequire).1)
  exact hstores

end

section

variable {Buf : Type} [TextBuffer Buf] [QTree Buf] {system : System} {arg_map result : ArgMap Buf}

theorem degrades_process_argument (argument : Buf) :
    Degrades (process_argument system arg_map argument) (process_argument system.ample arg_map argument) := by
  unfold process_argument
  split
  · refine Degrades.allocated ?_ _
    split
    · simp only
      split
      · split
        · exact degrades_throw_arguments _
        · split
          · exact .same _
          · exact degrades_throw_arguments _
      · exact degrades_throw_arguments _
    · exact .same _
  · exact degrades_throw_arguments _

variable [LawfulTextBuffer Buf] [LawfulQTree Buf] {keys : List (Bytes × Nat)} {required given : List Bytes}

/-- An argument that has been processed fits, and is stored. -/
theorem Stores.process (h : Stores arg_map keys required given) (hdistinct : (keys.map Prod.fst).Nodup)
    (hgiven : (given.map argument_key).Nodup) {argument : Buf}
    (hprocess : process_argument system arg_map argument = .ok result) :
    Fitting keys given [contents argument] ∧ Stores result keys required (given ++ [contents argument]) := by
  have hample := (degrades_process_argument argument).ok hprocess
  by_cases hfits : Fitting keys given [contents argument]
  · obtain ⟨next, hnext, hstores⟩ := h.process_ok system.ample_allocates hdistinct hgiven hfits
    obtain rfl := Except.ok.inj (hnext.symm.trans hample)
    exact ⟨hfits, hstores⟩
  · exact absurd hample (h.process_error system.ample_allocates hgiven hfits result)

end

end Arguments

end client

end ufh
