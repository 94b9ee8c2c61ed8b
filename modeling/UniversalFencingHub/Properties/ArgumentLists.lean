import Mathlib.Data.List.Nodup
import UniversalFencingHub.Client.Parameters

open ufh.CharBuffer
open ufh.QTree (nodes)

namespace ufh

namespace client

namespace Arguments

/-- Marking keys as required, one after the other. -/
def mark_all {Buf : Type} [CharBuffer Buf] [QTree Buf] (system : System) (arg_map : ArgMap Buf) :
    List Bytes → Except Thrown (ArgMap Buf)
  | [] => .ok arg_map
  | key :: rest =>
    match mark_required system arg_map key with
    | .ok arg_map => mark_all system arg_map rest
    | .error exc => .error exc

/-- Registering keys with the capacities of their values, some of them as required. -/
def register {Buf : Type} [CharBuffer Buf] [QTree Buf] (system : System) (keys : List (Bytes × Nat))
    (required : List Bytes) : Except Thrown (ArgMap Buf) :=
  match ClientParameters.add_entries system QTree.new keys with
  | .ok arg_map => mark_all system arg_map required
  | .error exc => .error exc

/-- Processing arguments, one after the other. -/
def process_arguments {Buf : Type} [TextBuffer Buf] [QTree Buf] (system : System) (arg_map : ArgMap Buf) :
    List Buf → Except Thrown (ArgMap Buf)
  | [] => .ok arg_map
  | argument :: rest =>
    match process_argument system arg_map argument with
    | .ok arg_map => process_arguments system arg_map rest
    | .error exc => .error exc

/-- Processing arguments and checking that the required ones are among them. -/
def process_all {Buf : Type} [TextBuffer Buf] [QTree Buf] (system : System) (arg_map : ArgMap Buf)
    (arguments : List Buf) : Except Thrown (ArgMap Buf) :=
  match process_arguments system arg_map arguments with
  | .ok arg_map =>
    match check_required system arg_map with
    | .ok () => .ok arg_map
    | .error exc => .error exc
  | .error exc => .error exc

/-- The part of an argument before its first `'='`. -/
def argument_key (argument : Bytes) : Bytes := before_first SPLIT_CHAR argument

/-- The part of an argument after its first `'='`. -/
def argument_value (argument : Bytes) : Bytes := after_first SPLIT_CHAR argument

/-- The value that arguments give to a key, empty if they do not give one. -/
def given_value (arguments : List Bytes) (key : Bytes) : Bytes :=
  ((arguments.find? fun argument => argument_key argument = key).map argument_value).getD []

/-- Arguments for registered keys that fit behind the ones that were given before. -/
structure Fitting (keys : List (Bytes × Nat)) (given arguments : List Bytes) : Prop where
  split : ∀ argument ∈ arguments, SPLIT_CHAR ∈ argument
  registered : ∀ argument ∈ arguments, ∃ value_capacity, (argument_key argument, value_capacity) ∈ keys ∧
    (argument_value argument).length ≤ value_capacity
  once : ((given ++ arguments).map argument_key).Nodup

/-- Arguments that are accepted as a whole. -/
structure Accepted (keys : List (Bytes × Nat)) (required arguments : List Bytes) : Prop where
  fitting : Fitting keys [] arguments
  required : ∀ key ∈ required, key ∈ arguments.map argument_key

theorem fitting_cons {keys : List (Bytes × Nat)} {given arguments : List Bytes} {argument : Bytes} :
    Fitting keys given (argument :: arguments) ↔
      Fitting keys given [argument] ∧ Fitting keys (given ++ [argument]) arguments := by
  have hsplit : given ++ argument :: arguments = given ++ [argument] ++ arguments := by simp
  constructor
  · rintro ⟨hequals, hregistered, honce⟩
    obtain ⟨hequal, hequals⟩ := List.forall_mem_cons.mp hequals
    obtain ⟨hfirst, hregistered⟩ := List.forall_mem_cons.mp hregistered
    rw [hsplit] at honce
    refine ⟨⟨by simpa using hequal, by simpa using hfirst, ?_⟩, hequals, hregistered, honce⟩
    rw [List.map_append] at honce
    exact honce.of_append_left
  · rintro ⟨⟨hequal, hfirst, _⟩, hequals, hregistered, honce⟩
    refine ⟨List.forall_mem_cons.mpr ⟨by simpa using hequal, hequals⟩,
      List.forall_mem_cons.mpr ⟨by simpa using hfirst, hregistered⟩, ?_⟩
    rwa [hsplit]

theorem fitting_singleton {keys : List (Bytes × Nat)} {given : List Bytes} {argument : Bytes}
    (hgiven : (given.map argument_key).Nodup) :
    Fitting keys given [argument] ↔ SPLIT_CHAR ∈ argument ∧
      (∃ value_capacity, (argument_key argument, value_capacity) ∈ keys ∧
        (argument_value argument).length ≤ value_capacity) ∧ argument_key argument ∉ given.map argument_key := by
  have honce : ((given ++ [argument]).map argument_key).Nodup ↔ argument_key argument ∉ given.map argument_key := by
    rw [List.map_append, List.map_singleton, List.nodup_append_comm]
    simp only [List.singleton_append, List.nodup_cons, and_iff_left hgiven]
  constructor
  · rintro ⟨hequal, hfirst, hnodup⟩
    exact ⟨by simpa using hequal, by simpa using hfirst, honce.mp hnodup⟩
  · rintro ⟨hequal, hfirst, hnew⟩
    exact ⟨by simpa using hequal, by simpa using hfirst, honce.mpr hnew⟩

/-- The value of a key that is given once. -/
theorem given_value_of_mem {arguments : List Bytes} {argument : Bytes} (honce : (arguments.map argument_key).Nodup)
    (hmem : argument ∈ arguments) : given_value arguments (argument_key argument) = argument_value argument := by
  unfold given_value
  cases hfind : arguments.find? fun other => argument_key other = argument_key argument with
  | none =>
    have habsent := List.find?_eq_none.mp hfind argument hmem
    simp at habsent
  | some other =>
    have hkey : argument_key other = argument_key argument := by simpa using List.find?_some hfind
    obtain rfl := List.inj_on_of_nodup_map honce (List.mem_of_find?_eq_some hfind) hmem hkey
    rfl

theorem given_value_of_not_mem {arguments : List Bytes} {key : Bytes} (habsent : key ∉ arguments.map argument_key) :
    given_value arguments key = [] := by
  have hfind : (arguments.find? fun argument => argument_key argument = key) = none := by
    refine List.find?_eq_none.mpr (fun argument hargument hkey => habsent ?_)
    exact List.mem_map.mpr ⟨argument, hargument, by simpa using hkey⟩
  rw [given_value, hfind]
  rfl

theorem given_value_append {given : List Bytes} {argument key : Bytes} :
    given_value (given ++ [argument]) key =
      if key ∈ given.map argument_key then given_value given key
      else if key = argument_key argument then argument_value argument else [] := by
  unfold given_value
  rw [List.find?_append]
  by_cases hgiven : key ∈ given.map argument_key
  · obtain ⟨other, hother, hkey⟩ := List.mem_map.mp hgiven
    obtain ⟨found, hfound⟩ : ∃ found, (given.find? fun argument => argument_key argument = key) = some found :=
      Option.isSome_iff_exists.mp (List.find?_isSome.mpr ⟨other, hother, by simpa using hkey⟩)
    rw [if_pos hgiven, hfound]
    rfl
  · have hfind : (given.find? fun argument => argument_key argument = key) = none := by
      refine List.find?_eq_none.mpr (fun other hother hkey => hgiven ?_)
      exact List.mem_map.mpr ⟨other, hother, by simpa using hkey⟩
    rw [if_neg hgiven, hfind, Option.none_or]
    by_cases hkey : key = argument_key argument
    · simp [hkey]
    · simp [hkey, Ne.symm hkey]

/-- What the map stores under a key, after some keys have been marked as required and some
arguments have been given. -/
structure StoresEntry {Buf : Type} [CharBuffer Buf] (keys : List (Bytes × Nat)) (required given : List Bytes)
    (node : Buf × Entry Buf) : Prop where
  capacity : (contents node.1, capacity node.2.value) ∈ keys
  required : node.2.required = true ↔ contents node.1 ∈ required
  present : node.2.present = true ↔ contents node.1 ∈ given.map argument_key
  value : contents node.2.value = given_value given (contents node.1)

structure Stores {Buf : Type} [CharBuffer Buf] [QTree Buf] (arg_map : ArgMap Buf) (keys : List (Bytes × Nat))
    (required given : List Bytes) : Prop where
  registered : ∀ key, (∃ node ∈ nodes arg_map, contents node.1 = key) ↔ key ∈ keys.map Prod.fst
  entry : ∀ node ∈ nodes arg_map, StoresEntry keys required given node

section

variable {Buf : Type} [CharBuffer Buf] [QTree Buf] [LawfulQTree Buf] {arg_map : ArgMap Buf}
  {keys : List (Bytes × Nat)} {required given : List Bytes} {system : System}

theorem Stores.get (h : Stores arg_map keys required given) {key : Buf} (hkey : contents key ∈ keys.map Prod.fst) :
    ∃ node ∈ nodes arg_map, contents node.1 = contents key ∧ QTree.get arg_map key = some node.2 := by
  obtain ⟨node, hnode, hcontents⟩ := (h.registered _).mpr hkey
  obtain ⟨found, hfound⟩ : ∃ found, ((nodes arg_map).find? fun node => contents node.1 = contents key) = some found :=
    Option.isSome_iff_exists.mp (List.find?_isSome.mpr ⟨node, hnode, by simpa using hcontents⟩)
  refine ⟨found, List.mem_of_find?_eq_some hfound, by simpa using List.find?_some hfound, ?_⟩
  rw [LawfulQTree.get_eq, hfound]
  rfl

theorem Stores.get_none (h : Stores arg_map keys required given) {key : Buf} (hkey : contents key ∉ keys.map Prod.fst) :
    QTree.get arg_map key = none := by
  cases hget : QTree.get arg_map key with
  | none => rfl
  | some entry =>
    obtain ⟨node, hnode, hcontents, _⟩ := LawfulQTree.mem_of_get hget
    exact absurd ((h.registered _).mp ⟨node, hnode, hcontents⟩) hkey

/-- Changing one entry leaves the other ones as they are. -/
theorem Stores.update {required' given' : List Bytes} (h : Stores arg_map keys required given) (key : Buf)
    {change : Entry Buf → Entry Buf}
    (hchange : ∀ node ∈ nodes arg_map, contents node.1 = contents key →
      StoresEntry keys required' given' (node.1, change node.2))
    (hother : ∀ node ∈ nodes arg_map, contents node.1 ≠ contents key → StoresEntry keys required' given' node) :
    Stores (QTree.update arg_map key change) keys required' given' where
  registered other := by
    rw [← h.registered other, LawfulQTree.nodes_update]
    constructor
    · rintro ⟨node, hnode, rfl⟩
      obtain ⟨old, hold, rfl⟩ := List.mem_map.mp hnode
      refine ⟨old, hold, ?_⟩
      split
      · rfl
      · rfl
    · rintro ⟨node, hnode, rfl⟩
      refine ⟨_, List.mem_map.mpr ⟨node, hnode, rfl⟩, ?_⟩
      split
      · rfl
      · rfl
  entry node hnode := by
    rw [LawfulQTree.nodes_update] at hnode
    obtain ⟨old, hold, rfl⟩ := List.mem_map.mp hnode
    split
    · next hkey => exact hchange old hold hkey
    · next hkey => exact hother old hold hkey

variable [LawfulCharBuffer Buf]

/-- Keys that differ from each other are added to the map with their capacities. -/
theorem Stores.add_entries (hmemory : ∀ allocation, system.allocates allocation = true)
    (h : Stores arg_map keys [] []) {added : List (Bytes × Nat)} (hdistinct : ((keys ++ added).map Prod.fst).Nodup) :
    ∃ result, ClientParameters.add_entries system arg_map added = .ok result ∧ Stores result (keys ++ added) [] [] := by
  induction added generalizing arg_map keys with
  | nil =>
    rw [List.append_nil]
    exact ⟨_, rfl, h⟩
  | cons entry rest ih =>
    obtain ⟨key, value_capacity⟩ := entry
    have hassoc : keys ++ (key, value_capacity) :: rest = keys ++ [(key, value_capacity)] ++ rest := by simp
    have hkey : contents (from_c_str key : Buf) = key := LawfulCharBuffer.contents_from_c_str _
    have hfresh : key ∉ keys.map Prod.fst := by
      rw [hassoc, List.map_append] at hdistinct
      have hfront := hdistinct.of_append_left
      rw [List.map_append, List.nodup_append_comm] at hfront
      exact (List.nodup_cons.mp hfront).1
    obtain ⟨result, hadded, hnodes⟩ := add_entry_new (hmemory (.entry key))
      (fun node hnode heq => hfresh ((h.registered key).mp ⟨node, hnode, heq⟩)) value_capacity
    have hresult : Stores result (keys ++ [(key, value_capacity)]) [] [] := by
      constructor
      · intro other
        simp only [hnodes, List.map_append, List.mem_append, ← h.registered other]
        constructor
        · rintro ⟨node, rfl | hnode, rfl⟩
          · exact Or.inr (by simp [hkey])
          · exact Or.inl ⟨node, hnode, rfl⟩
        · rintro (⟨node, hnode, rfl⟩ | hnew)
          · exact ⟨node, Or.inr hnode, rfl⟩
          · refine ⟨_, Or.inl rfl, ?_⟩
            simp only [List.map_singleton, List.mem_singleton] at hnew
            rw [hnew, hkey]
      · intro node hnode
        obtain rfl | hold := (hnodes node).mp hnode
        · exact ⟨by simp [hkey, LawfulCharBuffer.capacity_with_capacity], by simp, by simp,
            by simp [LawfulCharBuffer.contents_with_capacity, given_value]⟩
        · obtain ⟨hcapacity, hrequired, hpresent, hvalue⟩ := h.entry node hold
          exact ⟨List.mem_append_left _ hcapacity, hrequired, hpresent, hvalue⟩
    rw [hassoc] at hdistinct ⊢
    obtain ⟨last, hlast, hstores⟩ := ih hresult hdistinct
    refine ⟨last, ?_, hstores⟩
    rw [ClientParameters.add_entries, hadded]
    exact hlast

theorem Stores.mark_all (hmemory : ∀ allocation, system.allocates allocation = true)
    (h : Stores arg_map keys required given) {marked : List Bytes} (hmarked : ∀ key ∈ marked, key ∈ keys.map Prod.fst) :
    ∃ result, mark_all system arg_map marked = .ok result ∧ Stores result keys (required ++ marked) given := by
  induction marked generalizing arg_map required with
  | nil =>
    rw [List.append_nil]
    exact ⟨_, rfl, h⟩
  | cons key rest ih =>
    obtain ⟨hfirst, hrest⟩ := List.forall_mem_cons.mp hmarked
    have hkey : contents (from_c_str key : Buf) = key := LawfulCharBuffer.contents_from_c_str _
    obtain ⟨found, _, _, hget⟩ := h.get (by rwa [hkey] : contents (from_c_str key : Buf) ∈ keys.map Prod.fst)
    have hnext : Stores (QTree.update arg_map (from_c_str key) fun entry => { entry with required := true }) keys
        (required ++ [key]) given := by
      refine h.update _ (fun node hnode heq => ?_) (fun node hnode hne => ?_)
      · obtain ⟨hcapacity, _, hpresent, hvalue⟩ := h.entry node hnode
        exact ⟨hcapacity, by simp [heq, hkey], hpresent, hvalue⟩
      · obtain ⟨hcapacity, hrequired, hpresent, hvalue⟩ := h.entry node hnode
        rw [hkey] at hne
        exact ⟨hcapacity, by simp [hrequired, hne], hpresent, hvalue⟩
    obtain ⟨last, hlast, hstores⟩ := ih hnext hrest
    rw [List.append_assoc] at hstores
    refine ⟨last, ?_, hstores⟩
    rw [Arguments.mark_all, mark_required, if_pos (hmemory _)]
    simp only [hget]
    exact hlast

/-- Registering distinct keys prepares an empty value for each of them. -/
theorem register_ok (hmemory : ∀ allocation, system.allocates allocation = true) (hdistinct : (keys.map Prod.fst).Nodup)
    (hrequired : ∀ key ∈ required, key ∈ keys.map Prod.fst) :
    ∃ arg_map : ArgMap Buf, register system keys required = .ok arg_map ∧ Stores arg_map keys required [] := by
  have hnodes : nodes (QTree.new : ArgMap Buf) = [] := LawfulQTree.nodes_new _
  have hempty : Stores (QTree.new : ArgMap Buf) [] [] [] := ⟨by simp [hnodes], by simp [hnodes]⟩
  obtain ⟨added, hadded, hstores⟩ := hempty.add_entries hmemory hdistinct
  obtain ⟨arg_map, hmarked, hresult⟩ := hstores.mark_all hmemory hrequired
  refine ⟨arg_map, ?_, hresult⟩
  rw [register, hadded]
  exact hmarked

omit [LawfulCharBuffer Buf] [LawfulQTree Buf] in
/-- `check_required` passes when every required key has been given. -/
theorem Stores.check_required (h : Stores arg_map keys required given)
    (hrequired : ∀ key ∈ required, key ∈ keys.map Prod.fst) :
    check_required system arg_map = .ok () ↔ ∀ key ∈ required, key ∈ given.map argument_key := by
  have hmissing : ((nodes arg_map).filter fun node => node.2.required && !node.2.present) = [] ↔
      ∀ key ∈ required, key ∈ given.map argument_key := by
    rw [List.filter_eq_nil_iff]
    constructor
    · intro hnone key hkey
      obtain ⟨node, hnode, rfl⟩ := (h.registered key).mpr (hrequired key hkey)
      have hentry := h.entry node hnode
      have hpresent := hnone node hnode
      simp only [hentry.required.mpr hkey, Bool.true_and, Bool.not_eq_true', Bool.not_eq_false] at hpresent
      exact hentry.present.mp hpresent
    · intro hall node hnode
      have hentry := h.entry node hnode
      simp only [Bool.and_eq_true, Bool.not_eq_true', not_and, Bool.not_eq_false]
      exact fun hmarked => hentry.present.mpr (hall _ (hentry.required.mp hmarked))
  rw [← hmissing]
  unfold Arguments.check_required
  simp only
  split
  · next hnone => exact iff_of_true rfl hnone
  · next hsome =>
    refine iff_of_false ?_ hsome
    unfold throw_arguments
    split
    · nofun
    · nofun

/-- `get_value` returns the value that was given to a registered key. -/
theorem Stores.get_value (hmemory : ∀ allocation, system.allocates allocation = true)
    (h : Stores arg_map keys required given) {key : Bytes} (hkey : key ∈ keys.map Prod.fst) :
    ∃ value, get_value system arg_map key = .ok value ∧ contents value = given_value given key := by
  have hcontents : contents (from_c_str key : Buf) = key := LawfulCharBuffer.contents_from_c_str _
  obtain ⟨node, hnode, heq, hget⟩ := h.get (by rwa [hcontents] : contents (from_c_str key : Buf) ∈ keys.map Prod.fst)
  refine ⟨node.2.value, ?_, ?_⟩
  · rw [Arguments.get_value, if_pos (hmemory _), hget]
  · rw [(h.entry node hnode).value, heq, hcontents]

end

section

variable {Buf : Type} [TextBuffer Buf] [LawfulTextBuffer Buf] {system : System} {argument : Buf}

omit [LawfulTextBuffer Buf] in
theorem throw_arguments_ne_ok {T : Type} {error_msg : Bytes} {result : T} :
    throw_arguments system error_msg ≠ (.ok result : Except Thrown T) := by
  unfold throw_arguments
  split
  · nofun
  · nofun

theorem index_of_split (hequal : SPLIT_CHAR ∈ contents argument) :
    TextBuffer.index_of_char argument SPLIT_CHAR = some (argument_key (contents argument)).length := by
  rw [LawfulTextBuffer.index_of_char_eq, findIdx?_eq_before_first, if_pos hequal]
  rfl

/-- The key of an argument with a `'='`. -/
theorem search_key_eq (hequal : SPLIT_CHAR ∈ contents argument) :
    ∃ search_key : Buf, contents search_key = argument_key (contents argument) ∧
      substring_from (with_capacity (argument_key (contents argument)).length) argument 0
        (argument_key (contents argument)).length = .ok search_key := by
  have hlt := length_before_first_lt hequal
  obtain ⟨search_key, hsearch, hcontents, _⟩ := LawfulCharBuffer.substring_from_fits
    (with_capacity (argument_key (contents argument)).length : Buf) argument 0
    (argument_key (contents argument)).length (Nat.zero_le _) hlt.le
    (by rw [LawfulCharBuffer.capacity_with_capacity, Nat.sub_zero])
  exact ⟨search_key, hcontents.trans (take_length_before_first _ _), hsearch⟩

omit [LawfulTextBuffer Buf] in
theorem length_argument_value :
    (argument_value (contents argument)).length =
      (contents argument).length - ((argument_key (contents argument)).length + 1) := by
  rw [argument_value, ← drop_length_before_first, List.length_drop]
  rfl

variable [QTree Buf] [LawfulQTree Buf] {arg_map : ArgMap Buf} {keys : List (Bytes × Nat)} {required given : List Bytes}

/-- An argument that fits is stored. -/
theorem Stores.process_ok (hmemory : ∀ allocation, system.allocates allocation = true)
    (h : Stores arg_map keys required given) (hdistinct : (keys.map Prod.fst).Nodup)
    (hgiven : (given.map argument_key).Nodup) (hfits : Fitting keys given [contents argument]) :
    ∃ next, process_argument system arg_map argument = .ok next ∧
      Stores next keys required (given ++ [contents argument]) := by
  obtain ⟨hequal, ⟨value_capacity, hregistered, hlength⟩, hnew⟩ := (fitting_singleton hgiven).mp hfits
  obtain ⟨search_key, hkey, hsearch⟩ := search_key_eq hequal
  have hmem : contents search_key ∈ keys.map Prod.fst := hkey ▸ List.mem_map_of_mem hregistered
  obtain ⟨node, hnode, hcontents, hget⟩ := h.get hmem
  have hcapacity : capacity node.2.value = value_capacity := by
    have hpair := List.inj_on_of_nodup_map hdistinct (h.entry node hnode).capacity hregistered (hcontents.trans hkey)
    exact congrArg Prod.snd hpair
  have habsent : node.2.present = false := by
    rw [← Bool.not_eq_true, (h.entry node hnode).present, hcontents, hkey]
    exact hnew
  have hlt : (argument_key (contents argument)).length < (contents argument).length := length_before_first_lt hequal
  rw [length_argument_value] at hlength
  obtain ⟨value, hvalue, hstored, hsame⟩ := LawfulCharBuffer.substring_from_fits node.2.value argument
    ((argument_key (contents argument)).length + 1) (contents argument).length (by omega) le_rfl (by omega)
  rw [List.take_length, argument_key, drop_length_before_first] at hstored
  refine ⟨QTree.update arg_map search_key fun entry => { entry with value, present := true }, ?_, ?_⟩
  · simp only [process_argument, index_of_split hequal, hmemory, if_true, hsearch, hget, habsent, Bool.false_eq_true,
      if_false, hvalue]
  · refine h.update search_key (fun other hother heq => ?_) (fun other hother hne => ?_)
    · have hentry := h.entry other hother
      rw [hkey] at heq
      refine ⟨?_, hentry.required, iff_of_true rfl ?_, ?_⟩
      · simp only [heq, hsame, hcapacity]
        exact hregistered
      · simp [heq]
      · simp only [heq]
        rw [given_value_append, if_neg hnew, if_pos rfl]
        exact hstored
    · have hentry := h.entry other hother
      rw [hkey] at hne
      refine ⟨hentry.capacity, hentry.required, ?_, ?_⟩
      · rw [hentry.present, List.map_append, List.mem_append]
        simp [hne]
      · rw [hentry.value, given_value_append, if_neg hne]
        split
        · rfl
        · next hold => exact given_value_of_not_mem hold

/-- An argument that does not fit is refused. -/
theorem Stores.process_error (hmemory : ∀ allocation, system.allocates allocation = true)
    (h : Stores arg_map keys required given) (hgiven : (given.map argument_key).Nodup)
    (hunfit : ¬ Fitting keys given [contents argument]) (result : ArgMap Buf) :
    process_argument system arg_map argument ≠ .ok result := by
  rw [fitting_singleton hgiven] at hunfit
  by_cases hequal : SPLIT_CHAR ∈ contents argument
  · obtain ⟨search_key, hkey, hsearch⟩ := search_key_eq hequal
    by_cases hmem : contents search_key ∈ keys.map Prod.fst
    · obtain ⟨node, hnode, hcontents, hget⟩ := h.get hmem
      have hentry := h.entry node hnode
      cases hpresent : node.2.present with
      | true =>
        simp only [process_argument, index_of_split hequal, hmemory, if_true, hsearch, hget, hpresent]
        exact throw_arguments_ne_ok
      | false =>
        have hnew : argument_key (contents argument) ∉ given.map argument_key := by
          rw [← hkey, ← hcontents, ← hentry.present, hpresent]
          decide
        have hregistered := hentry.capacity
        rw [hcontents, hkey] at hregistered
        have hlong : capacity node.2.value < (argument_value (contents argument)).length := by
          by_contra hshort
          exact hunfit ⟨hequal, ⟨_, hregistered, Nat.not_lt.mp hshort⟩, hnew⟩
        have hlt : (argument_key (contents argument)).length < (contents argument).length :=
          length_before_first_lt hequal
        rw [length_argument_value] at hlong
        have hvalue := LawfulTextBuffer.substring_from_exceeds node.2.value argument
          ((argument_key (contents argument)).length + 1) (contents argument).length (by omega) le_rfl hlong
        simp only [process_argument, index_of_split hequal, hmemory, if_true, hsearch, hget, hpresent,
          Bool.false_eq_true, if_false, hvalue]
        exact throw_arguments_ne_ok
    · simp only [process_argument, index_of_split hequal, hmemory, if_true, hsearch, h.get_none hmem]
      exact throw_arguments_ne_ok
  · have hindex : TextBuffer.index_of_char argument SPLIT_CHAR = none := by
      rw [LawfulTextBuffer.index_of_char_eq, findIdx?_eq_before_first, if_neg hequal]
    simp only [process_argument, hindex]
    exact throw_arguments_ne_ok

/-- Arguments are processed to the end exactly when they fit, and all of them are stored then. -/
theorem Stores.process_arguments (hmemory : ∀ allocation, system.allocates allocation = true)
    (h : Stores arg_map keys required given) (hdistinct : (keys.map Prod.fst).Nodup)
    (hgiven : (given.map argument_key).Nodup) (arguments : List Buf) :
    (Fitting keys given (arguments.map contents) → ∃ final, process_arguments system arg_map arguments = .ok final) ∧
      ∀ final, process_arguments system arg_map arguments = .ok final →
        Fitting keys given (arguments.map contents) ∧ Stores final keys required (given ++ arguments.map contents) := by
  induction arguments generalizing arg_map given with
  | nil =>
    refine ⟨fun _ => ⟨_, rfl⟩, fun final hfinal => ?_⟩
    cases hfinal
    rw [List.map_nil, List.append_nil]
    exact ⟨⟨nofun, nofun, by rwa [List.append_nil]⟩, h⟩
  | cons argument rest ih =>
    have hsplit : given ++ contents argument :: rest.map contents =
        given ++ [contents argument] ++ rest.map contents := by simp
    rw [List.map_cons, fitting_cons, hsplit]
    by_cases hfirst : Fitting keys given [contents argument]
    · obtain ⟨next, hnext, hstores⟩ := h.process_ok hmemory hdistinct hgiven hfirst
      obtain ⟨haccepted, hfinal⟩ := ih hstores hfirst.once
      rw [Arguments.process_arguments, hnext]
      simp only
      refine ⟨fun hfitting => haccepted hfitting.2, fun final hprocessed => ?_⟩
      obtain ⟨hrest, hall⟩ := hfinal final hprocessed
      exact ⟨⟨hfirst, hrest⟩, hall⟩
    · refine ⟨fun hfitting => absurd hfitting.1 hfirst, fun final hprocessed => ?_⟩
      rw [Arguments.process_arguments] at hprocessed
      split at hprocessed
      · next next hnext => exact absurd hnext (h.process_error hmemory hgiven hfirst next)
      · cases hprocessed

/-- Arguments and the required ones among them are processed with success exactly when they are accepted. -/
theorem Stores.process_all (hmemory : ∀ allocation, system.allocates allocation = true)
    (h : Stores arg_map keys required []) (hdistinct : (keys.map Prod.fst).Nodup)
    (hrequired : ∀ key ∈ required, key ∈ keys.map Prod.fst) (arguments : List Buf) :
    (Accepted keys required (arguments.map contents) → ∃ final, process_all system arg_map arguments = .ok final) ∧
      ∀ final, process_all system arg_map arguments = .ok final →
        Accepted keys required (arguments.map contents) ∧ Stores final keys required (arguments.map contents) := by
  obtain ⟨hprocess, hfinal⟩ := h.process_arguments hmemory hdistinct List.nodup_nil arguments
  constructor
  · intro haccepted
    obtain ⟨final, hprocessed⟩ := hprocess haccepted.fitting
    have hchecked : Arguments.check_required system final = .ok () :=
      ((hfinal final hprocessed).2.check_required hrequired).mpr haccepted.required
    exact ⟨final, by simp only [Arguments.process_all, hprocessed, hchecked]⟩
  · intro final hresult
    unfold Arguments.process_all at hresult
    split at hresult
    · next processed hprocessed =>
      obtain ⟨hfitting, hstores⟩ := hfinal processed hprocessed
      split at hresult
      · next hchecked =>
        cases hresult
        exact ⟨⟨hfitting, (hstores.check_required hrequired).mp hchecked⟩, hstores⟩
      · cases hresult
    · cases hresult

theorem Accepted.perm {arguments others : List Bytes} (h : Accepted keys required arguments)
    (hperm : arguments.Perm others) : Accepted keys required others := by
  obtain ⟨⟨hsplit, hregistered, honce⟩, hrequired⟩ := h
  refine ⟨⟨fun argument hargument => hsplit argument (hperm.mem_iff.mpr hargument),
    fun argument hargument => hregistered argument (hperm.mem_iff.mpr hargument), (hperm.map _).nodup_iff.mp honce⟩, ?_⟩
  exact fun key hkey => (hperm.map _).mem_iff.mp (hrequired key hkey)

/-- The values do not depend on the order of the arguments. -/
theorem given_value_perm {arguments others : List Bytes} (honce : (arguments.map argument_key).Nodup)
    (hperm : arguments.Perm others) (key : Bytes) : given_value others key = given_value arguments key := by
  have hother : (others.map argument_key).Nodup := (hperm.map _).nodup_iff.mp honce
  by_cases hkey : key ∈ arguments.map argument_key
  · obtain ⟨argument, hargument, rfl⟩ := List.mem_map.mp hkey
    rw [given_value_of_mem honce hargument, given_value_of_mem hother (hperm.mem_iff.mp hargument)]
  · rw [given_value_of_not_mem hkey, given_value_of_not_mem (fun h => hkey ((hperm.map _).mem_iff.mpr h))]

/-- A list of arguments is processed with success exactly when every argument gives a value that fits to a
registered key, no key is given twice and no required key is missing. The values and the success do not
depend on the order of the arguments. -/
theorem argument_lists (Buf : Type) [TextBuffer Buf] [LawfulTextBuffer Buf] [QTree Buf] [LawfulQTree Buf]
    {system : System} (hmemory : ∀ allocation, system.allocates allocation = true) {keys : List (Bytes × Nat)}
    {required : List Bytes} (hdistinct : (keys.map Prod.fst).Nodup)
    (hrequired : ∀ key ∈ required, key ∈ keys.map Prod.fst) :
    ∃ arg_map : ArgMap Buf, register system keys required = .ok arg_map ∧ ∀ arguments : List Buf,
      ((∃ final, process_all system arg_map arguments = .ok final) ↔ Accepted keys required (arguments.map contents)) ∧
      (∀ final, process_all system arg_map arguments = .ok final →
        (∀ argument ∈ arguments, ∃ value, get_value system final (argument_key (contents argument)) = .ok value ∧
          contents value = argument_value (contents argument)) ∧
        ∀ key ∈ keys.map Prod.fst, key ∉ arguments.map (fun argument => argument_key (contents argument)) →
          ∃ value, get_value system final key = .ok value ∧ contents value = []) ∧
      ∀ others, arguments.Perm others →
        ((∃ final, process_all system arg_map others = .ok final) ↔
          ∃ final, process_all system arg_map arguments = .ok final) ∧
        ∀ final final', process_all system arg_map arguments = .ok final →
          process_all system arg_map others = .ok final' → ∀ key ∈ keys.map Prod.fst,
            ∃ value value', get_value system final key = .ok value ∧ get_value system final' key = .ok value' ∧
              contents value' = contents value := by
  obtain ⟨arg_map, hregister, hstores⟩ : ∃ arg_map : ArgMap Buf, register system keys required = .ok arg_map ∧
      Stores arg_map keys required [] := register_ok hmemory hdistinct hrequired
  have hresult := hstores.process_all hmemory hdistinct hrequired
  have hsuccess : ∀ arguments : List Buf, (∃ final, process_all system arg_map arguments = .ok final) ↔
      Accepted keys required (arguments.map contents) :=
    fun arguments => ⟨fun ⟨final, hfinal⟩ => ((hresult arguments).2 final hfinal).1, (hresult arguments).1⟩
  refine ⟨arg_map, hregister, fun arguments => ⟨hsuccess arguments, fun final hfinal => ?_, fun others hperm => ?_⟩⟩
  · obtain ⟨haccepted, hfinal⟩ := (hresult arguments).2 final hfinal
    refine ⟨fun argument hargument => ?_, fun key hkey habsent => ?_⟩
    · have hmem : contents argument ∈ arguments.map contents := List.mem_map_of_mem hargument
      obtain ⟨_, hregistered, _⟩ := haccepted.fitting.registered _ hmem
      obtain ⟨value, hvalue, hcontents⟩ := hfinal.get_value hmemory (List.mem_map_of_mem hregistered)
      exact ⟨value, hvalue, hcontents.trans (given_value_of_mem haccepted.fitting.once hmem)⟩
    · obtain ⟨value, hvalue, hcontents⟩ := hfinal.get_value hmemory hkey
      rw [← Function.comp_def, ← List.map_map] at habsent
      exact ⟨value, hvalue, hcontents.trans (given_value_of_not_mem habsent)⟩
  · have hsame := hperm.map contents
    refine ⟨?_, fun final final' hfinal hfinal' key hkey => ?_⟩
    · rw [hsuccess, hsuccess]
      exact ⟨fun h => h.perm hsame.symm, fun h => h.perm hsame⟩
    · obtain ⟨haccepted, hfinal⟩ := (hresult arguments).2 final hfinal
      obtain ⟨_, hfinal'⟩ := (hresult others).2 final' hfinal'
      obtain ⟨value, hvalue, hcontents⟩ := hfinal.get_value hmemory hkey
      obtain ⟨value', hvalue', hcontents'⟩ := hfinal'.get_value hmemory hkey
      have honce : ((arguments.map contents).map argument_key).Nodup := haccepted.fitting.once
      exact ⟨value, value', hvalue, hvalue', by rw [hcontents, hcontents', given_value_perm honce hsame]⟩

end

/-- A required key and another one, given in the other order. -/
theorem argument_lists_swapped : ∃ arg_map : ArgMap BoundedBuffer,
    register (ClientConnector.replying []) [([0x61], 3), ([0x62], 0)] [[0x61]] = .ok arg_map ∧
      ∃ final, process_all (ClientConnector.replying []) arg_map
        [from_c_str [0x62, SPLIT_CHAR], from_c_str [0x61, SPLIT_CHAR, 0x78, SPLIT_CHAR, 0x79]] = .ok final := by
  obtain ⟨arg_map, hregister, hprocess⟩ := argument_lists BoundedBuffer
    (show ∀ allocation, (ClientConnector.replying []).allocates allocation = true from fun _ => rfl)
    (show ([([0x61], 3), ([0x62], 0)].map Prod.fst : List Bytes).Nodup by decide)
    (show ∀ key ∈ [[0x61]], key ∈ ([([0x61], 3), ([0x62], 0)].map Prod.fst : List Bytes) by decide)
  refine ⟨arg_map, hregister, (hprocess _).1.mpr ⟨⟨by decide, ?_, by decide⟩, by decide⟩⟩
  intro argument hargument
  obtain rfl | hlast := List.mem_cons.mp hargument
  · exact ⟨0, by decide, by decide⟩
  · obtain rfl := List.mem_singleton.mp hlast
    exact ⟨3, by decide, by decide⟩

end Arguments

end client

end ufh
