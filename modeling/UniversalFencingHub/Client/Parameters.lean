import Mathlib.Data.List.TakeWhile
import UniversalFencingHub.Client.Containment

open looping raising ufh.CharBuffer
open ufh.QTree (nodes)

namespace ufh

namespace client

namespace Arguments

/-- An entry is added for a new key. -/
theorem add_entry_new {Buf : Type} [CharBuffer Buf] [LawfulCharBuffer Buf] [QTree Buf] [LawfulQTree Buf]
    {system : System} {arg_map : ArgMap Buf} {key : Bytes} (hallocates : system.allocates (.entry key) = true)
    (hnew : ∀ node ∈ nodes arg_map, contents node.1 ≠ key) (value_capacity : Nat) :
    ∃ result, add_entry system arg_map key value_capacity = .ok result ∧ ∀ node, node ∈ nodes result ↔
      node = (from_c_str key, { value := with_capacity value_capacity }) ∨ node ∈ nodes arg_map := by
  have hkey : contents (from_c_str key : Buf) = key := LawfulCharBuffer.contents_from_c_str _
  obtain ⟨result, hinsert, hperm⟩ := LawfulQTree.insert_new arg_map (from_c_str key)
    { value := with_capacity value_capacity : Entry Buf } (by rwa [hkey])
  refine ⟨result, ?_, fun node => ?_⟩
  · rw [add_entry, if_pos hallocates, hinsert]
  · rw [hperm.mem_iff, List.mem_cons]

end Arguments

namespace ClientParameters

/-- The capacity of the value that belongs to a key. -/
def limit (key : Bytes) : Nat := ((entries.find? fun entry => entry.1 = key).map (·.2)).getD 0

/-- The values of all entries have the capacities with which they were added, and keep to them. -/
def WithinLimits {Buf : Type} [CharBuffer Buf] [QTree Buf] (arg_map : ArgMap Buf) : Prop :=
  ∀ node ∈ nodes arg_map, capacity node.2.value = limit (contents node.1) ∧
    (contents node.2.value).length ≤ limit (contents node.1)

section

variable {Buf : Type} [CharBuffer Buf] [QTree Buf] [LawfulQTree Buf] {arg_map result : ArgMap Buf} {system : System}

theorem WithinLimits.update (h : WithinLimits arg_map) (key : Buf) {change : Entry Buf → Entry Buf}
    (hchange : ∀ node ∈ nodes arg_map, contents node.1 = contents key →
      capacity (change node.2).value = limit (contents node.1) ∧
        (contents (change node.2).value).length ≤ limit (contents node.1)) :
    WithinLimits (QTree.update arg_map key change) := by
  intro node hnode
  rw [LawfulQTree.nodes_update] at hnode
  obtain ⟨old, hold, rfl⟩ := List.mem_map.mp hnode
  split
  · next hkey => exact hchange old hold hkey
  · exact h old hold

theorem WithinLimits.mark_required (h : WithinLimits arg_map) {key : Bytes}
    (hmark : Arguments.mark_required system arg_map key = .ok result) : WithinLimits result := by
  unfold Arguments.mark_required at hmark
  split at hmark
  · simp only at hmark
    split at hmark
    · obtain ⟨rfl⟩ := Except.ok.inj hmark
      exact h.update _ (fun node hnode _ => h node hnode)
    · unfold throw_arguments at hmark
      split at hmark
      · cases hmark
      · cases hmark
  · cases hmark

theorem WithinLimits.require (h : WithinLimits arg_map) {keys : List Bytes}
    (hrequire : Client.require system arg_map keys = .ok result) : WithinLimits result := by
  induction keys generalizing arg_map with
  | nil =>
    obtain ⟨_, _, hlast⟩ := bind_eq_ok.mp hrequire
    cases hlast
    exact h
  | cons key rest ih =>
    obtain ⟨marked, hmark, hrest⟩ := bind_eq_ok.mp hrequire
    exact ih (h.mark_required hmark) hrest

/-- A value that is looked up keeps to the capacity of its key. -/
theorem WithinLimits.get_value [LawfulCharBuffer Buf] (h : WithinLimits arg_map) {key : Bytes} {value : Buf}
    (hget : Arguments.get_value system arg_map key = .ok value) : (contents value).length ≤ limit key := by
  unfold Arguments.get_value at hget
  split at hget
  · split at hget
    · next entry hentry =>
      obtain ⟨node, hnode, hkey, rfl⟩ := LawfulQTree.mem_of_get hentry
      cases hget
      have hlength := (h node hnode).2
      rwa [hkey, LawfulCharBuffer.contents_from_c_str] at hlength
    · unfold throw_arguments at hget
      split at hget
      · cases hget
      · cases hget
  · cases hget

/-- Adding entries for keys that differ from each other and from those that are there. -/
theorem add_entries_spec [LawfulCharBuffer Buf] {added : List (Bytes × Nat)} (h : WithinLimits arg_map)
    (hnew : ∀ node ∈ nodes arg_map, ∀ entry ∈ added, contents node.1 ≠ entry.1)
    (hdistinct : (added.map Prod.fst).Nodup) (hlimit : ∀ entry ∈ added, entry.2 = limit entry.1) :
    Contained (add_entries system arg_map added) ∧
      ∀ result, add_entries system arg_map added = .ok result → WithinLimits result := by
  induction added generalizing arg_map with
  | nil =>
    refine ⟨.ok, fun result hresult => ?_⟩
    cases hresult
    exact h
  | cons entry rest ih =>
    obtain ⟨key, value_capacity⟩ := entry
    obtain ⟨hfresh, hdistinct⟩ := List.nodup_cons.mp hdistinct
    obtain ⟨hfirst, hlimit⟩ := List.forall_mem_cons.mp hlimit
    by_cases hallocates : system.allocates (.entry key) = true
    · have hkey : contents (from_c_str key : Buf) = key := LawfulCharBuffer.contents_from_c_str _
      have habsent : ∀ node ∈ nodes arg_map, contents node.1 ≠ key :=
        fun node hnode => hnew node hnode (key, value_capacity) (List.mem_cons_self ..)
      obtain ⟨next, hadded, hnodes⟩ := Arguments.add_entry_new hallocates habsent value_capacity
      rw [add_entries, hadded]
      refine ih ?_ ?_ hdistinct hlimit
      · intro node hnode
        obtain rfl | hold := (hnodes node).mp hnode
        · simp only [LawfulCharBuffer.capacity_with_capacity, LawfulCharBuffer.contents_with_capacity, hkey]
          exact ⟨hfirst, Nat.zero_le _⟩
        · exact h node hold
      · intro node hnode entry hentry
        obtain rfl | hold := (hnodes node).mp hnode
        · simp only [hkey]
          exact fun heq => hfresh (List.mem_map.mpr ⟨entry, hentry, heq.symm⟩)
        · exact hnew node hold entry (List.mem_cons_of_mem _ hentry)
    · rw [add_entries, Arguments.add_entry, if_neg hallocates]
      exact ⟨.error rfl, nofun⟩

theorem initialize_entries_spec [LawfulCharBuffer Buf] :
    Contained (initialize_entries system : Except Thrown (ArgMap Buf)) ∧
      ∀ result : ArgMap Buf, initialize_entries system = .ok result → WithinLimits result := by
  have hempty : nodes (QTree.new : ArgMap Buf) = [] := LawfulQTree.nodes_new _
  obtain ⟨hcontained, hwithin⟩ : Contained (add_entries system (QTree.new : ArgMap Buf) entries) ∧
      ∀ result, add_entries system (QTree.new : ArgMap Buf) entries = .ok result → WithinLimits result :=
    add_entries_spec (fun node hnode => by simp [hempty] at hnode) (fun node hnode => by simp [hempty] at hnode)
      (by decide) (by decide)
  unfold initialize_entries
  split
  · next arg_map hadded =>
    exact ⟨contained_mark_required _ _, fun result hmark => (hwithin arg_map hadded).mark_required hmark⟩
  · next exc hadded => exact ⟨.error (hcontained exc hadded), nofun⟩

end

section

variable {Buf : Type} [TextBuffer Buf] [LawfulTextBuffer Buf] [QTree Buf] [LawfulQTree Buf]
  {arg_map result : ArgMap Buf} {system : System}

/-- Every argument is either processed within the limits or refused with an exception that `main`
handles. -/
theorem process_argument_spec (h : WithinLimits arg_map) (argument : Buf) :
    Contained (Arguments.process_argument system arg_map argument) ∧
      ∀ result, Arguments.process_argument system arg_map argument = .ok result → WithinLimits result := by
  have hthrow : ∀ error_msg, Contained (throw_arguments system error_msg : Except Thrown (ArgMap Buf)) ∧
      ∀ result : ArgMap Buf, throw_arguments system error_msg = .ok result → WithinLimits result := by
    intro error_msg
    refine ⟨contained_throw_arguments _ _, fun result hresult => ?_⟩
    unfold throw_arguments at hresult
    split at hresult
    · cases hresult
    · cases hresult
  unfold Arguments.process_argument
  split
  · next split_idx hindex =>
    rw [LawfulTextBuffer.index_of_char_eq] at hindex
    have hlt : split_idx < (contents argument).length := (List.findIdx?_eq_some_iff_getElem.mp hindex).1
    split
    · obtain ⟨search_key, hsearch, _⟩ := LawfulCharBuffer.substring_from_fits (with_capacity split_idx : Buf) argument 0
        split_idx (Nat.zero_le _) (by omega) (by rw [LawfulCharBuffer.capacity_with_capacity]; omega)
      rw [hsearch]
      simp only
      split
      · next arg_entry hget =>
        split
        · exact hthrow _
        · split
          · next value hvalue =>
            refine ⟨.ok, fun result hresult => ?_⟩
            cases hresult
            refine h.update _ (fun node hnode hkey => ?_)
            obtain ⟨found, hfound, hfoundKey, rfl⟩ := LawfulQTree.mem_of_get hget
            obtain ⟨hcapacity, _⟩ := h found hfound
            by_cases hlong : capacity found.2.value < (contents argument).length - (split_idx + 1)
            · rw [LawfulTextBuffer.substring_from_exceeds _ _ _ _ (by omega) (le_refl _) hlong] at hvalue
              cases hvalue
            · obtain ⟨stored, hstored, hcontents, hsame⟩ := LawfulCharBuffer.substring_from_fits found.2.value argument
                (split_idx + 1) (contents argument).length (by omega) (le_refl _) (by omega)
              rw [hstored] at hvalue
              cases hvalue
              have hkeys : contents node.1 = contents found.1 := hkey.trans hfoundKey.symm
              rw [hkeys, ← hcapacity]
              refine ⟨hsame, ?_⟩
              rw [hcontents, List.length_drop, List.take_length]
              omega
          · exact hthrow _
      · exact hthrow _
    · exact ⟨.error rfl, nofun⟩
  · exact hthrow _

/-- An argument escapes from `read_parameters` exactly when its line is longer than the capacity
that was derived from `gcount()`. -/
theorem read_argument_spec (h : WithinLimits arg_map) (line : Bytes) (line_length : Nat) :
    (∀ exc, read_argument system arg_map line line_length = .error exc → exc.escapes = true →
      system.allocates (.argument line) = true ∧ line_length < (ClientConnector.c_str line).length) ∧
    (system.allocates (.argument line) = true → line_length < (ClientConnector.c_str line).length →
      read_argument system arg_map line line_length = .error .RangeException) ∧
    ∀ result, read_argument system arg_map line line_length = .ok result → WithinLimits result := by
  unfold read_argument
  split
  · next hallocates =>
    by_cases hlong : line_length < (ClientConnector.c_str line).length
    · have hassign := LawfulTextBuffer.assign_c_str_exceeds (with_capacity line_length : Buf)
        (ClientConnector.c_str line) (by rwa [LawfulCharBuffer.capacity_with_capacity])
      rw [hassign]
      exact ⟨fun _ _ _ => ⟨hallocates, hlong⟩, fun _ _ => rfl, nofun⟩
    · obtain ⟨crt_arg, hassign, _⟩ := LawfulTextBuffer.assign_c_str_fits (with_capacity line_length : Buf)
        (ClientConnector.c_str line) (by rw [LawfulCharBuffer.capacity_with_capacity]; omega)
      rw [hassign]
      obtain ⟨hcontained, hwithin⟩ := process_argument_spec h crt_arg
      refine ⟨fun exc hexc hescapes => ?_, fun _ hlonger => absurd hlonger hlong, hwithin⟩
      rw [hcontained exc hexc] at hescapes
      cases hescapes
  · next hallocates =>
    refine ⟨fun exc hexc hescapes => ?_, fun hallocated => absurd hallocated hallocates, nofun⟩
    cases hexc
    cases hescapes

/-- A line of standard input that ends with a newline, or that contains a NUL character. -/
def LineFits (line : Bytes) (read_count : Nat) : Prop := read_count = line.length + 1 ∨ 0 ∈ line

/-- Every argument line at which the loop in `read_parameters` arrives fits. -/
def LinesFit (system : System) (stdin : Istream) (arg_map : ArgMap Buf) : Prop :=
  ∀ stream params stream' line read_count, Reaches (read_round system) (stdin, arg_map) (stream, params) →
    stream.good = true → stream.getline MAX_PARAMETER_SIZE = some (stream', line, read_count) → read_count > 1 →
    system.allocates (.argument line) = true → LineFits line read_count

omit [LawfulTextBuffer Buf] [LawfulQTree Buf] in
theorem length_getline {stream stream' : Istream} {size read_count : Nat} {line : Bytes}
    (hline : stream.getline size = some (stream', line, read_count)) :
    read_count = line.length ∨ read_count = line.length + 1 := by
  unfold Istream.getline at hline
  simp only at hline
  split at hline
  · split at hline
    · cases hline
      exact Or.inr rfl
    · split at hline
      · cases hline
      · cases hline
        exact Or.inl rfl
  · next hlong =>
    cases hline
    have hbegins := (List.takeWhile_prefix (fun byte : UInt8 => decide (byte ≠ 0x0A)) (l := stream.content)).length_le
    rw [List.length_take]
    omega

omit [LawfulTextBuffer Buf] [LawfulQTree Buf] in
/-- The text of a line is longer than the capacity derived from `gcount()` exactly when the line
does not fit. -/
theorem line_fits_iff {line : Bytes} {read_count : Nat}
    (hcount : read_count = line.length ∨ read_count = line.length + 1)
    (hmore : read_count > 1) : LineFits line read_count ↔ ¬ read_count - 1 < (ClientConnector.c_str line).length := by
  have hbegins := (List.takeWhile_prefix (fun byte : UInt8 => decide (byte ≠ 0)) (l := line)).length_le
  change (ClientConnector.c_str line).length ≤ line.length at hbegins
  by_cases hzero : 0 ∈ line
  · have hshorter : (ClientConnector.c_str line).length < line.length := by
      by_contra hlong
      have hwhole : ClientConnector.c_str line = line :=
        (List.takeWhile_prefix _).eq_of_length (show (ClientConnector.c_str line).length = line.length by omega)
      have hnonzero := List.mem_takeWhile_imp (show 0 ∈ List.takeWhile _ line from hwhole.symm ▸ hzero)
      simp at hnonzero
    exact iff_of_true (Or.inr hzero) (by omega)
  · have hwhole : ClientConnector.c_str line = line := by
      refine List.takeWhile_eq_self_iff.mpr (fun byte hbyte => ?_)
      simp only [ne_eq, decide_eq_true_eq]
      exact fun heq => hzero (heq ▸ hbyte)
    rw [hwhole]
    unfold LineFits
    constructor
    · rintro (hterminated | hmem)
      · omega
      · exact absurd hmem hzero
    · intro hfits
      left
      omega

theorem within_limits_round {state next : Istream × ArgMap Buf} (h : WithinLimits state.2)
    (hround : read_round system state = .inl next) : WithinLimits next.2 := by
  obtain ⟨stream, params⟩ := state
  unfold read_round at hround
  simp only at hround h
  split at hround
  · split at hround
    · split at hround
      · split at hround
        · next hread =>
          cases hround
          exact (read_argument_spec h _ _).2.2 _ hread
        · cases hround
      · cases hround
        exact h
    · cases hround
  · split at hround
    · cases hround
    · cases hround

theorem within_limits_reaches {first last : Istream × ArgMap Buf} (h : WithinLimits first.2)
    (hreaches : Reaches (read_round system) first last) : WithinLimits last.2 := by
  induction hreaches with
  | refl => exact h
  | tail _ hround ih => exact within_limits_round ih hround

/-- An exception escapes from a round of the loop exactly when its line does not fit. -/
theorem round_escapes_iff {stream : Istream} {params : ArgMap Buf} (h : WithinLimits params) :
    (∃ exc, read_round system (stream, params) = .inr (.error exc) ∧ exc.escapes = true) ↔
      stream.good = true ∧ ∃ stream' line read_count,
        stream.getline MAX_PARAMETER_SIZE = some (stream', line, read_count) ∧ read_count > 1 ∧
          system.allocates (.argument line) = true ∧ ¬ LineFits line read_count := by
  constructor
  · rintro ⟨exc, hround, hescapes⟩
    unfold read_round at hround
    simp only at hround
    split at hround
    · next hgood =>
      refine ⟨hgood, ?_⟩
      split at hround
      · next stream' line read_count hline =>
        split at hround
        · next hmore =>
          split at hround
          · cases hround
          · next hread =>
            cases hround
            obtain ⟨hallocates, hlong⟩ := (read_argument_spec h line (read_count - 1)).1 _ hread hescapes
            refine ⟨stream', line, read_count, hline, hmore, hallocates, ?_⟩
            rw [line_fits_iff (length_getline hline) hmore]
            exact fun hnot => hnot hlong
        · cases hround
      · cases hround
        cases hescapes
    · split at hround
      · cases hround
        cases hescapes
      · cases hround
  · rintro ⟨hgood, stream', line, read_count, hline, hmore, hallocates, hunfit⟩
    rw [line_fits_iff (length_getline hline) hmore, not_not] at hunfit
    have hread : read_argument system params line (read_count - 1) = .error .RangeException :=
      (read_argument_spec h line (read_count - 1)).2.1 hallocates hunfit
    refine ⟨.RangeException, ?_, rfl⟩
    unfold read_round
    simp only [hgood, hline, hread, if_true, if_pos hmore]

/-- An exception escapes from `read_parameters` exactly when it arrives at a line that does not fit. -/
theorem read_escapes_iff {stdin : Istream} (h : WithinLimits arg_map) :
    (∃ exc, Ends (read_round system) (stdin, arg_map) (.error exc) ∧ exc.escapes = true) ↔
      ¬ LinesFit system stdin arg_map := by
  constructor
  · rintro ⟨exc, hends, hescapes⟩ hfit
    obtain ⟨⟨stream, params⟩, hreaches, hlast⟩ := ends_iff_reaches.mp hends
    obtain ⟨hgood, stream', line, read_count, hline, hmore, hallocates, hunfit⟩ :=
      (round_escapes_iff (within_limits_reaches h hreaches)).mp ⟨exc, hlast, hescapes⟩
    exact hunfit (hfit stream params stream' line read_count hreaches hgood hline hmore hallocates)
  · intro hunfit
    unfold LinesFit at hunfit
    push Not at hunfit
    obtain ⟨stream, params, stream', line, read_count, hreaches, hgood, hline, hmore, hallocates, hunfit⟩ := hunfit
    obtain ⟨exc, hround, hescapes⟩ := (round_escapes_iff (within_limits_reaches h hreaches)).mpr
      ⟨hgood, stream', line, read_count, hline, hmore, hallocates, hunfit⟩
    exact ⟨exc, ends_iff_reaches.mpr ⟨_, hreaches, hround⟩, hescapes⟩

theorem within_limits_of_read {stdin : Istream} (h : WithinLimits arg_map)
    (hends : Ends (read_round system) (stdin, arg_map) (.ok result)) : WithinLimits result := by
  obtain ⟨⟨stream, params⟩, hreaches, hlast⟩ := ends_iff_reaches.mp hends
  have hwithin := within_limits_reaches h hreaches
  unfold read_round at hlast
  simp only at hlast
  split at hlast
  · split at hlast
    · split at hlast
      · split at hlast
        · cases hlast
        · cases hlast
      · cases hlast
    · cases hlast
  · split at hlast
    · cases hlast
    · cases hlast
      exact hwithin

end

end ClientParameters

end client

end ufh
