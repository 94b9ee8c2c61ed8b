import UniversalFencingHub.Client.Memory
import UniversalFencingHub.Properties.InputLines

open looping ufh.CharBuffer

namespace ufh

namespace client

namespace ClientParameters

/-- The arguments in an input: the text of every line that is not empty, and of a last line without a newline
that has more than one character. -/
def input_arguments (content : Bytes) : List Bytes :=
  ((split_lines content).dropLast.filter (· ≠ []) ++
    (split_lines content).getLast?.toList.filter fun line => 1 < line.length).map ClientConnector.c_str

theorem input_arguments_newline {line : Bytes} (rest : Bytes) (hline : NEWLINE ∉ line) :
    input_arguments (line ++ NEWLINE :: rest) =
      (if line = [] then [] else [ClientConnector.c_str line]) ++ input_arguments rest := by
  obtain ⟨next, others, hothers⟩ := List.exists_cons_of_ne_nil (split_lines_ne_nil rest)
  rw [input_arguments, input_arguments, split_lines_newline rest hline, hothers, List.dropLast_cons_of_ne_nil (by simp),
    List.getLast?_cons_cons]
  split
  · next hempty => rw [hempty, List.filter_cons_of_neg (by simp), List.nil_append]
  · next hfilled => rw [List.filter_cons_of_pos (by simpa using hfilled), List.cons_append, List.map_cons,
      List.singleton_append]

theorem input_arguments_rest {line : Bytes} (hline : NEWLINE ∉ line) :
    input_arguments line = if 1 < line.length then [ClientConnector.c_str line] else [] := by
  rw [input_arguments, split_lines_rest hline]
  split
  · next hlong => simp [hlong]
  · next hshort => simp [hshort]

end ClientParameters

open ClientParameters in
/-- The arguments that a stream gives. -/
def Istream.arguments (stream : Istream) : List Bytes := if stream.good then input_arguments stream.content else []

namespace Istream

open ClientParameters

/-- Arguments are C strings. -/
theorem nul_not_mem_arguments (stream : Istream) {argument : Bytes} (hargument : argument ∈ stream.arguments) :
    0 ∉ argument := by
  have htext : ∀ content, argument ∈ input_arguments content → 0 ∉ argument := by
    intro content hmem
    obtain ⟨line, _, rfl⟩ := List.mem_map.mp hmem
    exact fun hzero => by simpa using List.mem_takeWhile_imp hzero
  unfold arguments at hargument
  split at hargument
  · exact htext _ hargument
  · cases hargument

/-- Values that are given are C strings. -/
theorem nul_not_mem_given_value (stream : Istream) (key : Bytes) : 0 ∉ Arguments.given_value stream.arguments key := by
  unfold Arguments.given_value
  cases hfind : stream.arguments.find? fun argument => Arguments.argument_key argument = key with
  | none => exact List.not_mem_nil
  | some argument =>
    intro hzero
    refine nul_not_mem_arguments stream (List.mem_of_find?_eq_some hfind) ?_
    exact (List.dropWhile_sublist _).mem (List.mem_of_mem_drop hzero)

variable {stream next : Istream} {line : Bytes} {size read_count : Nat}

/-- A line is read with its newline, up to the end of the input, or it does not fit into the buffer. -/
theorem getline_cases (hread : stream.getline size = some (next, line, read_count)) :
    (∃ rest, stream.content = line ++ NEWLINE :: rest ∧ NEWLINE ∉ line ∧ next = { stream with content := rest } ∧
      read_count = line.length + 1) ∨
    (stream.content = line ∧ NEWLINE ∉ line ∧ next.eofbit = true ∧ read_count = line.length) ∨
    (next.failbit = true ∧ next.eofbit = stream.eofbit) := by
  have hfirst : stream.content.takeWhile (· ≠ 0x0A) = before_first NEWLINE stream.content := rfl
  unfold getline at hread
  simp only [hfirst] at hread
  split at hread
  · split at hread
    · next hmore =>
      cases hread
      have hmem : NEWLINE ∈ stream.content := by
        by_contra hnone
        rw [before_first_of_not_mem hnone] at hmore
        omega
      obtain ⟨front, rest, hcontent, hfront⟩ := List.eq_append_cons_of_mem hmem
      have hline : before_first NEWLINE stream.content = front := by
        rw [hcontent]
        exact before_first_append rest hfront
      rw [hline]
      refine Or.inl ⟨rest, hcontent, hfront, ?_, rfl⟩
      rw [hcontent, ← List.drop_drop, List.drop_left]
      rfl
    · next hwhole =>
      split at hread
      · cases hread
      · cases hread
        have hnone : NEWLINE ∉ stream.content := fun hmem => hwhole (length_before_first_lt hmem)
        rw [before_first_of_not_mem hnone]
        exact Or.inr (Or.inl ⟨rfl, hnone, rfl, rfl⟩)
  · cases hread
    exact Or.inr (Or.inr ⟨rfl, rfl⟩)

end Istream

namespace ClientParameters

variable {Buf : Type} [TextBuffer Buf] [QTree Buf] {system : System} {arg_map result : ArgMap Buf}

/-- The arguments with which the client starts. -/
theorem stores_initialize_entries [LawfulCharBuffer Buf] [LawfulQTree Buf]
    (hentries : initialize_entries system = .ok arg_map) : Arguments.Stores arg_map entries [KEY_ACTION] [] := by
  obtain ⟨registered, hregister, hstores⟩ : ∃ registered : ArgMap Buf,
      Arguments.register system.ample entries [KEY_ACTION] = .ok registered ∧
        Arguments.Stores registered entries [KEY_ACTION] [] :=
    Arguments.register_ok system.ample_allocates (by decide) (by decide)
  have hsame : Arguments.register system.ample entries [KEY_ACTION] = .ok arg_map := by
    unfold initialize_entries at hentries
    split at hentries
    · next added hadd =>
      rw [Arguments.register, (Arguments.degrades_add_entries _).ok hadd]
      simp only [Arguments.mark_all, (Arguments.degrades_mark_required _).ok hentries]
    · cases hentries
  obtain rfl := Except.ok.inj (hregister.symm.trans hsame)
  exact hstores

variable [LawfulTextBuffer Buf] [LawfulQTree Buf] {keys : List (Bytes × Nat)} {required given : List Bytes}
  {stream : Istream}

/-- A line that has been processed is one argument. -/
theorem stores_read_argument (h : Arguments.Stores arg_map keys required given) (hdistinct : (keys.map Prod.fst).Nodup)
    (hgiven : (given.map Arguments.argument_key).Nodup) {line : Bytes} {line_length : Nat}
    (hread : read_argument system arg_map line line_length = .ok result) :
    Arguments.Fitting keys given [ClientConnector.c_str line] ∧
      Arguments.Stores result keys required (given ++ [ClientConnector.c_str line]) := by
  unfold read_argument at hread
  split at hread
  · split at hread
    · next crt_arg hassign =>
      have hcontents : contents crt_arg = ClientConnector.c_str line := by
        by_cases hfits : (ClientConnector.c_str line).length ≤ line_length
        · obtain ⟨assigned, hassigned, hcontents, _⟩ := LawfulTextBuffer.assign_c_str_fits
            (with_capacity line_length : Buf) (ClientConnector.c_str line)
            (by rwa [LawfulCharBuffer.capacity_with_capacity])
          obtain rfl := Except.ok.inj (hassigned.symm.trans hassign)
          exact hcontents
        · rw [LawfulTextBuffer.assign_c_str_exceeds _ _
            (by rw [LawfulCharBuffer.capacity_with_capacity]; omega)] at hassign
          cases hassign
      rw [← hcontents]
      exact h.process hdistinct hgiven hread
    · cases hread
  · cases hread

omit [LawfulTextBuffer Buf] [LawfulQTree Buf] in
/-- A round that goes on has read a line. -/
theorem round_reads {next : Istream} (hround : read_round system (stream, arg_map) = .inl (next, result)) :
    stream.good = true ∧ ∃ line read_count, stream.getline MAX_PARAMETER_SIZE = some (next, line, read_count) ∧
      (1 < read_count ∧ read_argument system arg_map line (read_count - 1) = .ok result ∨
        read_count ≤ 1 ∧ result = arg_map) := by
  unfold read_round at hround
  simp only at hround
  split at hround
  · next hgood =>
    refine ⟨hgood, ?_⟩
    split at hround
    · next after line read_count hline =>
      split at hround
      · next hmore =>
        split at hround
        · next hread =>
          cases hround
          exact ⟨line, read_count, hline, Or.inl ⟨hmore, hread⟩⟩
        · cases hround
      · next hfew =>
        cases hround
        exact ⟨line, read_count, hline, Or.inr ⟨Nat.not_lt.mp hfew, rfl⟩⟩
    · cases hround
  · split at hround
    · cases hround
    · cases hround

/-- A round of the loop stores the next argument of the stream, if the line fits into the buffer. -/
theorem stores_round (h : Arguments.Stores arg_map keys required given) (hdistinct : (keys.map Prod.fst).Nodup)
    (hgiven : (given.map Arguments.argument_key).Nodup) {next : Istream}
    (hround : read_round system (stream, arg_map) = .inl (next, result)) :
    (next.failbit = true ∧ next.eofbit = false) ∨ ∃ passed, stream.arguments = passed ++ next.arguments ∧
      (∀ later, Arguments.Fitting keys (given ++ passed) later → Arguments.Fitting keys given (passed ++ later)) ∧
      ((given ++ passed).map Arguments.argument_key).Nodup ∧
      Arguments.Stores result keys required (given ++ passed) := by
  obtain ⟨hgood, line, read_count, hline, hstored⟩ := round_reads hround
  have heof : stream.eofbit = false := by
    unfold Istream.good at hgood
    simp only [Bool.and_eq_true, Bool.not_eq_true'] at hgood
    exact hgood.1
  have hkept : ∃ passed, passed = (if 1 < read_count then [ClientConnector.c_str line] else []) ∧
      (∀ later, Arguments.Fitting keys (given ++ passed) later → Arguments.Fitting keys given (passed ++ later)) ∧
      ((given ++ passed).map Arguments.argument_key).Nodup ∧
      Arguments.Stores result keys required (given ++ passed) := by
    obtain ⟨hmore, hread⟩ | ⟨hfew, rfl⟩ := hstored
    · obtain ⟨hfits, hstores⟩ := stores_read_argument h hdistinct hgiven hread
      rw [if_pos hmore]
      exact ⟨_, rfl, fun later hlater => Arguments.fitting_cons.mpr ⟨hfits, hlater⟩, hfits.once, hstores⟩
    · rw [if_neg (Nat.not_lt.mpr hfew)]
      refine ⟨_, rfl, ?_⟩
      rw [List.append_nil]
      exact ⟨fun later hlater => hlater, hgiven, h⟩
  obtain ⟨passed, hpassed, hkept⟩ := hkept
  obtain ⟨rest, hcontent, hnone, rfl, rfl⟩ | ⟨hcontent, hnone, hended, rfl⟩ | ⟨hfail, hsame⟩ :=
    Istream.getline_cases hline
  · refine Or.inr ⟨passed, ?_, hkept⟩
    have hgood' : Istream.good { stream with content := rest } = true := hgood
    rw [Istream.arguments, Istream.arguments, if_pos hgood, if_pos hgood', hcontent, input_arguments_newline rest hnone,
      hpassed]
    by_cases hempty : line = []
    · rw [if_pos hempty, if_neg (by simp [hempty])]
    · have hpositive := List.length_pos_iff.mpr hempty
      rw [if_neg hempty, if_pos (by omega)]
  · refine Or.inr ⟨passed, ?_, hkept⟩
    have hgood' : next.good = false := by simp [Istream.good, hended]
    rw [Istream.arguments, Istream.arguments, if_pos hgood, hgood', if_neg Bool.false_ne_true, hcontent,
      input_arguments_rest hnone, hpassed, List.append_nil]
  · exact Or.inl ⟨hfail, hsame.trans heof⟩

/-- The loop in `read_parameters` stores all arguments of the stream. -/
theorem stores_run (h : Arguments.Stores arg_map keys required given) (hdistinct : (keys.map Prod.fst).Nodup)
    (hgiven : (given.map Arguments.argument_key).Nodup) {fuel : Nat}
    (hrun : run (read_round system) fuel (stream, arg_map) = some (.ok result)) :
    Arguments.Fitting keys given stream.arguments ∧
      Arguments.Stores result keys required (given ++ stream.arguments) := by
  induction fuel generalizing stream arg_map given with
  | zero => cases hrun
  | succ fuel ih =>
    cases hround : read_round system (stream, arg_map) with
    | inr outcome =>
      rw [run_result hround] at hrun
      obtain rfl := Option.some.inj hrun
      unfold read_round at hround
      simp only at hround
      split at hround
      · split at hround
        · split at hround
          · split at hround
            · cases hround
            · cases hround
          · cases hround
        · cases hround
      · next hended =>
        split at hround
        · cases hround
        · cases hround
          rw [Istream.arguments, if_neg hended, List.append_nil]
          exact ⟨⟨nofun, nofun, by rwa [List.append_nil]⟩, h⟩
    | inl state =>
      obtain ⟨next, params⟩ := state
      rw [run_next hround] at hrun
      obtain ⟨hfail, heof⟩ | ⟨passed, hpassed, hfitting, honce, hstores⟩ := stores_round h hdistinct hgiven hround
      · have hlast : read_round system (next, params) = .inr (.error (.OsException .IO_ERROR)) := by
          simp [read_round, Istream.good, hfail, heof]
        cases fuel with
        | zero => cases hrun
        | succ fuel =>
          rw [run_result hlast] at hrun
          cases hrun
      · obtain ⟨hrest, hall⟩ := ih hstores honce hrun
        rw [hpassed, ← List.append_assoc]
        exact ⟨hfitting _ hrest, hall⟩

end ClientParameters

end client

end ufh
