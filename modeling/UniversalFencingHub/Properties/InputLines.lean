import UniversalFencingHub.Client.Parameters

open looping ufh.CharBuffer

namespace ufh

namespace client

namespace ClientParameters

def NEWLINE : UInt8 := 0x0A

/-- The lines of an input. The last one is what follows the last newline, and it is empty if
nothing does. -/
def split_lines : Bytes → List Bytes
  | [] => [[]]
  | byte :: rest => if byte = NEWLINE then [] :: split_lines rest else (split_lines rest).modifyHead (byte :: ·)

section

variable {Buf : Type} [TextBuffer Buf] [QTree Buf]

/-- The argument that a round of the loop in `read_parameters` passes to `process_argument`. -/
def round_argument (Buf : Type) [TextBuffer Buf] (stream : Istream) : List Bytes :=
  if stream.good then
    match stream.getline MAX_PARAMETER_SIZE with
    | some (_, line, read_count) =>
      if read_count > 1 then
        match TextBuffer.assign_c_str (with_capacity (read_count - 1) : Buf) (ClientConnector.c_str line) with
        | .ok crt_arg => [contents crt_arg]
        | .error _ => []
      else []
    | none => []
  else []

/-- The arguments that the loop passes to `process_argument`, in order. -/
def passed_arguments (system : System) : Nat → Istream × ArgMap Buf → List Bytes
  | 0, _ => []
  | fuel + 1, state =>
    round_argument Buf state.1 ++
      match read_round system state with
      | .inl next => passed_arguments system fuel next
      | .inr _ => []

/-- Passing every line that is not empty to `process_argument`, until one is rejected or a line is
too long: the lines that are passed, and the result. -/
def pass_lines (system : System) (arg_map : ArgMap Buf) : List Bytes → List Bytes × Except Thrown (ArgMap Buf)
  | [] => ([], .ok arg_map)
  | line :: rest =>
    if MAX_PARAMETER_SIZE ≤ line.length then ([], .error (.OsException .IO_ERROR))
    else if line = [] then pass_lines system arg_map rest
    else
      match read_argument system arg_map line line.length with
      | .ok arg_map => (line :: (pass_lines system arg_map rest).1, (pass_lines system arg_map rest).2)
      | .error exc => ([line], .error exc)

/-- The lines up to the first one that is rejected. -/
def reached_lines (system : System) (arg_map : ArgMap Buf) : List Bytes → List Bytes
  | [] => []
  | line :: rest =>
    if line = [] then line :: reached_lines system arg_map rest
    else
      match read_argument system arg_map line line.length with
      | .ok arg_map => line :: reached_lines system arg_map rest
      | .error _ => [line]

/-- The loop ends, with the given arguments passed to `process_argument` and the given result. -/
def Passes (system : System) (state : Istream × ArgMap Buf) (expected : List Bytes × Except Thrown (ArgMap Buf)) :
    Prop :=
  ∃ fuel result, run (read_round system) fuel state = some result ∧
    expected = (passed_arguments system fuel state, result)

/-- `read_parameters` processes an input line by line. -/
def ProcessesLines (system : System) (arg_map : ArgMap Buf) (content : Bytes) : Prop :=
  ∃ fuel result, read_parameters system fuel arg_map { content } = some result ∧
    pass_lines system arg_map (split_lines content) = (passed_arguments system fuel ({ content }, arg_map), result)

/-- The lines that are reached fit into the line buffer and end with a newline. -/
def LinesComplete (system : System) (arg_map : ArgMap Buf) (lines : List Bytes) : Prop :=
  (∀ line ∈ reached_lines system arg_map lines, line.length < MAX_PARAMETER_SIZE) ∧
    (reached_lines system arg_map lines = lines → lines.getLast? = some [])

end

theorem split_lines_newline {line : Bytes} (rest : Bytes) (hline : NEWLINE ∉ line) :
    split_lines (line ++ NEWLINE :: rest) = line :: split_lines rest := by
  induction line with
  | nil => exact if_pos rfl
  | cons byte tail ih =>
    obtain ⟨hbyte, htail⟩ := not_or.mp (fun h => hline (List.mem_cons.mpr h))
    rw [List.cons_append, split_lines, if_neg (Ne.symm hbyte), ih htail, List.modifyHead_cons]

theorem split_lines_rest {line : Bytes} (hline : NEWLINE ∉ line) : split_lines line = [line] := by
  induction line with
  | nil => rfl
  | cons byte tail ih =>
    obtain ⟨hbyte, htail⟩ := not_or.mp (fun h => hline (List.mem_cons.mpr h))
    rw [split_lines, if_neg (Ne.symm hbyte), ih htail, List.modifyHead_cons]

theorem split_lines_ne_nil (content : Bytes) : split_lines content ≠ [] := by
  by_cases hmem : NEWLINE ∈ content
  · obtain ⟨line, rest, rfl, hline⟩ := List.eq_append_cons_of_mem hmem
    rw [split_lines_newline rest hline]
    exact nofun
  · rw [split_lines_rest hmem]
    exact nofun

section

variable {Buf : Type} [TextBuffer Buf] [QTree Buf] {system : System} {arg_map : ArgMap Buf}

theorem passes_next {state next : Istream × ArgMap Buf} (hround : read_round system state = .inl next)
    (passed : List Bytes) (result : Except Thrown (ArgMap Buf)) :
    Passes system state (round_argument Buf state.1 ++ passed, result) ↔ Passes system next (passed, result) := by
  constructor
  · rintro ⟨fuel, value, hrun, hexpected⟩
    cases fuel with
    | zero => cases hrun
    | succ fuel =>
      rw [run_next hround] at hrun
      obtain ⟨hpassed, rfl⟩ := Prod.mk.inj hexpected
      simp only [passed_arguments, hround, List.append_cancel_left_eq] at hpassed
      exact ⟨fuel, _, hrun, by rw [hpassed]⟩
  · rintro ⟨fuel, value, hrun, hexpected⟩
    obtain ⟨rfl, rfl⟩ := Prod.mk.inj hexpected
    exact ⟨fuel + 1, _, (run_next hround).trans hrun, by simp only [passed_arguments, hround]⟩

theorem passes_last {state : Istream × ArgMap Buf} {expected : List Bytes × Except Thrown (ArgMap Buf)}
    {result : Except Thrown (ArgMap Buf)} (hround : read_round system state = .inr result) :
    Passes system state expected ↔ expected = (round_argument Buf state.1, result) := by
  constructor
  · rintro ⟨fuel, value, hrun, hexpected⟩
    cases fuel with
    | zero => cases hrun
    | succ fuel =>
      rw [run_result hround] at hrun
      obtain rfl := Option.some.inj hrun
      simpa only [passed_arguments, hround, List.append_nil] using hexpected
  · rintro rfl
    exact ⟨1, result, run_result hround, by simp only [passed_arguments, hround, List.append_nil]⟩

theorem lines_complete_empty {lines : List Bytes} (hlines : lines ≠ []) :
    LinesComplete system arg_map ([] :: lines) ↔ LinesComplete system arg_map lines := by
  obtain ⟨next, others, rfl⟩ := List.exists_cons_of_ne_nil hlines
  simp only [LinesComplete, reached_lines, if_true, List.forall_mem_cons, List.cons.injEq, true_and,
      List.getLast?_cons_cons]
  exact and_congr_left (fun _ => and_iff_right (by decide))

theorem lines_complete_ok {line : Bytes} {lines : List Bytes} {next : ArgMap Buf} (hlines : lines ≠ [])
    (hline : line ≠ [])
    (hread : read_argument system arg_map line line.length = .ok next) :
    LinesComplete system arg_map (line :: lines) ↔ line.length < MAX_PARAMETER_SIZE ∧
    LinesComplete system next lines := by
  obtain ⟨second, others, rfl⟩ := List.exists_cons_of_ne_nil hlines
  rw [LinesComplete, reached_lines, if_neg hline, hread]
  simp only [List.forall_mem_cons, List.cons.injEq, true_and, List.getLast?_cons_cons]
  rw [and_assoc]
  rfl

theorem lines_complete_error {line : Bytes} {lines : List Bytes} {exc : Thrown} (hlines : lines ≠ [])
    (hline : line ≠ [])
    (hread : read_argument system arg_map line line.length = .error exc) :
    LinesComplete system arg_map (line :: lines) ↔ line.length < MAX_PARAMETER_SIZE := by
  rw [LinesComplete, reached_lines, if_neg hline, hread]
  simp [Ne.symm hlines]

/-- A line that is reached first is too long. -/
theorem not_lines_complete {line : Bytes} {lines : List Bytes} (hlong : MAX_PARAMETER_SIZE ≤ line.length) :
    ¬ LinesComplete system arg_map (line :: lines) := by
  rintro ⟨hshort, _⟩
  have hline : line ∈ reached_lines system arg_map (line :: lines) := by
    rw [reached_lines]
    split
    · exact List.mem_cons_self ..
    · split
      · exact List.mem_cons_self ..
      · exact List.mem_cons_self ..
  exact absurd (hshort line hline) (Nat.not_lt.mpr hlong)

theorem lines_complete_last {line : Bytes} : LinesComplete system arg_map [line] ↔ line = [] := by
  have hreached : reached_lines system arg_map [line] = [line] := by
    rw [reached_lines]
    split
    · rfl
    · split
      · rfl
      · rfl
  rw [LinesComplete, hreached]
  simp only [List.mem_singleton, forall_eq, List.getLast?_singleton, Option.some.injEq, true_implies]
  refine and_iff_right_of_imp ?_
  rintro rfl
  decide

end

section

variable {line rest content : Bytes}

theorem getline_newline (hline : NEWLINE ∉ line) (hshort : line.length < MAX_PARAMETER_SIZE) :
    Istream.getline { content := line ++ NEWLINE :: rest } MAX_PARAMETER_SIZE =
      some ({ content := rest }, line, line.length + 1) := by
  have hfirst : (line ++ NEWLINE :: rest).takeWhile (· ≠ NEWLINE) = line := before_first_append rest hline
  unfold Istream.getline
  simp only
  rw [show (0x0A : UInt8) = NEWLINE from rfl, hfirst, if_pos (by omega), if_pos (by simp)]
  simp

theorem getline_rest (hcontent : NEWLINE ∉ content) (hshort : content.length < MAX_PARAMETER_SIZE) :
    Istream.getline { content } MAX_PARAMETER_SIZE =
      some ({ content := [], eofbit := true, failbit := content.isEmpty }, content, content.length) := by
  have hfirst : content.takeWhile (· ≠ NEWLINE) = content := before_first_of_not_mem hcontent
  unfold Istream.getline
  simp only
  rw [show (0x0A : UInt8) = NEWLINE from rfl, hfirst, if_pos (by omega), if_neg (by omega), if_neg (by decide)]

theorem getline_long (hlong : MAX_PARAMETER_SIZE ≤ (before_first NEWLINE content).length) :
    ∃ stream, Istream.getline { content } MAX_PARAMETER_SIZE =
      some (stream, content.take (MAX_PARAMETER_SIZE - 1), MAX_PARAMETER_SIZE - 1) := by
  have hsize : 0 < MAX_PARAMETER_SIZE := by decide
  have hexceeds : ¬ (content.takeWhile (· ≠ NEWLINE)).length ≤ MAX_PARAMETER_SIZE - 1 := by
    change ¬ (before_first NEWLINE content).length ≤ _
    omega
  unfold Istream.getline
  exact ⟨_, if_neg hexceeds⟩

end

section

variable {Buf : Type} [TextBuffer Buf] [LawfulTextBuffer Buf] {line rest content : Bytes}

theorem assign_line {line_length : Nat} (hnul : 0 ∉ line) (hfits : line.length ≤ line_length) :
    ∃ crt_arg : Buf, TextBuffer.assign_c_str (with_capacity line_length) (ClientConnector.c_str line) = .ok crt_arg ∧
      contents crt_arg = line := by
  have htext : ClientConnector.c_str line = line := before_first_of_not_mem hnul
  rw [htext]
  obtain ⟨crt_arg, hassign, hcontents, _⟩ := LawfulTextBuffer.assign_c_str_fits (with_capacity line_length : Buf) line
    (by rwa [LawfulCharBuffer.capacity_with_capacity])
  exact ⟨crt_arg, hassign, hcontents⟩

theorem assign_long {line_length : Nat} (hnul : 0 ∉ line) (hlong : line_length < line.length) :
    TextBuffer.assign_c_str (with_capacity line_length : Buf) (ClientConnector.c_str line) = .error {} := by
  have htext : ClientConnector.c_str line = line := before_first_of_not_mem hnul
  rw [htext]
  exact LawfulTextBuffer.assign_c_str_exceeds _ _ (by rwa [LawfulCharBuffer.capacity_with_capacity])

variable [QTree Buf] {system : System} {arg_map : ArgMap Buf}

/-- A line that the buffer cannot hold makes `read_parameters` raise `RangeException`. -/
theorem round_exceeds (arg_map : ArgMap Buf) {stream stream' : Istream} {read_count : Nat}
    (hmemory : ∀ allocation, system.allocates allocation = true)
    (hgood : stream.good = true) (hline : stream.getline MAX_PARAMETER_SIZE = some (stream', line, read_count))
    (hnul : 0 ∉ line) (hmore : read_count > 1) (hlong : read_count - 1 < line.length) :
    read_round system (stream, arg_map) = .inr (.error .RangeException) ∧ round_argument Buf stream = [] := by
  have hassign : TextBuffer.assign_c_str (with_capacity (read_count - 1) : Buf)
    (ClientConnector.c_str line) = .error {} :=
    assign_long hnul hlong
  constructor
  · simp only [read_round, hgood, hline, if_true, if_pos hmore, read_argument, hmemory, hassign]
  · simp only [round_argument, hgood, hline, if_true, if_pos hmore, hassign]

omit [LawfulTextBuffer Buf] in
/-- The round that reads an empty line. -/
theorem round_empty (system : System) (arg_map : ArgMap Buf) {stream next : Istream} {read_count : Nat}
    (hgood : stream.good = true)
    (hline : stream.getline MAX_PARAMETER_SIZE = some (next, line, read_count)) (hshort : read_count ≤ 1) :
    read_round system (stream, arg_map) = .inl (next, arg_map) ∧ round_argument Buf stream = [] := by
  constructor
  · simp only [read_round, hgood, hline, if_true, if_neg (Nat.not_lt.mpr hshort)]
  · simp only [round_argument, hgood, hline, if_true, if_neg (Nat.not_lt.mpr hshort)]

omit [LawfulTextBuffer Buf] in
/-- The round behind the last line. -/
theorem passes_end {stream : Istream} {expected : List Bytes × Except Thrown (ArgMap Buf)}
    (heof : stream.eofbit = true) :
    Passes system (stream, arg_map) expected ↔ expected = ([], .ok arg_map) := by
  have hgood : stream.good = false := by simp [Istream.good, heof]
  have hround : read_round system (stream, arg_map) = .inr (.ok arg_map) := by simp [read_round, hgood, heof]
  rw [passes_last hround]
  simp [round_argument, hgood]

omit [LawfulTextBuffer Buf] in
theorem pass_lines_last (system : System) (arg_map : ArgMap Buf) (hline : line ≠ [])
    (hshort : line.length < MAX_PARAMETER_SIZE) :
    (pass_lines system arg_map [line]).1 = [line] := by
  rw [pass_lines, if_neg (Nat.not_le.mpr hshort), if_neg hline]
  split
  · rfl
  · rfl

/-- A last line that does not end with a newline is not passed. -/
theorem passes_rest_iff (hmemory : ∀ allocation, system.allocates allocation = true) (hnul : 0 ∉ content)
    (hcontent : NEWLINE ∉ content) (hshort : content.length < MAX_PARAMETER_SIZE) :
    Passes system ({ content }, arg_map) (pass_lines system arg_map [content]) ↔ content = [] := by
  have hread := getline_rest hcontent hshort
  by_cases hempty : content = []
  · subst hempty
    obtain ⟨hround, hargument⟩ := round_empty system arg_map rfl hread (by decide)
    refine iff_of_true ?_ rfl
    have hnext := (passes_next hround [] (.ok arg_map)).mpr ((passes_end rfl).mpr rfl)
    rw [hargument] at hnext
    exact hnext
  · refine iff_of_false (fun hpasses => ?_) hempty
    have hpositive : 0 < content.length := List.length_pos_iff.mpr hempty
    have hpassed := pass_lines_last system arg_map hempty hshort
    generalize pass_lines system arg_map [content] = expected at hpasses hpassed
    obtain ⟨passed, result⟩ := expected
    simp only at hpassed
    by_cases hsingle : content.length ≤ 1
    · obtain ⟨hround, hargument⟩ := round_empty system arg_map rfl hread hsingle
      have hnext := passes_next hround passed result
      rw [hargument, List.nil_append] at hnext
      have hlast := (passes_end rfl).mp (hnext.mp hpasses)
      rw [hpassed] at hlast
      cases hlast
    · obtain ⟨hround, hargument⟩ := round_exceeds arg_map hmemory rfl hread hnul (by omega) (by omega)
      have hlast := (passes_last hround).mp hpasses
      rw [hargument, hpassed] at hlast
      cases hlast

/-- A line that is too long raises the wrong exception. -/
theorem not_passes_long (arg_map : ArgMap Buf) (lines : List Bytes)
    (hmemory : ∀ allocation, system.allocates allocation = true) (hnul : 0 ∉ content)
    (hlong : MAX_PARAMETER_SIZE ≤ (before_first NEWLINE content).length) :
    ¬ Passes system ({ content }, arg_map) (pass_lines system arg_map (before_first NEWLINE content :: lines)) := by
  obtain ⟨stream, hread⟩ := getline_long hlong
  have hlength : (content.take (MAX_PARAMETER_SIZE - 1)).length = MAX_PARAMETER_SIZE - 1 := by
    have hle : (before_first NEWLINE content).length ≤ content.length := (List.takeWhile_prefix _).length_le
    rw [List.length_take]
    omega
  have hsize : MAX_PARAMETER_SIZE = 512 := rfl
  obtain ⟨hround, hargument⟩ := round_exceeds arg_map hmemory rfl hread
    (fun hmem => hnul (List.mem_of_mem_take hmem)) (by omega) (by omega)
  rw [passes_last hround, pass_lines, if_pos hlong, hargument]
  nofun

/-- A line that ends with a newline is passed unless it is empty. -/
theorem passes_newline_iff (hnul : 0 ∉ line)
    (hline : NEWLINE ∉ line) (hshort : line.length < MAX_PARAMETER_SIZE) (lines : List Bytes) :
    Passes system ({ content := line ++ NEWLINE :: rest }, arg_map) (pass_lines system arg_map (line :: lines)) ↔
      if line = [] then Passes system ({ content := rest }, arg_map) (pass_lines system arg_map lines)
      else
        match read_argument system arg_map line line.length with
        | .ok next => Passes system ({ content := rest }, next) (pass_lines system next lines)
        | .error _ => True := by
  have hread : Istream.getline { content := line ++ NEWLINE :: rest } MAX_PARAMETER_SIZE =
      some ({ content := rest }, line, line.length + 1) := getline_newline hline hshort
  rw [pass_lines, if_neg (Nat.not_le.mpr hshort)]
  by_cases hempty : line = []
  · rw [if_pos hempty, if_pos hempty]
    obtain ⟨hround, hargument⟩ := round_empty system arg_map rfl hread (by simp [hempty])
    have hnext := passes_next hround (pass_lines system arg_map lines).1 (pass_lines system arg_map lines).2
    rwa [hargument, List.nil_append] at hnext
  · rw [if_neg hempty, if_neg hempty]
    have hpositive : 0 < line.length := List.length_pos_iff.mpr hempty
    obtain ⟨crt_arg, hassign, hcontents⟩ : ∃ crt_arg : Buf,
        TextBuffer.assign_c_str (with_capacity line.length) (ClientConnector.c_str line) = .ok crt_arg ∧
          contents crt_arg = line := assign_line hnul le_rfl
    have hargument : round_argument Buf { content := line ++ NEWLINE :: rest } = [line] := by
      simp [round_argument, Istream.good, hread, hpositive, hassign, hcontents]
    cases hprocess : read_argument system arg_map line line.length with
    | ok next =>
      have hround : read_round system ({ content := line ++ NEWLINE :: rest }, arg_map) =
        .inl ({ content := rest }, next) := by
        simp [read_round, Istream.good, hread, hpositive, hprocess]
      have hnext := passes_next hround (pass_lines system next lines).1 (pass_lines system next lines).2
      rwa [hargument] at hnext
    | error exc =>
      have hround : read_round system ({ content := line ++ NEWLINE :: rest }, arg_map) = .inr (.error exc) := by
        simp [read_round, Istream.good, hread, hpositive, hprocess]
      refine iff_of_true ((passes_last hround).mpr ?_) trivial
      rw [hargument]

theorem passes_lines_iff (hmemory : ∀ allocation, system.allocates allocation = true) (hnul : 0 ∉ content) :
    Passes system ({ content }, arg_map) (pass_lines system arg_map (split_lines content)) ↔
      LinesComplete system arg_map (split_lines content) := by
  induction hlength : content.length using Nat.strong_induction_on generalizing content arg_map with
  | _ length ih =>
    by_cases hmem : NEWLINE ∈ content
    · obtain ⟨line, rest, rfl, hline⟩ := List.eq_append_cons_of_mem hmem
      obtain ⟨hline_nul, hrest_nul⟩ := not_or.mp (fun h => hnul (List.mem_append.mpr h))
      have hrest : ∀ next : ArgMap Buf, Passes system ({ content := rest }, next)
        (pass_lines system next (split_lines rest)) ↔
          LinesComplete system next (split_lines rest) := by
        intro next
        refine ih rest.length ?_ (fun h => hrest_nul (List.mem_cons_of_mem _ h)) rfl
        rw [← hlength, List.length_append, List.length_cons]
        omega
      rw [split_lines_newline rest hline]
      by_cases hlong : MAX_PARAMETER_SIZE ≤ line.length
      · refine iff_of_false ?_ (not_lines_complete hlong)
        have hfirst : before_first NEWLINE (line ++ NEWLINE :: rest) = line := before_first_append rest hline
        have hnot := not_passes_long arg_map (split_lines rest) hmemory hnul (by rwa [hfirst])
        rwa [hfirst] at hnot
      · have hshort := Nat.not_le.mp hlong
        rw [passes_newline_iff hline_nul hline hshort]
        by_cases hempty : line = []
        · rw [if_pos hempty, hempty, lines_complete_empty (split_lines_ne_nil rest)]
          exact hrest arg_map
        · rw [if_neg hempty]
          cases hread : read_argument system arg_map line line.length with
          | ok next =>
            rw [lines_complete_ok (split_lines_ne_nil rest) hempty hread, and_iff_right hshort]
            exact hrest next
          | error exc =>
            rw [lines_complete_error (split_lines_ne_nil rest) hempty hread]
            exact iff_of_true trivial hshort
    · rw [split_lines_rest hmem]
      have hfirst : before_first NEWLINE content = content := before_first_of_not_mem hmem
      by_cases hlong : MAX_PARAMETER_SIZE ≤ content.length
      · have hnot := not_passes_long arg_map [] hmemory hnul (by rwa [hfirst])
        rw [hfirst] at hnot
        exact iff_of_false hnot (not_lines_complete hlong)
      · rw [passes_rest_iff hmemory hnul hmem (Nat.not_le.mp hlong), lines_complete_last]

/-- `read_parameters` processes its input line by line exactly when the lines that it reaches fit into the
line buffer and end with a newline. -/
theorem input_lines (hmemory : ∀ allocation, system.allocates allocation = true) (hnul : 0 ∉ content) :
    ProcessesLines system arg_map content ↔ LinesComplete system arg_map (split_lines content) := by
  rw [← passes_lines_iff hmemory hnul]
  simp only [ProcessesLines, Passes, read_parameters, hmemory, if_true]

end

/-- The entries with which the parameters of an action are read. -/
def action_map : ArgMap BoundedBuffer :=
  [(from_c_str KEY_ACTION, { required := true, value := with_capacity ACTION_PARAM_SIZE })]

/-- A parameter between two empty lines. -/
def action_lines : Bytes :=
  [NEWLINE] ++ KEY_ACTION ++ [Arguments.SPLIT_CHAR] ++ ACTION_OFF ++ [NEWLINE, NEWLINE]

theorem input_lines_action :
    split_lines action_lines = [[], KEY_ACTION ++ [Arguments.SPLIT_CHAR] ++ ACTION_OFF, [], []] ∧
      ProcessesLines (ClientConnector.replying []) action_map action_lines :=
  ⟨by decide, (input_lines (fun _ => rfl) (by decide)).mpr ⟨by decide, fun _ => by decide⟩⟩

/-- An input whose only line does not end with a newline. -/
theorem input_lines_not_processed :
    ¬ ProcessesLines (ClientConnector.replying []) action_map (KEY_ACTION ++ [Arguments.SPLIT_CHAR] ++ ACTION_OFF) := by
  have hrest : Passes (ClientConnector.replying [])
    ({ content := KEY_ACTION ++ [Arguments.SPLIT_CHAR] ++ ACTION_OFF }, action_map)
      (pass_lines (ClientConnector.replying []) action_map [KEY_ACTION ++ [Arguments.SPLIT_CHAR] ++ ACTION_OFF]) ↔
        KEY_ACTION ++ [Arguments.SPLIT_CHAR] ++ ACTION_OFF = [] :=
    passes_rest_iff (fun _ => rfl) (by decide) (by decide) (by decide)
  rintro ⟨fuel, result, hread, hexpected⟩
  exact absurd (hrest.mp ⟨fuel, result, hread, hexpected⟩) (by decide)

end ClientParameters

end client

end ufh
