import UniversalFencingHub.Client.Memory
import UniversalFencingHub.Server.Parameters

open raising ufh.CharBuffer

namespace ufh

namespace Server

open client client.Arguments

namespace ServerParameters

/-- An argument of the command line, without the two characters of an option. -/
def option_text (argument : Bytes) : Bytes := if text ("--") <+: argument then argument.drop 2 else argument

/-- The keys of all parameters, in the order in which they are marked as required. -/
def required_keys : List Bytes := [KEY_PROTOCOL, KEY_BIND_ADDRESS, KEY_TCP_PORT, KEY_FENCE_MODULE]

/-- The arguments of a command line that the server takes. -/
structure Admitted (arguments : List Bytes) : Prop where
  length : ∀ argument ∈ arguments, argument.length ≤ MAX_PARAMETER_SIZE
  accepted : Accepted entries required_keys (arguments.map option_text)

/-- The exceptions with which arguments are refused. -/
def Refusal (exc : Thrown) : Prop := exc = .RangeException ∨ ∃ message, exc = .ArgumentsException message

section

variable {Buf : Type} [OptionBuffer Buf] [QTree Buf] {system : System} {arg_map : ArgMap Buf} {crt_arg : Buf}

theorem degrades_read_arguments (arguments : List Bytes) :
    Degrades (read_arguments system crt_arg arg_map arguments)
      (read_arguments system.ample crt_arg arg_map arguments) := by
  induction arguments generalizing crt_arg arg_map with
  | nil => exact .same _
  | cons argument rest ih =>
    rw [read_arguments, read_arguments]
    split
    · next taken _ =>
      have hprocess : Degrades (process_argument system arg_map taken) (process_argument system.ample arg_map taken) :=
        degrades_process_argument taken
      obtain hsame | hexhausted := hprocess
      · rw [hsame]
        split
        · exact ih
        · exact .same _
      · rw [hexhausted]
        exact .exhausted
    · exact .same _

theorem degrades_read_parameters (argv : List Bytes) :
    Degrades (read_parameters system arg_map argv) (read_parameters system.ample arg_map argv) := by
  refine Degrades.allocated ?_ _
  have hloop : Degrades (read_arguments system (with_capacity MAX_PARAMETER_SIZE) arg_map (argv.drop 1))
    (read_arguments system.ample (with_capacity MAX_PARAMETER_SIZE) arg_map (argv.drop 1)) := degrades_read_arguments _
  obtain hsame | hexhausted := hloop
  · rw [hsame]
    split
    · exact degrades_throw_arguments _
    · exact .same _
  · rw [hexhausted]
    exact .exhausted

theorem degrades_initialize_entries : Degrades (initialize_entries system : Except Thrown (ArgMap Buf))
    (initialize_entries system.ample) :=
  (degrades_add_entries _).bind fun _ => (degrades_mark_required _).bind fun _ => (degrades_mark_required _).bind
    fun _ => (degrades_mark_required _).bind fun _ => degrades_mark_required _

/-- Less memory changes nothing but that the server may run out of it. -/
theorem degrades_read_configuration (Buf : Type) [OptionBuffer Buf] [QTree Buf] (system : System) (argv : List Bytes) :
    Degrades (read_configuration system argv : Except Thrown (Configuration Buf))
      (read_configuration system.ample argv) :=
  (degrades_allocate _).bind fun _ => degrades_initialize_entries.bind fun _ => (degrades_read_parameters argv).bind
    fun _ => degrades_check_required.bind fun _ => (degrades_get_value _).bind fun _ => (degrades_get_value _).bind
      fun _ => (degrades_get_value _).bind fun _ => (degrades_get_value _).bind fun _ => .same _

end

section

variable {Buf : Type} [OptionBuffer Buf] [LawfulOptionBuffer Buf] {crt_arg : Buf} {argument : Bytes}

theorem take_argument_fits (hfits : argument.length ≤ capacity crt_arg) :
    ∃ taken, take_argument crt_arg argument = .ok taken ∧ contents taken = option_text argument ∧
      capacity taken = capacity crt_arg := by
  obtain ⟨assigned, hassign, hcontents, hcapacity⟩ := LawfulTextBuffer.assign_c_str_fits crt_arg argument hfits
  have hdashes : contents (OPT_PREFIX : Buf) = text ("--") := LawfulCharBuffer.contents_from_c_str _
  unfold take_argument option_text
  simp only [hassign, LawfulOptionBuffer.starts_with_iff, hdashes, hcontents]
  split
  · next hoption =>
    have hlength : (text ("--")).length ≤ (contents assigned).length := by
      rw [hcontents]
      exact hoption.length_le
    obtain ⟨taken, htaken, hrest, hsame⟩ := LawfulCharBuffer.substring_fits assigned (text ("--")).length
      (contents assigned).length hlength le_rfl
    rw [List.take_length, hcontents] at hrest
    rw [hcontents] at htaken
    exact ⟨taken, htaken, hrest, hsame.trans hcapacity⟩
  · exact ⟨assigned, rfl, hcontents, hcapacity⟩

theorem take_argument_exceeds (hlong : capacity crt_arg < argument.length) :
    take_argument crt_arg argument = .error {} := by
  rw [take_argument, LawfulTextBuffer.assign_c_str_exceeds _ _ hlong]

variable [QTree Buf] [LawfulQTree Buf] {system : System} {arg_map : ArgMap Buf}

omit [LawfulOptionBuffer Buf] [LawfulQTree Buf] in
/-- With enough memory, an argument is refused with a message. -/
theorem refusal_process_argument (hmemory : ∀ allocation, system.allocates allocation = true) {argument : Buf} :
    OnlyRaises Refusal (process_argument system arg_map argument) := by
  have hthrow : ∀ error_msg, OnlyRaises Refusal (throw_arguments system error_msg : Except Thrown (ArgMap Buf)) := by
    intro error_msg
    rw [throw_arguments, if_pos (hmemory _)]
    exact .error (Or.inr ⟨error_msg, rfl⟩)
  unfold process_argument
  split
  · rw [if_pos (hmemory _)]
    split
    · simp only
      split
      · split
        · exact hthrow _
        · split
          · exact .ok
          · exact hthrow _
      · exact hthrow _
    · exact .error (Or.inl rfl)
  · exact hthrow _

/-- The loop processes the arguments exactly when they fit, and refuses them otherwise. -/
theorem read_arguments_spec (hmemory : ∀ allocation, system.allocates allocation = true) {required given : List Bytes}
    (h : Stores arg_map entries required given) (hgiven : (given.map argument_key).Nodup)
    (hcapacity : capacity crt_arg = MAX_PARAMETER_SIZE) (arguments : List Bytes) :
    (∃ final, read_arguments system crt_arg arg_map arguments = .ok final ∧
      (∀ argument ∈ arguments, argument.length ≤ MAX_PARAMETER_SIZE) ∧
      Fitting entries given (arguments.map option_text) ∧
      Stores final entries required (given ++ arguments.map option_text)) ∨
    ∃ exc, read_arguments system crt_arg arg_map arguments = .error exc ∧ Refusal exc ∧
      ¬ ((∀ argument ∈ arguments, argument.length ≤ MAX_PARAMETER_SIZE) ∧
        Fitting entries given (arguments.map option_text)) := by
  induction arguments generalizing crt_arg arg_map given with
  | nil =>
    refine Or.inl ⟨arg_map, rfl, nofun, ⟨nofun, nofun, ?_⟩, ?_⟩
    · rwa [List.map_nil, List.append_nil]
    · rwa [List.map_nil, List.append_nil]
  | cons argument rest ih =>
    have hsplit : given ++ (argument :: rest).map option_text =
        given ++ [option_text argument] ++ rest.map option_text := by simp
    have hcons : Fitting entries given ((argument :: rest).map option_text) ↔
      Fitting entries given [option_text argument] ∧
        Fitting entries (given ++ [option_text argument]) (rest.map option_text) := fitting_cons
    simp only [read_arguments, hsplit, hcons, List.forall_mem_cons]
    by_cases hfits : argument.length ≤ MAX_PARAMETER_SIZE
    · obtain ⟨taken, htaken, hcontents, hsame⟩ := take_argument_fits (show argument.length ≤ capacity crt_arg by omega)
      simp only [htaken]
      cases hprocess : process_argument system arg_map taken with
      | ok next =>
        obtain ⟨hfirst, hstores⟩ := h.process (by decide) hgiven hprocess
        rw [hcontents] at hfirst hstores
        obtain ⟨final, hfinal, hlengths, hfitting, hall⟩ | ⟨exc, hexc, hrefusal, hunfit⟩ :=
          ih hstores hfirst.once (hsame.trans hcapacity)
        · exact Or.inl ⟨final, hfinal, ⟨hfits, hlengths⟩, ⟨hfirst, hfitting⟩, hall⟩
        · exact Or.inr ⟨exc, hexc, hrefusal, fun hall => hunfit ⟨hall.1.2, hall.2.2⟩⟩
      | error exc =>
        refine Or.inr ⟨exc, rfl, refusal_process_argument hmemory exc hprocess, fun hall => ?_⟩
        have hfirst := hall.2.1
        rw [← hcontents] at hfirst
        obtain ⟨next, hnext, _⟩ := h.process_ok hmemory (by decide) hgiven hfirst
        rw [hnext] at hprocess
        cases hprocess
    · rw [take_argument_exceeds (show capacity crt_arg < argument.length by omega)]
      exact Or.inr ⟨.RangeException, rfl, Or.inl rfl, fun hall => hfits hall.1.1⟩

omit [LawfulOptionBuffer Buf] [LawfulQTree Buf] in
theorem read_parameters_ok (hmemory : ∀ allocation, system.allocates allocation = true) {argv : List Bytes}
    {final : ArgMap Buf}
    (hread : read_arguments system (with_capacity MAX_PARAMETER_SIZE) arg_map (argv.drop 1) = .ok final) :
    read_parameters system arg_map argv = .ok final := by
  rw [read_parameters, if_pos (hmemory _), hread]

omit [LawfulOptionBuffer Buf] [LawfulQTree Buf] in
/-- Arguments that are too long are refused with a message, too. -/
theorem read_parameters_refused (hmemory : ∀ allocation, system.allocates allocation = true) {argv : List Bytes}
    {exc : Thrown}
    (hread : read_arguments system (with_capacity MAX_PARAMETER_SIZE) arg_map (argv.drop 1) = .error exc)
    (hrefusal : Refusal exc) :
    ∃ message, read_parameters system arg_map argv = .error (.ArgumentsException message) := by
  rw [read_parameters, if_pos (hmemory _), hread]
  obtain rfl | ⟨message, rfl⟩ := hrefusal
  · exact ⟨_, if_pos (hmemory _)⟩
  · exact ⟨message, rfl⟩

omit [LawfulOptionBuffer Buf] [LawfulQTree Buf] in
theorem initialize_entries_eq : (initialize_entries system : Except Thrown (ArgMap Buf)) =
    register system entries required_keys := by
  unfold initialize_entries register
  cases ClientParameters.add_entries system (QTree.new : ArgMap Buf) entries with
  | error exc => rfl
  | ok added =>
    simp only [required_keys, mark_all, bind, Except.bind]
    cases mark_required system added KEY_PROTOCOL with
    | error exc => rfl
    | ok arg_map =>
      simp only
      cases mark_required system arg_map KEY_BIND_ADDRESS with
      | error exc => rfl
      | ok arg_map =>
        simp only
        cases mark_required system arg_map KEY_TCP_PORT with
        | error exc => rfl
        | ok arg_map =>
          simp only
          cases mark_required system arg_map KEY_FENCE_MODULE with
          | error exc => rfl
          | ok arg_map => rfl

end

end ServerParameters

open ServerParameters

/-- The values are those that arguments give. -/
structure Configuration.Given {Buf : Type} [CharBuffer Buf] (configuration : Configuration Buf)
    (arguments : List Bytes) : Prop where
  protocol : contents configuration.protocol = given_value arguments KEY_PROTOCOL
  bind_address : contents configuration.bind_address = given_value arguments KEY_BIND_ADDRESS
  port : contents configuration.port = given_value arguments KEY_TCP_PORT
  fence_module : contents configuration.fence_module = given_value arguments KEY_FENCE_MODULE

theorem read_configuration_of_memory (Buf : Type) [OptionBuffer Buf] [LawfulOptionBuffer Buf] [QTree Buf]
    [LawfulQTree Buf] {system : System}
    (hmemory : ∀ allocation, system.allocates allocation = true) (argv : List Bytes) :
    (Admitted (argv.drop 1) ∧ ∃ configuration : Configuration Buf,
      read_configuration system argv = .ok configuration ∧ configuration.Given ((argv.drop 1).map option_text)) ∨
    (¬ Admitted (argv.drop 1) ∧ ∃ message,
      (read_configuration system argv : Except Thrown (Configuration Buf)) = .error (.ArgumentsException message)) := by
  have hallocate : ∀ allocation, allocate system allocation = .ok () := fun allocation => if_pos (hmemory allocation)
  obtain ⟨arg_map, hregister, hstores⟩ : ∃ arg_map : ArgMap Buf,
      register system entries required_keys = .ok arg_map ∧ Stores arg_map entries required_keys [] :=
    register_ok hmemory (by decide) (by decide)
  rw [← initialize_entries_eq] at hregister
  have hcapacity : capacity (with_capacity MAX_PARAMETER_SIZE : Buf) = MAX_PARAMETER_SIZE :=
    LawfulCharBuffer.capacity_with_capacity _
  obtain ⟨final, hfinal, hlengths, hfitting, hall⟩ | ⟨exc, hexc, hrefusal, hunfit⟩ :=
    read_arguments_spec hmemory hstores List.nodup_nil hcapacity (argv.drop 1)
  · rw [List.nil_append] at hall
    have hread := read_parameters_ok hmemory hfinal
    have hchecked : check_required system final = .ok () ↔ _ := hall.check_required (by decide)
    by_cases hrequired : ∀ key ∈ required_keys, key ∈ ((argv.drop 1).map option_text).map argument_key
    · obtain ⟨protocol, hprotocol, hgiven⟩ := hall.get_value hmemory (by decide : KEY_PROTOCOL ∈ entries.map Prod.fst)
      obtain ⟨bind_address, haddress, hgiven'⟩ := hall.get_value hmemory
        (by decide : KEY_BIND_ADDRESS ∈ entries.map Prod.fst)
      obtain ⟨port, hport, hgiven''⟩ := hall.get_value hmemory (by decide : KEY_TCP_PORT ∈ entries.map Prod.fst)
      obtain ⟨fence_module, hmodule, hgiven'''⟩ := hall.get_value hmemory
        (by decide : KEY_FENCE_MODULE ∈ entries.map Prod.fst)
      refine Or.inl ⟨⟨hlengths, hfitting, hrequired⟩, { protocol, bind_address, port, fence_module }, ?_,
        ⟨hgiven, hgiven', hgiven'', hgiven'''⟩⟩
      simp only [read_configuration, hallocate, hregister, hread, hchecked.mpr hrequired, hprotocol, haddress, hport,
        hmodule, bind, Except.bind]
      rfl
    · refine Or.inr ⟨fun hadmitted => hrequired hadmitted.accepted.required, ?_⟩
      obtain ⟨message, hmissing⟩ : ∃ message, check_required system final = .error (.ArgumentsException message) := by
        rw [← hchecked, check_required] at hrequired
        rw [check_required]
        split
        · next hnone => exact absurd (if_pos hnone) hrequired
        · exact ⟨_, by rw [throw_arguments, if_pos (hmemory _)]⟩
      exact ⟨message, by simp only [read_configuration, hallocate, hregister, hread, hmissing, bind, Except.bind]⟩
  · obtain ⟨message, hread⟩ := read_parameters_refused hmemory hexc hrefusal
    refine Or.inr ⟨fun hadmitted => hunfit ⟨hadmitted.length, hadmitted.accepted.fitting⟩, message, ?_⟩
    simp only [read_configuration, hallocate, hregister, hread, bind, Except.bind]

/-- The server takes exactly the command lines that give each parameter once, in a length for which there is room,
and starts with the values that are given. It refuses all others with a message, and only a lack of memory can keep it
from either. -/
theorem command_line (Buf : Type) [OptionBuffer Buf] [LawfulOptionBuffer Buf] [QTree Buf] [LawfulQTree Buf]
    (system : System) (argv : List Bytes) :
    (Admitted (argv.drop 1) ∧ ∃ configuration : Configuration Buf,
      read_configuration system argv = .ok configuration ∧ configuration.Given ((argv.drop 1).map option_text)) ∨
    (¬ Admitted (argv.drop 1) ∧ ∃ message,
      (read_configuration system argv : Except Thrown (Configuration Buf)) = .error (.ArgumentsException message)) ∨
    ((∃ allocation, system.allocates allocation = false) ∧
      (read_configuration system argv : Except Thrown (Configuration Buf)) = .error .bad_alloc) := by
  by_cases hmemory : ∀ allocation, system.allocates allocation = true
  · obtain hadmitted | hrefused := read_configuration_of_memory Buf hmemory argv
    · exact Or.inl hadmitted
    · exact Or.inr (Or.inl hrefused)
  · push Not at hmemory
    obtain ⟨allocation, hallocation⟩ := hmemory
    obtain hsame | hexhausted := degrades_read_configuration Buf system argv
    · rw [hsame]
      obtain hadmitted | hrefused := read_configuration_of_memory Buf system.ample_allocates argv
      · exact Or.inl hadmitted
      · exact Or.inr (Or.inl hrefused)
    · exact Or.inr (Or.inr ⟨⟨allocation, by simpa using hallocation⟩, hexhausted⟩)

/-- A command line with all parameters, one of them without the characters of an option. -/
def example_argv : List Bytes :=
  [text ("ufh-server"), text ("--protocol=IPV4"), text ("--bind_address=0.0.0.0"), text ("tcp_port=2111"),
    text ("--fence_module=/lib/a=b.so")]

theorem command_line_options : ∃ configuration : Configuration BoundedBuffer,
    read_configuration (ClientConnector.replying []) example_argv = .ok configuration ∧
      contents configuration.fence_module = text ("/lib/a=b.so") := by
  have hadmitted : Admitted (example_argv.drop 1) := by
    have hregistered : ∀ argument ∈ (example_argv.drop 1).map option_text, ∃ entry ∈ entries,
        entry.1 = argument_key argument ∧ (argument_value argument).length ≤ entry.2 := by
      decide
    refine ⟨by decide, ⟨by decide, fun argument hargument => ?_, by decide⟩, by decide⟩
    obtain ⟨⟨key, value_capacity⟩, hentry, rfl, hlength⟩ := hregistered argument hargument
    exact ⟨value_capacity, hentry, hlength⟩
  obtain ⟨_, configuration, hread, hgiven⟩ | ⟨hrefused, _⟩ | ⟨⟨_, hmemory⟩, _⟩ :=
    command_line BoundedBuffer (ClientConnector.replying []) example_argv
  · exact ⟨configuration, hread, hgiven.fence_module.trans (by decide)⟩
  · exact absurd hadmitted hrefused
  · cases hmemory

end Server

end ufh
