import UniversalFencingHub.Client.Request
import UniversalFencingHub.Properties.PeerGone

open looping raising ufh.CharBuffer

namespace ufh

namespace client

/-- A function ends with an exception for which `main` has no handler. -/
def Escapes {T : Type} (attempt : Attempt T) : Prop := ∃ exc, attempt = some (.error exc) ∧ exc.escapes = true

section

variable {T U : Type} {first : Attempt T} {rest : T → Attempt U}

theorem escapes_bind : Escapes (first >>= rest) ↔
    Escapes first ∨ ∃ value, first = some (.ok value) ∧ Escapes (rest value) := by
  constructor
  · rintro ⟨exc, hraised, hescapes⟩
    obtain hfirst | ⟨value, hfirst, hrest⟩ := attempt_eq_error.mp hraised
    · exact Or.inl ⟨exc, hfirst, hescapes⟩
    · exact Or.inr ⟨value, hfirst, exc, hrest, hescapes⟩
  · rintro (⟨exc, hfirst, hescapes⟩ | ⟨value, hfirst, exc, hrest, hescapes⟩)
    · exact ⟨exc, attempt_eq_error.mpr (Or.inl hfirst), hescapes⟩
    · exact ⟨exc, attempt_eq_error.mpr (Or.inr ⟨value, hfirst, hrest⟩), hescapes⟩

theorem not_escapes_of {result : Except Thrown T} (h : Contained result) : ¬ Escapes (Attempt.of result) := by
  rintro ⟨exc, hraised, hescapes⟩
  rw [h exc (Option.some.inj hraised)] at hescapes
  cases hescapes

/-- An exception can only escape from what follows a function whose exceptions have handlers. -/
theorem escapes_after {result : Except Thrown T} (h : Contained result) :
    Escapes (Attempt.of result >>= rest) ↔ ∃ value, result = .ok value ∧ Escapes (rest value) := by
  rw [escapes_bind, or_iff_right (not_escapes_of h)]
  exact exists_congr (fun value => and_congr_left (fun _ => Option.some_inj))

theorem escapes_next {first : Running T} {rest : ClientConnector → T → Running U} :
    Escapes (first.next rest).attempt ↔ Escapes first.attempt ∨
      ∃ connector value, first = some (connector, .ok value) ∧ Escapes (rest connector value).attempt := by
  match first with
  | none =>
    constructor
    · rintro ⟨_, hraised, _⟩
      cases hraised
    · rintro (⟨_, hraised, _⟩ | ⟨_, _, hfirst, _⟩)
      · cases hraised
      · cases hfirst
  | some (connector, .error exc) =>
    constructor
    · rintro ⟨_, hraised, hescapes⟩
      cases hraised
      exact Or.inl ⟨exc, rfl, hescapes⟩
    · rintro (⟨_, hraised, hescapes⟩ | ⟨_, _, hfirst, _⟩)
      · cases hraised
        exact ⟨exc, rfl, hescapes⟩
      · cases hfirst
  | some (connector, .ok value) =>
    constructor
    · exact fun hrest => Or.inr ⟨connector, value, rfl, hrest⟩
    · rintro (⟨_, hraised, _⟩ | ⟨_, _, hfirst, hrest⟩)
      · cases hraised
      · cases hfirst
        exact hrest

theorem ends_after {value : T} (hends : (first >>= rest) ≠ none) (hfirst : first = some (.ok value)) :
    rest value ≠ none := by
  subst hfirst
  exact hends

end

namespace ClientConnector

variable {system : System} {fuel more : Nat} {connector after other : ClientConnector}
  {result another : Except Thrown Unit}

theorem send_message_mono (hrun : connector.send_message system fuel = some (after, result)) (hle : fuel ≤ more) :
    connector.send_message system more = some (after, result) := by
  unfold send_message at hrun ⊢
  simp only at hrun ⊢
  split at hrun
  · next io_offset object hloop =>
    rw [run_mono hloop hle]
    exact hrun
  · cases hrun

theorem send_message_unique (hrun : connector.send_message system fuel = some (after, result))
    (hother : connector.send_message system more = some (other, another)) : after = other ∧ result = another := by
  have hsame := send_message_mono hrun (Nat.le_max_left fuel more)
  rw [send_message_mono hother (Nat.le_max_right fuel more)] at hsame
  obtain ⟨hafter, hresult⟩ := Prod.mk.inj (Option.some.inj hsame)
  exact ⟨hafter.symm, hresult.symm⟩

theorem not_escapes_send_message : ¬ Escapes (connector.send_message system fuel).attempt := by
  rintro ⟨exc, hraised, hescapes⟩
  obtain ⟨⟨after, result⟩, hrun, hresult⟩ := Option.map_eq_some_iff.mp hraised
  obtain ⟨_, _, _, _, hspec⟩ := send_message_spec hrun
  rw [show result = .error exc from hresult] at hspec
  split at hspec
  · cases hspec
    cases hescapes
  · cases hspec

theorem not_escapes_receive_message : ¬ Escapes (connector.receive_message system fuel).attempt := by
  rintro ⟨exc, hraised, hescapes⟩
  obtain ⟨⟨after, result⟩, hrun, hresult⟩ := Option.map_eq_some_iff.mp hraised
  obtain ⟨_, _, _, _, _, _, hspec⟩ := receive_message_spec hrun
  rw [show result = .error exc from hresult] at hspec
  split at hspec
  · cases hspec
    cases hescapes
  · cases hspec

/-- `check_connection` takes every reply. -/
theorem not_escapes_check_connection : ¬ Escapes (connector.check_connection system fuel).attempt := by
  unfold check_connection
  rw [escapes_next, or_iff_right not_escapes_send_message]
  rintro ⟨sent, _, _, hescapes⟩
  rw [escapes_next, or_iff_right not_escapes_receive_message] at hescapes
  obtain ⟨received, _, _, exc, hraised, _⟩ := hescapes
  cases hraised

section

variable {Buf : Type} [CharBuffer Buf] {msg_type : protocol.MsgType} {nodename secret : Buf}

/-- The object has sent a request for fencing, for which it waits for a reply. -/
def Requests (system : System) (connector : ClientConnector) (msg_type : protocol.MsgType) (nodename secret : Buf)
    (sent : ClientConnector) : Prop :=
  system.allocates .request = true ∧ ∃ written fuel,
    { connector with header := connector.header.set_msg_type msg_type }.write_request nodename secret = .ok written ∧
      written.send_message system fuel = some (sent, .ok ())

/-- A complete reply of a type that `fence_action_impl` does not know. -/
def Unknown (header : MsgHeader) : Prop :=
  header.data_length.toNat ≤ IO_BUFFER_SIZE ∧ header.is_msg_type .FENCE_SUCCESS = false ∧
    header.is_msg_type .FENCE_FAIL = false

/-- An exception escapes from a fencing request exactly when its reply is of an unknown type. -/
theorem escapes_fence_action_impl_iff (hsize : connector.io_buffer.length = IO_BUFFER_SIZE)
    (hfits : protocol.FieldsFit (request_fields nodename secret) (IO_BUFFER_SIZE - MsgHeader.HEADER_SIZE))
    (hends : connector.fence_action_impl system fuel msg_type nodename secret ≠ none) :
    Escapes (connector.fence_action_impl system fuel msg_type nodename secret).attempt ↔
      ∃ sent header, Requests system connector msg_type nodename secret sent ∧ system.Replies sent.calls header ∧
        Unknown header := by
  have htyped : { connector with header := connector.header.set_msg_type msg_type }.io_buffer.length = IO_BUFFER_SIZE :=
    hsize
  obtain ⟨request, hwritten⟩ : ∃ request, { connector with
      header := connector.header.set_msg_type msg_type }.write_request nodename secret = .ok request :=
    ⟨_, write_request_ok htyped hfits⟩
  unfold fence_action_impl at hends ⊢
  simp only [hwritten] at hends ⊢
  by_cases hallocates : system.allocates .request = false
  · rw [if_pos hallocates]
    refine iff_of_false ?_ ?_
    · rintro ⟨exc, hraised, hescapes⟩
      cases hraised
      cases hescapes
    · rintro ⟨sent, header, ⟨hallocated, _⟩, _⟩
      rw [hallocates] at hallocated
      cases hallocated
  · rw [if_neg hallocates] at hends ⊢
    rw [escapes_next, or_iff_right not_escapes_send_message]
    constructor
    · rintro ⟨sent, _, hsend, hescapes⟩
      rw [escapes_next, or_iff_right not_escapes_receive_message] at hescapes
      obtain ⟨replied, _, hreceive, exc, hraised, hescapes⟩ := hescapes
      obtain ⟨_, _, _, _, _, _, hspec⟩ := receive_message_spec hreceive
      refine ⟨sent, replied.header, ⟨by simpa using hallocates, request, fuel, hwritten, hsend⟩,
        receive_message_replies hreceive, ?_⟩
      split at hraised
      · cases hraised
      · next hsuccess =>
        split at hraised
        · cases hraised
        · next hfail =>
          refine ⟨?_, by simpa using hsuccess, by simpa using hfail⟩
          by_contra hlong
          rw [if_pos (Nat.not_le.mp hlong)] at hspec
          cases hspec
    · rintro ⟨sent, header, ⟨_, written, more, hrequest, hmore⟩, hreplies, hshort, hsuccess, hfail⟩
      rw [hwritten] at hrequest
      cases hrequest
      cases hsend : request.send_message system fuel with
      | none =>
        rw [hsend] at hends
        exact absurd rfl hends
      | some ended =>
        obtain ⟨first, result⟩ := ended
        obtain ⟨rfl, rfl⟩ := send_message_unique hsend hmore
        rw [hsend] at hends
        refine ⟨first, (), rfl, ?_⟩
        cases hreceive : first.receive_message system fuel with
        | none =>
          simp only [Running.next, hreceive] at hends
          exact absurd rfl hends
        | some ended =>
          obtain ⟨replied, result⟩ := ended
          obtain ⟨_, _, _, _, _, _, hspec⟩ := receive_message_spec hreceive
          have hheader := hreplies.unique (receive_message_replies hreceive)
          subst hheader
          rw [if_neg (Nat.not_lt_of_le hshort)] at hspec
          subst hspec
          refine ⟨.ProtocolException, ?_, rfl⟩
          simp only [Running.next, hsuccess, hfail, Bool.false_eq_true, if_false]
          rfl

end

end ClientConnector

namespace Client

section

variable {Buf : Type} [CharBuffer Buf] [QTree Buf] {system : System} {fuel : Nat} {params : ArgMap Buf}

theorem fence_action_eq : fence_action system fuel params =
    Attempt.of (prepare_fence_action system params) >>= fun (connector, action, nodename, secret) =>
      match request_type action with
      | some msg_type => (connector.fence_action_impl system fuel msg_type nodename secret).attempt
      | none => Attempt.of (throw_client system (text
          ("Logic error: fence_action(...) called with invalid action \"") ++
          ClientConnector.c_str (contents action) ++ text ("\""))) := by
  unfold fence_action
  refine bind_congr (fun prepared => ?_)
  obtain ⟨connector, action, nodename, secret⟩ := prepared
  unfold request_type
  simp only
  split
  · rfl
  · split
    · rfl
    · split
      · rfl
      · rfl

/-- The client has sent a request for fencing with the given parameters. -/
def Requests (system : System) (params : ArgMap Buf) (sent : ClientConnector) : Prop :=
  ∃ connector action nodename secret msg_type,
    prepare_fence_action system params = .ok (connector, action, nodename, secret) ∧
      request_type action = some msg_type ∧ ClientConnector.Requests system connector msg_type nodename secret sent

theorem escapes_fence_action_iff [LawfulCharBuffer Buf] [LawfulQTree Buf] (h : ClientParameters.WithinLimits params)
    (hends : fence_action system fuel params ≠ none) : Escapes (fence_action system fuel params) ↔
      ∃ sent header, Requests system params sent ∧ system.Replies sent.calls header ∧
      ClientConnector.Unknown header := by
  rw [fence_action_eq] at hends ⊢
  rw [escapes_after (contained_prepare_fence_action params)]
  constructor
  · rintro ⟨⟨connector, action, nodename, secret⟩, hprepare, hescapes⟩
    obtain ⟨hsize, hfits⟩ := prepare_fence_action_spec h hprepare
    have hrest := ends_after hends (congrArg some hprepare)
    simp only at hescapes hrest
    split at hescapes
    · next msg_type htype =>
      rw [htype] at hrest
      have himpl : connector.fence_action_impl system fuel msg_type nodename secret ≠ none :=
        fun hnone => hrest (congrArg Running.attempt hnone)
      obtain ⟨sent, header, hrequests, hreplies, hunknown⟩ :=
        (ClientConnector.escapes_fence_action_impl_iff hsize hfits himpl).mp hescapes
      exact ⟨sent, header, ⟨connector, action, nodename, secret, msg_type, hprepare, htype, hrequests⟩,
          hreplies, hunknown⟩
    · exact absurd hescapes (not_escapes_of (contained_throw_client _ _))
  · rintro ⟨sent, header, ⟨connector, action, nodename, secret, msg_type, hprepare, htype, hrequests⟩,
      hreplies, hunknown⟩
    obtain ⟨hsize, hfits⟩ := prepare_fence_action_spec h hprepare
    have hrest := ends_after hends (congrArg some hprepare)
    refine ⟨(connector, action, nodename, secret), hprepare, ?_⟩
    simp only [htype] at hrest ⊢
    have himpl : connector.fence_action_impl system fuel msg_type nodename secret ≠ none :=
      fun hnone => hrest (congrArg Running.attempt hnone)
    exact (ClientConnector.escapes_fence_action_impl_iff hsize hfits himpl).mpr
      ⟨sent, header, hrequests, hreplies, hunknown⟩

/-- No exception escapes from checking the connection. -/
theorem not_escapes_check_server_connection : ¬ Escapes (check_server_connection system fuel params) := by
  unfold check_server_connection
  rw [escapes_after (contained_require _ _)]
  rintro ⟨params, _, hescapes⟩
  rw [escapes_after (contained_init_connector _)] at hescapes
  obtain ⟨connector, _, hescapes⟩ := hescapes
  rw [escapes_after (contained_connect_to_server _)] at hescapes
  obtain ⟨connector, _, hescapes⟩ := hescapes
  exact ClientConnector.not_escapes_check_connection hescapes

/-- The request that the parameters ask for is one for fencing. -/
def Fences (system : System) (params : ArgMap Buf) : Prop :=
  Arguments.check_required system params = .ok () ∧
    ∃ action, Arguments.get_value system params ClientParameters.KEY_ACTION = .ok action ∧ is_fence_action action = true

theorem ends_first {T U : Type} {first : Attempt T} {rest : T → Attempt U} (hends : (first >>= rest) ≠ none) :
    first ≠ none := by
  rintro rfl
  exact hends rfl

/-- No exception escapes from a function that only returns. -/
theorem not_escapes_return {T : Type} {value : T} : ¬ Escapes (pure value : Attempt T) := by
  rintro ⟨_, hraised, _⟩
  cases hraised

/-- Exceptions escape only from requests for fencing. -/
theorem escapes_dispatch_request_iff [LawfulCharBuffer Buf] [LawfulQTree Buf] (h : ClientParameters.WithinLimits params)
    (hends : dispatch_request system fuel params ≠ none) : Escapes (dispatch_request system fuel params) ↔
      Fences system params ∧ ∃ sent header, Requests system params sent ∧ system.Replies sent.calls header ∧
        ClientConnector.Unknown header := by
  unfold dispatch_request at hends ⊢
  rw [escapes_after (contained_check_required _)]
  constructor
  · rintro ⟨_, hcheck, hescapes⟩
    have hrest := ends_after hends (congrArg some hcheck)
    rw [escapes_after (contained_get_value _ _)] at hescapes
    obtain ⟨action, haction, hescapes⟩ := hescapes
    have hrest := ends_after hrest (congrArg some haction)
    split at hescapes
    · next hfence =>
      rw [if_pos hfence] at hrest
      rw [escapes_bind] at hescapes
      obtain hescapes | ⟨_, _, hescapes⟩ := hescapes
      · exact ⟨⟨hcheck, action, haction, hfence⟩, (escapes_fence_action_iff h (ends_first hrest)).mp hescapes⟩
      · exact absurd hescapes not_escapes_return
    · split at hescapes
      · exact absurd hescapes not_escapes_return
      · split at hescapes
        · rw [escapes_bind] at hescapes
          obtain hescapes | ⟨_, _, hescapes⟩ := hescapes
          · exact absurd hescapes not_escapes_check_server_connection
          · exact absurd hescapes not_escapes_return
        · split at hescapes
          · exact absurd hescapes not_escapes_return
          · exact absurd hescapes (not_escapes_of (contained_throw_client _ _))
  · rintro ⟨⟨hcheck, action, haction, hfence⟩, hunknown⟩
    have hrest := ends_after hends (congrArg some hcheck)
    refine ⟨(), hcheck, ?_⟩
    rw [escapes_after (contained_get_value _ _)]
    have hrest := ends_after hrest (congrArg some haction)
    refine ⟨action, haction, ?_⟩
    rw [if_pos hfence] at hrest ⊢
    exact escapes_bind.mpr (Or.inl ((escapes_fence_action_iff h (ends_first hrest)).mpr hunknown))

end

section

variable {Buf : Type} [TextBuffer Buf] [QTree Buf] {system : System} {fuel : Nat} {stdin : Istream}

/-- The parameters that `run` reads from standard input. -/
def Reads (system : System) (stdin : Istream) (params : ArgMap Buf) : Prop :=
  system.allocates .parameters = true ∧ ∃ arg_map fuel, ClientParameters.initialize_entries system = .ok arg_map ∧
    ClientParameters.read_parameters system fuel arg_map stdin = some (.ok params)

/-- What `main` relies on: the lines of standard input fit, and the server replies to a request for
fencing with its success or its failure. -/
structure Cooperative (Buf : Type) [TextBuffer Buf] [QTree Buf] (system : System) (stdin : Istream) : Prop where
  lines : ∀ arg_map : ArgMap Buf, system.allocates .parameters = true →
    ClientParameters.initialize_entries system = .ok arg_map → system.allocates .line_buffer = true →
      ClientParameters.LinesFit system stdin arg_map
  replies : ∀ (params : ArgMap Buf) (sent : ClientConnector) (header : MsgHeader), Reads system stdin params →
    Fences system params → Requests system params sent → system.Replies sent.calls header →
      header.data_length.toNat ≤ ClientConnector.IO_BUFFER_SIZE →
        header.is_msg_type .FENCE_SUCCESS = true ∨ header.is_msg_type .FENCE_FAIL = true

variable [LawfulTextBuffer Buf] [LawfulQTree Buf]

theorem escapes_read_parameters_iff {arg_map : ArgMap Buf} (h : ClientParameters.WithinLimits arg_map)
    (hends : ClientParameters.read_parameters system fuel arg_map stdin ≠ none) :
    Escapes (ClientParameters.read_parameters system fuel arg_map stdin : Attempt (ArgMap Buf)) ↔
      system.allocates .line_buffer = true ∧ ¬ ClientParameters.LinesFit system stdin arg_map := by
  unfold ClientParameters.read_parameters at hends ⊢
  split at hends
  · next hallocates =>
    rw [if_pos hallocates, ← ClientParameters.read_escapes_iff h, and_iff_right hallocates]
    constructor
    · rintro ⟨exc, hrun, hescapes⟩
      exact ⟨exc, ⟨fuel, hrun⟩, hescapes⟩
    · rintro ⟨exc, hraised, hescapes⟩
      obtain ⟨result, hrun⟩ := Option.ne_none_iff_exists'.mp hends
      have hresult := Ends.unique hraised ⟨fuel, hrun⟩
      exact ⟨exc, hrun.trans (congrArg some hresult.symm), hescapes⟩
  · next hallocates =>
    rw [if_neg hallocates]
    refine iff_of_false ?_ (fun hfails => hallocates hfails.1)
    rintro ⟨exc, hraised, hescapes⟩
    cases hraised
    cases hescapes

omit [LawfulTextBuffer Buf] [LawfulQTree Buf] in
/-- What is read does not depend on how long the loop may run. -/
theorem read_parameters_unique {arg_map : ArgMap Buf} {more : Nat} {result other : Except Thrown (ArgMap Buf)}
    (hread : ClientParameters.read_parameters system fuel arg_map stdin = some result)
    (hother : ClientParameters.read_parameters system more arg_map stdin = some other) : result = other := by
  unfold ClientParameters.read_parameters at hread hother
  split at hread
  · next hallocates =>
    rw [if_pos hallocates] at hother
    exact Ends.unique ⟨fuel, hread⟩ ⟨more, hother⟩
  · next hallocates =>
    rw [if_neg hallocates] at hother
    rw [hread] at hother
    exact Option.some.inj hother

theorem within_limits_of_reads {params : ArgMap Buf} (h : Reads system stdin params) :
    ClientParameters.WithinLimits params := by
  obtain ⟨_, arg_map, fuel, hinitialize, hread⟩ := h
  have hwithin := ClientParameters.initialize_entries_spec.2 arg_map hinitialize
  unfold ClientParameters.read_parameters at hread
  split at hread
  · exact ClientParameters.within_limits_of_read hwithin ⟨fuel, hread⟩
  · cases hread

/-- `run` raises an exception for which `main` has no handler exactly when a line does not fit or the
server does not reply as expected. -/
theorem escapes_run_iff (hends : run Buf system fuel stdin ≠ none) :
    Escapes (run Buf system fuel stdin) ↔ ¬ Cooperative Buf system stdin := by
  unfold run at hends ⊢
  rw [escapes_after (contained_allocate _)]
  constructor
  · rintro ⟨_, hallocates, hescapes⟩ hcooperative
    have hrest := ends_after hends (congrArg some hallocates)
    rw [escapes_after ClientParameters.initialize_entries_spec.1] at hescapes
    obtain ⟨arg_map, hinitialize, hescapes⟩ := hescapes
    have hrest := ends_after hrest (congrArg some hinitialize)
    have hwithin := ClientParameters.initialize_entries_spec.2 arg_map hinitialize
    have hallocated : system.allocates .parameters = true := by
      unfold allocate at hallocates
      split at hallocates
      · next hallocated => exact hallocated
      · cases hallocates
    rw [escapes_bind] at hescapes
    obtain hescapes | ⟨params, hread, hescapes⟩ := hescapes
    · obtain ⟨hbuffer, hunfit⟩ := (escapes_read_parameters_iff hwithin (ends_first hrest)).mp hescapes
      exact hunfit (hcooperative.lines arg_map hallocated hinitialize hbuffer)
    · have hreads : Reads system stdin params := ⟨hallocated, arg_map, fuel, hinitialize, hread⟩
      have hlast := ends_after hrest hread
      obtain ⟨hfences, sent, header, hrequests, hreplies, hshort, hsuccess, hfail⟩ :=
        (escapes_dispatch_request_iff (within_limits_of_reads hreads) hlast).mp hescapes
      obtain hknown | hknown := hcooperative.replies params sent header hreads hfences hrequests hreplies hshort
      · rw [hsuccess] at hknown
        cases hknown
      · rw [hfail] at hknown
        cases hknown
  · intro hcooperative
    by_contra hcontained
    refine hcooperative ⟨fun arg_map hallocated hinitialize hbuffer => ?_,
      fun params sent header hreads hfences hrequests hreplies hshort => ?_⟩
    · have hallocates : allocate system .parameters = .ok () := if_pos hallocated
      have hrest := ends_after hends (congrArg some hallocates)
      have hrest := ends_after hrest (congrArg some hinitialize)
      have hwithin := ClientParameters.initialize_entries_spec.2 arg_map hinitialize
      by_contra hunfit
      refine hcontained ⟨(), hallocates, ?_⟩
      rw [escapes_after ClientParameters.initialize_entries_spec.1]
      refine ⟨arg_map, hinitialize, escapes_bind.mpr (Or.inl ?_)⟩
      exact (escapes_read_parameters_iff hwithin (ends_first hrest)).mpr ⟨hbuffer, hunfit⟩
    · obtain ⟨hallocated, arg_map, more, hinitialize, hmore⟩ := id hreads
      have hallocates : allocate system .parameters = .ok () := if_pos hallocated
      have hrest := ends_after hends (congrArg some hallocates)
      have hrest := ends_after hrest (congrArg some hinitialize)
      obtain ⟨result, hread⟩ := Option.ne_none_iff_exists'.mp (ends_first hrest)
      cases read_parameters_unique hread hmore
      have hlast := ends_after hrest hread
      by_contra hunknown
      obtain ⟨hsuccess, hfail⟩ := not_or.mp hunknown
      refine hcontained ⟨(), hallocates, ?_⟩
      rw [escapes_after ClientParameters.initialize_entries_spec.1]
      refine ⟨arg_map, hinitialize, escapes_bind.mpr (Or.inr ⟨params, hread, ?_⟩)⟩
      exact (escapes_dispatch_request_iff (within_limits_of_reads hreads) hlast).mpr
        ⟨hfences, sent, header, hrequests, hreplies, hshort, by simpa using hsuccess, by simpa using hfail⟩

omit [LawfulTextBuffer Buf] [LawfulQTree Buf] in
/-- What `main` does with an exception of `run`. -/
theorem main_of_error {exc : Thrown} (hrun : run Buf system fuel stdin = some (.error exc)) :
    main Buf system fuel stdin =
      some (if exc.escapes then .error exc else .ok ExitCode.FENCING_FAILURE.value) := by
  unfold main
  rw [hrun]
  cases exc with
  | _ => rfl

/-- The client ends with an exit code exactly when the lines of standard input fit and the server
replies as the client expects. -/
theorem exits_iff {outcome : Except Thrown Int} (hmain : main Buf system fuel stdin = some outcome) :
    (∃ rc, outcome = .ok rc ∧ (rc = ExitCode.FENCING_SUCCESS.value ∨ rc = ExitCode.FENCING_FAILURE.value)) ↔
      Cooperative Buf system stdin := by
  have hends : run Buf system fuel stdin ≠ none := by
    intro hnone
    rw [main, hnone] at hmain
    cases hmain
  rw [← not_iff_not, ← escapes_run_iff hends]
  obtain ⟨result, hrun⟩ := Option.ne_none_iff_exists'.mp hends
  unfold Escapes
  rw [hrun]
  cases result with
  | ok instance_rc =>
    rw [main, hrun] at hmain
    cases hmain
    refine iff_of_false (not_not.mpr ⟨_, rfl, ?_⟩) (fun ⟨_, hraised, _⟩ => nomatch hraised)
    cases instance_rc with
    | FENCING_SUCCESS => exact Or.inl rfl
    | FENCING_FAILURE => exact Or.inr rfl
  | error exc =>
    rw [main_of_error hrun] at hmain
    cases hescapes : exc.escapes with
    | false =>
      rw [if_neg (by simp [hescapes])] at hmain
      cases hmain
      refine iff_of_false (not_not.mpr ⟨_, rfl, Or.inr rfl⟩) ?_
      rintro ⟨_, hraised, hother⟩
      cases hraised
      rw [hescapes] at hother
      cases hother
    | true =>
      rw [if_pos hescapes] at hmain
      cases hmain
      exact iff_of_true (fun ⟨_, hreturned, _⟩ => nomatch hreturned) ⟨exc, rfl, hescapes⟩

end

/-- Standard input with some text. -/
def typed (literal : String) : Istream := { content := text literal }

/-- The arguments of a request for fencing. -/
def fence_arguments : Istream :=
  typed ("action=off\nprotocol=IPV4\nip_address=127.0.0.1\ntcp_port=2111\nnodename=n\nsecret=x\n")

/-- The request for fencing is answered with success. -/
theorem main_fence_arguments :
    main BoundedBuffer (ClientConnector.replying [[], [0, 0xA0], [0, 4]]) 10 fence_arguments =
      some (.ok ExitCode.FENCING_SUCCESS.value) := rfl

theorem exits_iff_fenced : Cooperative BoundedBuffer
    (ClientConnector.replying [[], [0, 0xA0], [0, 4]]) fence_arguments :=
  (exits_iff main_fence_arguments).mp ⟨0, rfl, Or.inl rfl⟩

/-- The last line of standard input has no newline. -/
theorem exits_not_always : ¬ ∀ (system : System) (fuel : Nat) (stdin : Istream) (outcome : Except Thrown Int),
    main BoundedBuffer system fuel stdin = some outcome →
      ∃ rc, outcome = .ok rc ∧ (rc = ExitCode.FENCING_SUCCESS.value ∨ rc = ExitCode.FENCING_FAILURE.value) := by
  intro hexits
  have hmain : main BoundedBuffer (ClientConnector.replying []) 2 (typed ("action=off")) =
    some (.error .RangeException) :=
    rfl
  obtain ⟨rc, hreturned, _⟩ := hexits _ _ _ _ hmain
  cases hreturned

end Client

end client

end ufh
