import UniversalFencingHub.Client.Main
import UniversalFencingHub.Client.Transfer
import UniversalFencingHub.Library.Raising
import UniversalFencingHub.Shared.WireFormat

open raising ufh.CharBuffer

namespace ufh

namespace client

/-- The exceptions for which `main` has no handler. -/
def Thrown.escapes : Thrown → Bool
  | .ProtocolException => true
  | .RangeException => true
  | .DuplicateInsertException => true
  | _ => false

/-- A result whose exception, if it is one, has a handler in `main`. -/
def Contained {T : Type} (result : Except Thrown T) : Prop := OnlyRaises (fun exc => exc.escapes = false) result

theorem contained_throw_arguments {T : Type} (system : System) (error_msg : Bytes) :
    Contained (throw_arguments system error_msg : Except Thrown T) := by
  unfold throw_arguments
  split
  · exact .error rfl
  · exact .error rfl

theorem contained_throw_client {T : Type} (system : System) (error_msg : Bytes) :
    Contained (throw_client system error_msg : Except Thrown T) := by
  unfold throw_client
  split
  · exact .error rfl
  · exact .error rfl

section

variable {Buf : Type} [CharBuffer Buf] [QTree Buf] {system : System}

theorem contained_allocate (allocation : Allocation) : Contained (allocate system allocation) := by
  unfold allocate
  split
  · exact .ok
  · exact .error rfl

theorem contained_mark_required (arg_map : ArgMap Buf) (key : Bytes) :
    Contained (Arguments.mark_required system arg_map key) := by
  unfold Arguments.mark_required
  split
  · simp only
    split
    · exact .ok
    · exact contained_throw_arguments _ _
  · exact .error rfl

theorem contained_check_required (arg_map : ArgMap Buf) : Contained (Arguments.check_required system arg_map) := by
  unfold Arguments.check_required
  simp only
  split
  · exact .ok
  · exact contained_throw_arguments _ _

theorem contained_get_value (arg_map : ArgMap Buf) (key : Bytes) :
    Contained (Arguments.get_value system arg_map key) := by
  unfold Arguments.get_value
  split
  · split
    · exact .ok
    · exact contained_throw_arguments _ _
  · exact .error rfl

theorem contained_require (arg_map : ArgMap Buf) (keys : List Bytes) :
    Contained (Client.require system arg_map keys) := by
  induction keys generalizing arg_map with
  | nil => exact (contained_check_required arg_map).bind (fun _ _ => .ok)
  | cons key rest ih => exact (contained_mark_required arg_map key).bind (fun _ _ => ih _)

theorem contained_check_inet_pton_rc (rc : Int) : Contained (ClientConnector.check_inet_pton_rc rc) := by
  unfold ClientConnector.check_inet_pton_rc
  split
  · exact .error rfl
  · split
    · exact .ok
    · split
      · exact .error rfl
      · exact .error rfl

omit [QTree Buf] in
theorem contained_parse_address (family : Int) (ip_string port_string : Buf) :
    Contained (parse_address system family ip_string port_string) := by
  have hport : Contained (parse_port_number system port_string) := by
    unfold parse_port_number
    simp only
    split
    · exact .error rfl
    · exact .ok
  exact hport.bind (fun _ _ => contained_check_inet_pton_rc _)

omit [QTree Buf] in
theorem contained_init_socket_address (protocol_string ip_string port_string : Buf) :
    Contained (init_socket_address system protocol_string ip_string port_string) := by
  have hdomain : Contained (select_domain protocol_string) := by
    unfold select_domain
    split
    · exact .ok
    · split
      · exact .ok
      · exact .error rfl
  have hparse : ∀ socket_domain, Contained (parse_ip system socket_domain ip_string port_string) := by
    intro socket_domain
    unfold parse_ip
    split
    · exact contained_parse_address _ _ _
    · split
      · exact contained_parse_address _ _ _
      · exact .ok
  exact hdomain.bind (fun _ _ => (contained_allocate _).bind (fun _ _ => (hparse _).bind (fun _ _ => .ok)))

theorem contained_init_connector (params : ArgMap Buf) : Contained (Client.init_connector system params) := by
  refine (contained_get_value _ _).bind (fun protocol _ => (contained_get_value _ _).bind (fun ip_address _ => ?_))
  refine (contained_get_value _ _).bind (fun tcp_port _ => (contained_init_socket_address _ _ _).bind (fun _ _ => ?_))
  exact (contained_allocate _).bind (fun _ _ => .ok)

end

theorem contained_connect_to_server {system : System} (connector : ClientConnector) :
    Contained (connector.connect_to_server system) := by
  have hbind : ∀ family address, Contained (ClientConnector.bind_socket system family address) := by
    intro family address
    unfold ClientConnector.bind_socket
    split
    · split
      · exact .error rfl
      · exact .ok
    · next exc heq => exact .error (contained_check_inet_pton_rc _ exc heq)
  unfold ClientConnector.connect_to_server
  simp only
  split
  · exact .error rfl
  · split
    · split
      · exact .error rfl
      · exact .ok
    · next exc heq =>
      refine .error ?_
      split at heq
      · exact hbind _ _ exc heq
      · split at heq
        · exact hbind _ _ exc heq
        · cases heq
          rfl

theorem contained_prepare_fence_action {Buf : Type} [CharBuffer Buf] [QTree Buf] {system : System}
    (params : ArgMap Buf) : Contained (Client.prepare_fence_action system params) := by
  refine (contained_require _ _).bind (fun params _ => (contained_init_connector params).bind (fun connector _ =>
    (contained_connect_to_server connector).bind (fun connector _ => ?_)))
  exact (contained_get_value _ _).bind (fun _ _ => (contained_get_value _ _).bind (fun _ _ =>
    (contained_get_value _ _).bind (fun _ _ => .ok)))

end client

end ufh
