import UniversalFencingHub.ServerConnector.Affects
import UniversalFencingHub.ServerConnector.Separate

open ufh.CharBuffer

namespace ufh

/-- A client object that holds nothing of any connection. -/
structure NetClient.Wiped {Buf : Type} [CharBuffer Buf] (client : NetClient Buf) : Prop where
  socket_fd : client.socket_fd = sys.FD_NONE
  phases : client.current_phase = .RECV ∧ client.next_phase = .PENDING ∧ client.io_state = .NOOP
  header : client.header = {} ∧ client.have_header = false
  message : client.io_offset = 0 ∧ client.io_buffer = zero_memory NetClient.IO_BUFFER_SIZE
  fields : contents client.nodename = [] ∧ contents client.secret = [] ∧ contents client.key_buffer = [] ∧
    contents client.value_buffer = []

/-- A client object that has been cleared, or that is as the constructor has left it. -/
def NetClient.Blank {Buf : Type} [CharBuffer Buf] (memory : Bytes) (client : NetClient Buf) : Prop :=
  client.Wiped ∨ client = .new Buf memory

/-- What an operation on a client leaves of its connection: the descriptor and the object, or neither. -/
inductive ReleasesBoth {Buf : Type} [CharBuffer Buf] (client : ClientPtr) (before after : Connector Buf) : Prop where
  | kept (hopen : after.open_fds = before.open_fds) (hpool : after.client_pool = before.client_pool)
    (hsocket : (after.clients client).socket_fd = (before.clients client).socket_fd)
  | closed (hopen : after.open_fds = (sys.close_fd before.open_fds (before.clients client).socket_fd).1)
    (hpool : after.client_pool = before.client_pool.deallocate client) (hwiped : (after.clients client).Wiped)

section

variable {Buf : Type} [CharBuffer Buf] {before middle after connector : Connector Buf} {client : ClientPtr}
  {result : IoResult} {read_fd_set write_fd_set : List Int}

theorem NetClient.Wiped.clear [LawfulCharBuffer Buf] (object : NetClient Buf) : object.clear.Wiped := by
  have hempty : ∀ buf : Buf, contents (wipe buf) = [] := LawfulCharBuffer.contents_wipe
  exact ⟨rfl, ⟨rfl, rfl, rfl⟩, ⟨rfl, rfl⟩, ⟨rfl, rfl⟩, hempty _, hempty _, hempty _, hempty _⟩

/-- An operation after changes that keep the descriptor. -/
theorem ReleasesBoth.of_set_client {object : NetClient Buf}
    (h : ReleasesBoth client (connector.set_client client object) after)
    (hfd : object.socket_fd = (connector.clients client).socket_fd) : ReleasesBoth client connector after := by
  have hsame : ((connector.set_client client object).clients client).socket_fd =
      (connector.clients client).socket_fd := updated_socket_fd rfl hfd
  cases h with
  | kept hopen hpool hsocket => exact .kept hopen hpool (hsocket.trans hsame)
  | closed hopen hpool hwiped =>
    rw [hsame] at hopen
    exact .closed hopen hpool hwiped

/-- An operation after one that ended well. -/
theorem ReleasesBoth.of_kept (h : ReleasesBoth client middle after) (hopen : middle.open_fds = before.open_fds)
    (hpool : middle.client_pool = before.client_pool)
    (hfd : (middle.clients client).socket_fd = (before.clients client).socket_fd) :
    ReleasesBoth client before after := by
  cases h with
  | kept hopen' hpool' hsocket => exact .kept (hopen'.trans hopen) (hpool'.trans hpool) (hsocket.trans hfd)
  | closed hopen' hpool' hwiped =>
    rw [hopen, hfd] at hopen'
    rw [hpool] at hpool'
    exact .closed hopen' hpool' hwiped

variable [LawfulCharBuffer Buf]

theorem releases_close_connection (connector : Connector Buf) (client : ClientPtr) :
    ReleasesBoth client connector (connector.close_connection client) := by
  refine .closed rfl rfl ?_
  simp only [Connector.close_connection, Connector.set_client, Function.update_self]
  exact .clear _

theorem releases_receive_completed (connector : Connector Buf) (client : ClientPtr) :
    ReleasesBoth client connector (connector.receive_completed client).1 := by
  have hphase := congrArg NetClient.socket_fd (set_client_self connector client
    { connector.clients client with current_phase := (connector.clients client).next_phase })
  unfold Connector.receive_completed
  simp only
  split
  · exact .of_set_client (releases_close_connection ..) rfl
  · split
    · refine .kept rfl rfl ?_
      rw [set_client_self]
      exact hphase
    · exact .kept rfl rfl hphase

theorem releases_send_completed (connector : Connector Buf) (client : ClientPtr) :
    ReleasesBoth client connector (connector.send_completed client) := by
  have hphase := congrArg NetClient.socket_fd (set_client_self connector client
    { connector.clients client with current_phase := (connector.clients client).next_phase })
  unfold Connector.send_completed
  simp only
  split
  · exact .of_set_client (releases_close_connection ..) rfl
  · split
    · refine .kept rfl rfl ?_
      rw [set_client_self]
      exact hphase
    · exact .kept rfl rfl hphase

theorem releases_receive_message (connector : Connector Buf) (client : ClientPtr) (result : IoResult) :
    ReleasesBoth client connector (connector.receive_message client result).1 := by
  cases result with
  | received data =>
    obtain ⟨_, _, hfd, _⟩ := receive_kept (connector.clients client) data
    rw [receive_message_received]
    exact .kept rfl rfl (updated_socket_fd rfl hfd)
  | _ => exact releases_close_connection connector client

theorem releases_send_message (connector : Connector Buf) (client : ClientPtr) (result : IoResult) :
    ReleasesBoth client connector (connector.send_message client result).1 := by
  obtain ⟨_, hprepared, _⟩ := prepare_send_kept (connector.clients client)
  cases result with
  | sent count =>
    obtain ⟨_, hsent, _⟩ := sent_kept (connector.clients client).prepare_send count
    rw [send_message_sent]
    exact .kept rfl rfl (updated_socket_fd rfl (hsent.trans hprepared))
  | _ => exact .of_set_client (releases_close_connection ..) hprepared

/-- The I/O pass keeps a connection, or ends it completely. -/
theorem releases_perform_io :
    ReleasesBoth client connector (connector.perform_io read_fd_set write_fd_set client result).1 := by
  have hreceived := releases_receive_message connector client result
  have hsent := releases_send_message connector client result
  unfold Connector.perform_io
  simp only
  split
  · exact releases_close_connection connector client
  · split
    · split
      · next hcomplete =>
        cases result with
        | received data =>
          obtain ⟨_, _, hfd, _⟩ := receive_kept (connector.clients client) data
          refine .of_kept (releases_receive_completed _ client) rfl rfl ?_
          rw [receive_message_received]
          exact updated_socket_fd rfl hfd
        | _ => cases hcomplete
      · exact hreceived
    · split
      · split
        · next hcomplete =>
          cases result with
          | sent count =>
            obtain ⟨_, hprepared, _⟩ := prepare_send_kept (connector.clients client)
            obtain ⟨_, hcount, _⟩ := sent_kept (connector.clients client).prepare_send count
            refine .of_kept (releases_send_completed _ client) rfl rfl ?_
            rw [send_message_sent]
            exact updated_socket_fd rfl (hcount.trans hprepared)
          | _ => cases hcomplete
        · exact hsent
      · exact .kept rfl rfl rfl

end

end ufh
