import UniversalFencingHub.ServerConnector.PerformIo

namespace ufh

section

variable {Buf : Type} {connector first second : Connector Buf} {client other : ClientPtr} {object : NetClient Buf}

theorem set_client_self (connector : Connector Buf) (client : ClientPtr) (object : NetClient Buf) :
    (connector.set_client client object).clients client = object :=
  Function.update_self ..

theorem clients_set_other (hne : client ≠ other) :
    (connector.set_client other object).clients client = connector.clients client :=
  Function.update_of_ne hne _ _

theorem eq_set_client (hclients : first.clients = Function.update second.clients other object)
    (hrest : { first with clients := second.clients } = second) : first = second.set_client other object := by
  unfold Connector.set_client
  rw [← hclients, ← hrest]

theorem set_client_comm (hne : client ≠ other) (value : NetClient Buf) :
    (connector.set_client other object).set_client client value =
      (connector.set_client client value).set_client other object :=
  eq_set_client (Function.update_comm hne.symm _ _ _) rfl

theorem com_remove_other :
    (connector.set_client other object).com_remove client = (connector.com_remove client).set_client other object :=
  rfl

variable [CharBuffer Buf]

theorem close_connection_other (hne : client ≠ other) :
    (connector.set_client other object).close_connection client =
      (connector.close_connection client).set_client other object := by
  unfold Connector.close_connection
  simp only [clients_set_other hne]
  exact eq_set_client (Function.update_comm hne.symm _ _ _) rfl

theorem receive_message_other (hne : client ≠ other) (result : IoResult) :
    (connector.set_client other object).receive_message client result =
      ((connector.receive_message client result).1.set_client other object,
        (connector.receive_message client result).2) := by
  cases result with
  | received data =>
    rw [receive_message_received, receive_message_received, clients_set_other hne]
    exact Prod.ext (eq_set_client (Function.update_comm hne.symm _ _ _) rfl) rfl
  | _ => exact Prod.ext (close_connection_other hne) rfl

theorem send_message_other (hne : client ≠ other) (result : IoResult) :
    (connector.set_client other object).send_message client result =
      ((connector.send_message client result).1.set_client other object,
        (connector.send_message client result).2) := by
  cases result with
  | sent count =>
    rw [send_message_sent, send_message_sent, clients_set_other hne]
    exact Prod.ext (eq_set_client (Function.update_comm hne.symm _ _ _) rfl) rfl
  | _ => simp only [Connector.send_message, clients_set_other hne, set_client_comm hne, close_connection_other hne]

theorem receive_completed_other (hne : client ≠ other) :
    (connector.set_client other object).receive_completed client =
      ((connector.receive_completed client).1.set_client other object, (connector.receive_completed client).2) := by
  unfold Connector.receive_completed
  simp only [clients_set_other hne, set_client_comm hne]
  split
  · rw [close_connection_other hne]
  · split
    · simp only [com_remove_other, clients_set_other hne, set_client_comm hne]
    · rfl

theorem send_completed_other (hne : client ≠ other) :
    (connector.set_client other object).send_completed client =
      (connector.send_completed client).set_client other object := by
  unfold Connector.send_completed
  simp only [clients_set_other hne, set_client_comm hne]
  split
  · exact close_connection_other hne
  · split
    · rfl
    · rfl

/-- The I/O pass on a client neither reads nor changes the object of another one. -/
theorem perform_io_other (hne : client ≠ other) (read_fd_set write_fd_set : List Int) (result : IoResult) :
    (connector.set_client other object).perform_io read_fd_set write_fd_set client result =
      ((connector.perform_io read_fd_set write_fd_set client result).1.set_client other object,
        (connector.perform_io read_fd_set write_fd_set client result).2) := by
  unfold Connector.perform_io
  simp only [clients_set_other hne, receive_message_other hne, send_message_other hne]
  split
  · rw [close_connection_other hne]
  · split
    · split
      · rw [receive_completed_other hne]
      · rfl
    · split
      · split
        · rw [send_completed_other hne]
        · rfl
      · rfl

theorem process_other (hne : client ≠ other) (success_flag : Bool) :
    (connector.set_client other object).process client success_flag =
      ((connector.process client success_flag).1.set_client other object,
        (connector.process client success_flag).2) := by
  unfold Connector.process
  simp only [clients_set_other hne, set_client_comm hne]
  rfl

theorem accept_other (hother : connector.client_pool.allocate.map Prod.fst ≠ some other) (fd : Int) :
    (connector.set_client other object).accept fd =
      (connector.accept fd).map fun accepted => (accepted.1, accepted.2.set_client other object) := by
  unfold Connector.accept
  rw [show (connector.set_client other object).client_pool = connector.client_pool from rfl]
  cases hallocate : connector.client_pool.allocate with
  | none => rfl
  | some allocated =>
    have hne : allocated.1 ≠ other := by
      rintro rfl
      exact hother (by rw [hallocate]; rfl)
    simp only [clients_set_other hne]
    exact congrArg (fun accepted => some (allocated.1, accepted))
      (eq_set_client (Function.update_comm hne.symm _ _ _) rfl)

omit [CharBuffer Buf] in
theorem action_remove_first_head : connector.action_remove_first.1 = connector.action_queue.head_node := by
  cases hhead : connector.action_queue.head_node with
  | none => simp only [Connector.action_remove_first, Queue.remove_first_empty hhead]
  | some client => simp only [Connector.action_remove_first, Queue.remove_first, hhead]

omit [CharBuffer Buf] in
theorem com_remove_first_head : connector.com_remove_first.1 = connector.com_queue.head_node := by
  cases hhead : connector.com_queue.head_node with
  | none => simp only [Connector.com_remove_first, Queue.remove_first_empty hhead]
  | some client => simp only [Connector.com_remove_first, Queue.remove_first, hhead]

omit [CharBuffer Buf] in
theorem take_action_other (hother : connector.action_queue.head_node ≠ some other) :
    (connector.set_client other object).take_action =
      (connector.take_action.1, connector.take_action.2.set_client other object) := by
  have hremove : (connector.set_client other object).action_remove_first =
      (connector.action_remove_first.1, connector.action_remove_first.2.set_client other object) := rfl
  unfold Connector.take_action
  rw [hremove]
  cases hfirst : connector.action_remove_first with
  | mk found rest =>
    cases found with
    | none => rfl
    | some client =>
      have hne : client ≠ other := by
        rintro rfl
        exact hother (action_remove_first_head.symm.trans (congrArg Prod.fst hfirst))
      simp only [clients_set_other hne, set_client_comm hne]

omit [CharBuffer Buf] in
/-- `remove_first` of a worker changes nothing of a client but its phase. -/
theorem take_action_object (connector : Connector Buf) (client : ClientPtr) :
    connector.take_action.2.connection = connector.connection ∧
      ∃ phase, connector.take_action.2.clients client = { connector.clients client with current_phase := phase } := by
  unfold Connector.take_action
  cases hfirst : connector.action_remove_first with
  | mk found rest =>
    obtain rfl : rest = connector.action_remove_first.2 := by rw [hfirst]
    cases found with
    | none => exact ⟨rfl, _, rfl⟩
    | some taken =>
      refine ⟨rfl, ?_⟩
      by_cases hsame : client = taken
      · exact ⟨.EXECUTING, by rw [hsame, set_client_self]; rfl⟩
      · exact ⟨(connector.clients client).current_phase, by rw [clients_set_other hsame]; rfl⟩

end

end ufh
