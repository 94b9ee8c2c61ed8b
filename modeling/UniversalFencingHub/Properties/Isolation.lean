import UniversalFencingHub.ServerConnector.Transcript
import UniversalFencingHub.Threads.Operations

open transition

namespace ufh

/-- The part of a record that a transcript describes. -/
def History.heard (record : History) : Bytes × List Message × List UInt16 × List Event :=
  (record.received, record.messages, record.dispatched, record.dialogue)

/-- A step that is not about what connections say. -/
structure Unheard {Buf : Type} (before after : Connector Buf) : Prop where
  connections : after.connections = before.connections
  heard : ∀ connection, (after.history connection).heard = (before.history connection).heard

theorem Transcript.Describes.of_heard {transcript : Transcript} {record record' : History}
    {passed : List (Bytes × Bytes)} (h : transcript.Describes record passed) (hsame : record'.heard = record.heard) :
    transcript.Describes record' passed := by
  simp only [History.heard, Prod.mk.injEq] at hsame
  obtain ⟨hreceived, hmessages, hdispatched, hdialogue⟩ := hsame
  exact ⟨hreceived.trans h.received, hmessages.trans h.messages, hdispatched.trans h.dispatched,
    hdialogue.trans h.dialogue, h.passed, h.owed, h.silent⟩

section

variable {Buf : Type} {before after last connector : Connector Buf} {client : ClientPtr}

theorem Unheard.of_eq (hconnections : after.connections = before.connections)
    (hhistory : after.history = before.history) :
    Unheard before after :=
  ⟨hconnections, fun connection => by rw [hhistory]⟩

theorem Unheard.trans (h : Unheard before after) (hlast : Unheard after last) : Unheard before last :=
  ⟨hlast.connections.trans h.connections, fun connection => (hlast.heard connection).trans (h.heard connection)⟩

variable [CharBuffer Buf]

theorem unheard_close_connection (connector : Connector Buf) (client : ClientPtr) :
    Unheard connector (connector.close_connection client) := by
  refine ⟨rfl, fun connection => ?_⟩
  change (Function.update connector.history (connector.connection client) _ connection).heard = _
  by_cases hsame : connection = connector.connection client
  · rw [hsame, Function.update_self]
    rfl
  · rw [Function.update_of_ne hsame]

theorem unheard_receive_completed : Unheard connector (connector.receive_completed client).1 := by
  have hset : ∀ object, Unheard connector (connector.set_client client object) := fun _ => .of_eq rfl rfl
  unfold Connector.receive_completed
  simp only
  split
  · exact (hset _).trans (unheard_close_connection _ client)
  · split
    · exact .of_eq rfl rfl
    · exact hset _

theorem unheard_send_completed : Unheard connector (connector.send_completed client) := by
  have hset : ∀ object, Unheard connector (connector.set_client client object) := fun _ => .of_eq rfl rfl
  unfold Connector.send_completed
  simp only
  split
  · exact (hset _).trans (unheard_close_connection _ client)
  · split
    · exact .of_eq rfl rfl
    · exact hset _

omit [CharBuffer Buf] in
theorem unheard_take_action : Unheard connector connector.take_action.2 := by
  have hfirst : Unheard connector connector.action_remove_first.2 := .of_eq rfl rfl
  unfold Connector.take_action
  generalize connector.action_remove_first = taken at hfirst ⊢
  obtain ⟨first, rest⟩ := taken
  cases first with
  | none => exact hfirst
  | some client => exact hfirst.trans (.of_eq rfl rfl)

variable {transcript : Transcript} {passed : List (Bytes × Bytes)} {result : IoResult}
  {read_fd_set write_fd_set : List Int}

/-- The I/O pass on a queued client adds its result to the inputs of the connection. -/
theorem describes_perform_io (hsession : Session .queued (connector.clients client) (connector.record client))
    (h : transcript.Describes (connector.record client) passed)
    (hread : (connector.clients client).socket_fd ∈ read_fd_set → (connector.clients client).io_state = .READ)
    (hwrite : (connector.clients client).socket_fd ∈ write_fd_set → (connector.clients client).io_state = .WRITE)
    (hpossible : (connector.clients client).io_possible read_fd_set write_fd_set result) :
    (transcript.next (.io result)).Describes
      ((connector.perform_io read_fd_set write_fd_set client result).1.history
          (connector.connection client)) passed := by
  have hclosed : transcript.Describes ((connector.close_connection client).history
      (connector.connection client)) passed :=
    h.of_heard ((unheard_close_connection connector client).heard _)
  unfold NetClient.io_possible at hpossible
  unfold Connector.perform_io
  simp only
  by_cases hcanceled : (connector.clients client).current_phase = .CANCELED
  · rw [if_pos hcanceled] at hpossible ⊢
    subst hpossible
    exact hclosed
  · rw [if_neg hcanceled] at hpossible ⊢
    by_cases hreadable : (connector.clients client).socket_fd ∈ read_fd_set
    · rw [if_pos hreadable] at hpossible ⊢
      obtain ⟨begun, hawaits⟩ | ⟨_, _, _, howes⟩ := hsession
      · cases result with
        | received data =>
          have hreceived := h.receive hawaits hpossible.2.2
          have hhistory : (connector.receive_message client (.received data)).1.history (connector.connection client) =
              Connector.received_record (connector.record client) (connector.clients client)
                ((connector.clients client).receive data).1 data ((connector.clients client).receive data).2 := by
            rw [receive_message_received]
            exact Function.update_self ..
          split
          · refine hreceived.of_heard ((unheard_receive_completed.heard _).trans ?_)
            rw [hhistory]
          · rw [hhistory]
            exact hreceived
        | receive_failed => exact hclosed
        | _ => cases hpossible
      · have hio := howes.replying.io_state
        rw [hread hreadable] at hio
        cases hio
    · rw [if_neg hreadable] at hpossible ⊢
      by_cases hwritable : (connector.clients client).socket_fd ∈ write_fd_set
      · rw [if_pos hwritable] at hpossible ⊢
        obtain ⟨_, hawaits⟩ | ⟨reply, count, success_flag, howes⟩ := hsession
        · have hio := hawaits.receiving.io_state
          rw [hwrite hwritable] at hio
          cases hio
        · cases result with
          | sent write_size =>
            have hsent := h.send howes hpossible.2
            have hhistory : (connector.send_message client (.sent write_size)).1.history (connector.connection client) =
                sent_record (connector.record client)
                ((connector.clients client).prepare_send.outgoing write_size) := by
              rw [send_message_sent]
              exact Function.update_self ..
            split
            · refine hsent.of_heard ((unheard_send_completed.heard _).trans ?_)
              rw [hhistory]
            · rw [hhistory]
              exact hsent
          | send_failed =>
            have hset : Unheard connector (connector.set_client client (connector.clients client).prepare_send) :=
              .of_eq rfl rfl
            exact h.of_heard ((hset.trans (unheard_close_connection _ client)).heard _)
          | broken_pipe =>
            have hset : Unheard connector (connector.set_client client (connector.clients client).prepare_send) :=
              .of_eq rfl rfl
            exact h.of_heard ((hset.trans (unheard_close_connection _ client)).heard _)
          | _ => cases hpossible
      · rw [if_neg hwritable] at hpossible ⊢
        subst hpossible
        exact h

theorem receive_message_connections :
    (connector.receive_message client result).1.connections = connector.connections := by
  cases result with
  | _ => rfl

theorem send_message_connections : (connector.send_message client result).1.connections = connector.connections := by
  cases result with
  | _ => rfl

theorem perform_io_connections :
    (connector.perform_io read_fd_set write_fd_set client result).1.connections = connector.connections := by
  unfold Connector.perform_io
  simp only
  split
  · rfl
  · split
    · split
      · exact unheard_receive_completed.connections.trans receive_message_connections
      · exact receive_message_connections
    · split
      · split
        · exact unheard_send_completed.connections.trans send_message_connections
        · exact send_message_connections
      · rfl

end

/-- The actions by which a connection learns something, or comes into being. -/
def Action.is_heard : Action → Bool
  | .accept _ => true
  | .visit _ _ => true
  | .worker_process _ _ _ => true
  | _ => false

namespace State

variable {Buf : Type} [CharBuffer Buf] {before after : State Buf} {action : Action} {connection : Nat}

/-- What a step tells a connection. -/
def input (state : State Buf) (connection : Nat) : Action → List Input
  | .visit client result =>
    if state.connector.connection client = connection ∧ result ≠ .no_call then [.io result] else []
  | .worker_process _ client success_flag =>
    if state.connector.connection client = connection then [.plugin success_flag] else []
  | _ => []

/-- The arguments that a step passes to a method of class `Server` on behalf of a connection. -/
def passed (state : State Buf) (connection : Nat) : Action → List (Bytes × Bytes)
  | .worker_process _ client success_flag =>
    if state.connector.connection client = connection then
      ((state.connector.clients client).fence_arguments success_flag).toList
    else []
  | _ => []

/-- A run of the server, with the inputs of one connection and the arguments that have been passed on
its behalf. -/
inductive Served (connection : Nat) : State Buf → List Input → List (Bytes × Bytes) → Prop where
  | initial (memory : ClientMemory) : Served connection (initial Buf memory) [] []
  | step {before after : State Buf} {inputs : List Input} {passed : List (Bytes × Bytes)} {action : Action}
    (hrun : Served connection before inputs passed) (hstep : before.step action = some after) :
    Served connection after (inputs ++ before.input connection action) (passed ++ before.passed connection action)

/-- A run given by its actions, with the inputs of one connection and the arguments passed on its behalf. -/
def serve (state : State Buf) (connection : Nat) :
    List Action → Option (State Buf × List Input × List (Bytes × Bytes))
  | [] => some (state, [], [])
  | action :: rest =>
    (state.step action).bind fun after =>
      (after.serve connection rest).bind fun (last, inputs, passed) =>
        some (last, state.input connection action ++ inputs, state.passed connection action ++ passed)

theorem act_unheard (hact : before.act action = some after) (hother : action.is_heard = false) :
    Unheard before.connector after.connector := by
  have hoperates := act_operates hact
  generalize after.connector = connector at hoperates ⊢
  cases hoperates with
  | accepted fd client accepted _ _ => cases hother
  | visited client result _ => cases hother
  | processed id client success_flag => cases hother
  | pending_closed client _ =>
    have hfirst : Unheard before.connector before.connector.action_remove_first.2 := .of_eq rfl rfl
    exact hfirst.trans (unheard_close_connection _ client)
  | queued_closed client _ =>
    have hfirst : Unheard before.connector before.connector.com_remove_first.2 := .of_eq rfl rfl
    exact hfirst.trans (unheard_close_connection _ client)
  | taken id => exact unheard_take_action
  | dismissed id client => exact unheard_close_connection _ client
  | closed id client => exact unheard_close_connection _ client
  | _ => exact .of_eq rfl rfl

section

variable [LawfulCharBuffer Buf] {place : ClientPtr → Place} {stamp : ClientPtr → Nat} {transcript : Transcript}
  {inputs : List Input} {passed : List (Bytes × Bytes)} {client : ClientPtr}

omit [LawfulCharBuffer Buf] in
theorem describes_visit (hinvariant : Invariant False before place stamp)
    (hposition : before.selector = .pass (some client)) {result : IoResult}
    (hpossible : (before.connector.clients client).io_possible before.read_fd_set before.write_fd_set result)
    (h : transcript.Describes (before.connector.history connection) passed) :
    ((before.input connection (.visit client result)).foldl Transcript.next transcript).Describes
      ((before.visit client result).connector.history connection) passed := by
  have hcursor : before.selector.cursor = some client := by rw [hposition]; rfl
  have hqueued := hinvariant.interest.cursor client hcursor
  obtain ⟨hread, hwrite⟩ := hinvariant.interest.fits client hqueued (Or.inr ⟨client, hcursor, le_rfl⟩)
  have hsession := hinvariant.consistent.sessions.session client
  rw [hqueued] at hsession
  by_cases hpipe : result = .broken_pipe
  · subst hpipe
    simp only [State.visit, if_pos, State.input]
    split
    · exact h
    · exact h
  · rw [visit_eq hpipe]
    simp only [State.input]
    by_cases hconnection : before.connector.connection client = connection
    · subst hconnection
      have hnext := describes_perform_io hsession h hread hwrite hpossible
      by_cases hcall : result = .no_call
      · subst hcall
        rw [if_neg (by simp)]
        exact hnext
      · rw [if_pos ⟨rfl, hcall⟩]
        exact hnext
    · rw [if_neg (fun hboth => hconnection hboth.1), same_records_perform_io.history connection (Ne.symm hconnection)]
      exact h

theorem describes_process (hinvariant : Invariant False before place stamp) {id : WorkerId}
    (hposition : before.workers id = .process client) (success_flag : Bool)
    (h : transcript.Describes (before.connector.history connection) passed) :
    ((before.input connection (.worker_process id client success_flag)).foldl Transcript.next transcript).Describes
      ((before.process id client success_flag).connector.history connection)
      (passed ++ before.passed connection (.worker_process id client success_flag)) := by
  have hholding : before.holding (.worker id) = some (client, .completed) := holding_worker hposition
  have hsession := hinvariant.consistent.sessions.session client
  rw [(hinvariant.holding _ _ _).mp hholding] at hsession
  obtain ⟨earlier, message, hholds⟩ := hsession
  have hhistory : (before.connector.process client success_flag).1.history =
      Function.update before.connector.history (before.connector.connection client)
        (processed_record (before.connector.record client) message
          ((before.connector.clients client).process_client_message success_flag).call success_flag) := by
    rw [processed_record, ← hholds.received.msg_type]
    rfl
  rw [process_connector, hhistory]
  simp only [State.input, State.passed]
  by_cases hconnection : before.connector.connection client = connection
  · subst hconnection
    rw [if_pos rfl, if_pos rfl, Function.update_self]
    exact h.process hholds success_flag
  · rw [if_neg hconnection, if_neg hconnection, Function.update_of_ne (Ne.symm hconnection), List.append_nil]
    exact h

omit [LawfulCharBuffer Buf] in
/-- A connection that has not been accepted yet has learnt nothing. -/
theorem input_fresh (hinvariant : Invariant False before place stamp) (hact : before.act action = some after)
    (hfresh : before.connector.connections ≤ connection) :
    before.input connection action = [] ∧ before.passed connection action = [] := by
  have hunused : ∀ client, place client ≠ .free → before.connector.connection client ≠ connection := by
    intro client hused heq
    have hlt := hinvariant.consistent.sessions.connection_lt client hused
    omega
  cases action with
  | visit client result =>
    obtain ⟨⟨hposition, _⟩, _⟩ := only_if_eq_some.mp hact
    have hqueued := hinvariant.interest.cursor client (by rw [hposition]; rfl)
    refine ⟨if_neg (fun hboth => hunused client ?_ hboth.1), rfl⟩
    simp [hqueued]
  | worker_process id client success_flag =>
    obtain ⟨hposition, _⟩ := only_if_eq_some.mp hact
    have hholding : before.holding (.worker id) = some (client, .completed) := holding_worker hposition
    have hheld := (hinvariant.holding _ _ _).mp hholding
    have hother := hunused client (by simp [hheld])
    exact ⟨if_neg hother, if_neg hother⟩
  | _ => exact ⟨rfl, rfl⟩

omit [LawfulCharBuffer Buf] in
theorem act_connections (hact : before.act action = some after) :
    before.connector.connections ≤ after.connector.connections := by
  cases hheard : action.is_heard with
  | false => exact (act_unheard hact hheard).connections.ge
  | true =>
    have hoperates := act_operates hact
    generalize after.connector = connector at hoperates ⊢
    cases hoperates with
    | silent => exact le_rfl
    | opened => exact le_rfl
    | socket_closed => exact le_rfl
    | pipe_closed => exact le_rfl
    | accepted fd client accepted _ haccept =>
      unfold Connector.accept at haccept
      split at haccept
      · cases haccept
      · obtain ⟨_, rfl⟩ := Prod.mk.inj (Option.some.inj haccept)
        exact Nat.le_succ _
    | visited client result _ => exact perform_io_connections.ge
    | processed id client success_flag => exact le_rfl
    | _ => cases hheard

theorem describes_act (hinvariant : Invariant False before place stamp) (hact : before.act action = some after)
    (h : transcript.Describes (before.connector.history connection) passed)
    (hfresh : before.connector.connections ≤ connection → transcript = {} ∧ passed = []) :
    ((before.input connection action).foldl Transcript.next transcript).Describes
      (after.connector.history connection) (passed ++ before.passed connection action) := by
  cases action with
  | accept fd =>
    obtain ⟨_, rfl⟩ := only_if_eq_some.mp hact
    simp only [State.input, State.passed, List.append_nil, List.foldl_nil]
    unfold State.accept Connector.accept
    cases before.connector.client_pool.allocate with
    | none => exact h
    | some allocated =>
      change transcript.Describes (Function.update before.connector.history before.connector.connections _ connection) _
      by_cases hnew : connection = before.connector.connections
      · obtain ⟨rfl, rfl⟩ := hfresh hnew.ge
        rw [hnew, Function.update_self]
        exact Transcript.describes_start fd
      · rw [Function.update_of_ne hnew]
        exact h
  | visit client result =>
    obtain ⟨⟨hposition, hpossible⟩, rfl⟩ := only_if_eq_some.mp hact
    have hnothing : before.passed connection (.visit client result) = [] := rfl
    rw [hnothing, List.append_nil]
    exact describes_visit hinvariant hposition hpossible h
  | worker_process id client success_flag =>
    obtain ⟨hposition, rfl⟩ := only_if_eq_some.mp hact
    exact describes_process hinvariant hposition success_flag h
  | _ =>
    have hsame := h.of_heard ((act_unheard hact rfl).heard connection)
    simpa only [State.input, State.passed, List.append_nil, List.foldl_nil] using hsame

omit [LawfulCharBuffer Buf] in
theorem Served.reachable (h : Served connection after inputs passed) : after.Reachable := by
  induction h with
  | initial memory => exact .refl memory
  | step _ hstep ih => exact ih.tail trivial hstep

/-- The inputs of a connection determine its record. -/
theorem Served.describes (h : Served connection after inputs passed) :
    (inputs.foldl Transcript.next {}).Describes (after.connector.history connection) passed ∧
      (after.connector.connections ≤ connection → inputs = [] ∧ passed = []) := by
  induction h with
  | initial memory => exact ⟨Transcript.describes_start _, fun _ => ⟨rfl, rfl⟩⟩
  | step hrun hstep ih =>
    obtain ⟨_, hact⟩ := step_eq_some.mp hstep
    obtain ⟨place, stamp, hinvariant⟩ := Reachable.sound hrun.reachable
    obtain ⟨hdescribes, hfresh⟩ := ih
    refine ⟨?_, fun hafter => ?_⟩
    · rw [List.foldl_append]
      refine describes_act hinvariant hact hdescribes fun hbefore => ?_
      obtain ⟨hinputs, hpassed⟩ := hfresh hbefore
      rw [hinputs]
      exact ⟨rfl, hpassed⟩
    · have hbefore := (act_connections hact).trans hafter
      obtain ⟨hinputs, hpassed⟩ := hfresh hbefore
      obtain ⟨hinput, hargument⟩ := input_fresh hinvariant hact hbefore
      rw [hinputs, hpassed, hinput, hargument]
      exact ⟨rfl, rfl⟩

/-- Connections are isolated from what their client objects were used for before. In any two runs of the
server, two connections with the same inputs have had the same messages completed and dispatched, the
same node names and secrets passed on, the same plugin calls made and the same bytes sent, whatever
client objects they were given and whoever used these before. -/
theorem connections_isolated {first second : State Buf} {connection other : Nat} {passed passed' : List (Bytes × Bytes)}
    (hfirst : Served connection first inputs passed) (hsecond : Served other second inputs passed') :
    (first.connector.history connection).messages = (second.connector.history other).messages ∧
      (first.connector.history connection).dispatched = (second.connector.history other).dispatched ∧
      passed = passed' ∧
      (first.connector.history connection).dialogue = (second.connector.history other).dialogue := by
  obtain ⟨hdescribes, _⟩ := hfirst.describes
  obtain ⟨hdescribes', _⟩ := hsecond.describes
  exact ⟨hdescribes.messages.trans hdescribes'.messages.symm, hdescribes.dispatched.trans hdescribes'.dispatched.symm,
    hdescribes.passed.trans hdescribes'.passed.symm, hdescribes.dialogue.trans hdescribes'.dialogue.symm⟩

omit [LawfulCharBuffer Buf] in
theorem Served.serve (h : Served connection before inputs passed) {actions : List Action} {inputs' : List Input}
    {passed' : List (Bytes × Bytes)} (hrun : before.serve connection actions = some (after, inputs', passed')) :
    Served connection after (inputs ++ inputs') (passed ++ passed') := by
  induction actions generalizing before inputs passed inputs' passed' with
  | nil =>
    cases hrun
    rw [List.append_nil, List.append_nil]
    exact h
  | cons action rest ih =>
    obtain ⟨middle, hstep, hrest⟩ := Option.bind_eq_some_iff.mp hrun
    obtain ⟨⟨last, later, arguments⟩, hserve, heq⟩ := Option.bind_eq_some_iff.mp hrest
    cases heq
    rw [← List.append_assoc, ← List.append_assoc]
    exact ih (h.step hstep) hserve

omit [LawfulCharBuffer Buf] in
theorem exists_served {actions : List Action} {P : State Buf × List Input × List (Bytes × Bytes) → Bool}
    {memory : ClientMemory} (hrun : ((initial Buf memory).serve connection actions).any P = true) :
    ∃ last inputs passed, Served connection last inputs passed ∧ P (last, inputs, passed) = true := by
  obtain ⟨⟨last, inputs, passed⟩, hlast, hp⟩ := (Option.any_eq_true _ _).mp hrun
  exact ⟨last, inputs, passed, Served.serve (.initial memory) hlast, hp⟩

/-- The inputs of a request to fence a node, which arrives in two pieces. -/
def request_inputs (nodename : UInt8) : List Input :=
  [.io (.received [0, 0x81, 0, 16]),
    .io (.received (0 :: 10 :: protocol.NODENAME ++ [protocol.SPLIT_BYTE, nodename])), .plugin true]

/-- A connection on which such a request arrives and is processed. -/
def request (nodename : UInt8) (fd : Int) : List Action :=
  Action.accept_round fd 23 [] ++ Action.round [fd] [] [] [.visit 23 (.received [0, 0x81, 0, 16])] ++
    Action.round [fd] [] [] (Action.complete 23 none
        (0 :: 10 :: protocol.NODENAME ++ [protocol.SPLIT_BYTE, nodename])) ++
    Action.work 0 23 true

/-- A client object is used for a request whose peer goes away while it is answered, and then for another one. -/
def reused_run : List Action :=
  Action.startup ++ request 0x61 6 ++ [.worker_hand_back_lock 0 23, .worker_hand_back 0 23] ++
    Action.round [4] [6] [.drain, .drain] [.visit 23 (.sent 2)] ++ Action.round [] [6] [] [.visit 23 .send_failed] ++
    [.worker_relock 0, .worker_take 0, .worker_wait 0, .worker_wake 0] ++ request 0x62 7

theorem connections_isolated_reused : ∃ first second : State BoundedBuffer, first.connector.connections = 2 ∧
    (second.connector.history 0).dialogue.length = 2 ∧
      (first.connector.history 1).dialogue = (second.connector.history 0).dialogue := by
  have hfirst : ∃ (first : State BoundedBuffer) (inputs : List Input) (passed : List (Bytes × Bytes)),
      Served 1 first inputs passed ∧ first.connector.connections = 2 ∧
      inputs = request_inputs 0x62 := by
    obtain ⟨first, inputs, passed, hserved, hlast⟩ := exists_served
      (by decide +kernel : ((initial BoundedBuffer (.filled 0xA5)).serve 1 reused_run).any
        (fun (last, inputs, _) => last.connector.connections = 2 ∧ inputs = request_inputs 0x62) = true)
    exact ⟨first, inputs, passed, hserved, of_decide_eq_true hlast⟩
  have hsecond : ∃ (second : State BoundedBuffer) (inputs : List Input) (passed : List (Bytes × Bytes)),
      Served 0 second inputs passed ∧
      (second.connector.history 0).dialogue.length = 2 ∧ inputs = request_inputs 0x62 := by
    obtain ⟨second, inputs, passed, hserved, hlast⟩ := exists_served
      (by decide +kernel : ((initial BoundedBuffer (.filled 0xA5)).serve 0 (Action.startup ++ request 0x62 6)).any
        (fun (last, inputs, _) => (last.connector.history 0).dialogue.length = 2 ∧ inputs = request_inputs 0x62) = true)
    exact ⟨second, inputs, passed, hserved, of_decide_eq_true hlast⟩
  obtain ⟨first, _, _, hserved, hconnections, rfl⟩ := hfirst
  obtain ⟨second, _, _, hserved', hlength, rfl⟩ := hsecond
  obtain ⟨_, _, _, hdialogue⟩ := connections_isolated hserved hserved'
  exact ⟨first, second, hconnections, hlength, hdialogue⟩

end

end State

end ufh
