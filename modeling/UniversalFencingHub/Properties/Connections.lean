import UniversalFencingHub.Threads.Reachable

open framing transition

namespace ufh

def Event.is_call : Event → Bool
  | .call _ _ => true
  | _ => false

theorem reply_events_calls (reply : protocol.MsgType) : (reply_events reply).countP Event.is_call = 0 := by
  apply List.countP_eq_zero.mpr
  intro event hevent
  obtain ⟨byte, _, rfl⟩ := List.mem_map.mp hevent
  simp [Event.is_call]

/-- The dialogue of a connection contains one plugin call at most. -/
theorem dialogue_calls (success_flag : Bool) (messages : List Message) :
    (dialogue success_flag messages).countP Event.is_call ≤ 1 := by
  induction messages with
  | nil => simp [dialogue]
  | cons message rest ih =>
    have hreplies := reply_events_calls
    cases hresponse : message.response with
    | echo =>
      simp only [dialogue, hresponse, Response.events, if_true]
      rw [List.countP_cons_of_neg (by simp [Event.is_call]), List.countP_append, hreplies]
      omega
    | fence method nodename secret =>
      simp only [dialogue, hresponse, Response.events]
      rw [List.countP_cons_of_neg (by simp [Event.is_call]), List.countP_append, List.countP_cons, hreplies]
      simp [Event.is_call]
    | hang_up => simp [dialogue, hresponse, Response.events, Event.is_call]
    | abandon => simp [dialogue, hresponse, Response.events, Event.is_call]

theorem next_message_contents (stream : Bytes) (message : Message) (rest : Bytes)
    (h : next_message stream = some (message, rest)) : message.contents ++ rest = stream := by
  obtain ⟨_, _, _, _, hcontents, hrest⟩ := next_message_some h
  rw [hcontents, hrest, List.take_append_drop]

namespace State

variable {Buf : Type} [CharBuffer Buf] [LawfulCharBuffer Buf] {state first second : State Buf}

theorem Reachable.recorded (h : state.Reachable) (connection : Nat) :
    Recorded (state.connector.history connection) := by
  obtain ⟨place, stamp, hinvariant⟩ := Reachable.sound h
  exact hinvariant.consistent.sessions.recorded connection

/-- At all times, the messages, plugin calls and sent bytes of a connection are a
prefix of its sequential dialogue, in which the response to a message precedes the
next message; so a connection causes one plugin call at most. -/
theorem connection_follows_dialogue (h : state.Reachable) (connection : Nat) :
    (∃ success_flag, (state.connector.history connection).dialogue <+:
        dialogue success_flag (state.connector.history connection).messages) ∧
      (state.connector.history connection).dialogue.countP Event.is_call ≤ 1 := by
  obtain ⟨success_flag, hbegins⟩ := (Reachable.recorded h connection).dialogue
  refine ⟨⟨success_flag, hbegins⟩, ?_⟩
  have hsublist := hbegins.sublist.countP_le (p := Event.is_call)
  have hone := dialogue_calls success_flag (state.connector.history connection).messages
  omega

/-- A connection that sends an echo request in two pieces and receives half of the reply. -/
def echo_run : List Action :=
  Action.startup ++ Action.accept_round 6 23 [] ++ Action.round [6] [] [] [.visit 23 (.received [0, 0, 0])] ++
    Action.round [6] [] [] (Action.complete 23 none [4]) ++ Action.work 0 23 false ++
    [.worker_hand_back_lock 0 23, .worker_hand_back 0 23] ++ Action.round [4] [6] [.drain, .drain] [.visit 23 (.sent 2)]

theorem connection_follows_dialogue_echo : ∃ state : State BoundedBuffer,
    (state.connector.history 0).dialogue.length = 3 ∧
      (∃ success_flag, (state.connector.history 0).dialogue <+:
        dialogue success_flag (state.connector.history 0).messages) ∧
      (state.connector.history 0).dialogue.countP Event.is_call ≤ 1 := by
  obtain ⟨state, hreachable, hlength⟩ := exists_reachesFrom_of_run
    (by decide +kernel : ((run State.step (State.initial BoundedBuffer (.filled 0xA5)) echo_run).any
      fun state => (state.connector.history 0).dialogue.length = 3) = true)
  exact ⟨state, by simpa using hlength, connection_follows_dialogue hreachable 0⟩

/-- The client that the pass reads from waits for a message. -/
theorem Reachable.awaits (h : state.Reachable) {client : ClientPtr} (hposition : state.selector = .pass (some client))
    (hmem : (state.connector.clients client).socket_fd ∈ state.read_fd_set) :
    ∃ begun, AwaitsMessage (state.connector.clients client) (state.connector.record client) begun := by
  obtain ⟨place, stamp, hinvariant⟩ := Reachable.sound h
  have hcursor : state.selector.cursor = some client := by rw [hposition]; rfl
  have hqueued := hinvariant.interest.cursor client hcursor
  have hread := (hinvariant.interest.fits client hqueued (Or.inr ⟨client, hcursor, le_rfl⟩)).1 hmem
  have hsession := hinvariant.consistent.sessions.session client
  rw [hqueued] at hsession
  cases hsession with
  | inl hawaits => exact hawaits
  | inr howes =>
    obtain ⟨_, _, _, howes⟩ := howes
    have hwrite := howes.replying.io_state
    rw [hread] at hwrite
    cases hwrite

/-- When `receive_message` completes a message, the bytes received so far are those
of the messages, and no more. -/
theorem Reachable.receive_complete (h : state.Reachable) {client : ClientPtr} {data : Bytes}
    (hposition : state.selector = .pass (some client))
    (hpossible : (state.connector.clients client).io_possible state.read_fd_set state.write_fd_set (.received data))
    (hcomplete : (state.connector.receive_message client (.received data)).2 = true) :
    ((state.connector.receive_message client (.received data)).1.record client).received =
      (((state.connector.receive_message client (.received data)).1.record client).messages.map
        Message.contents).flatten := by
  unfold NetClient.io_possible at hpossible
  split at hpossible
  · cases hpossible
  · split at hpossible
    · next hmem =>
      obtain ⟨begun, hawaits⟩ := Reachable.awaits h hposition hmem
      obtain ⟨hrecorded, hremainder⟩ := hawaits.recorded_receive hpossible.2.2
      have hwhole := next_message_incremental.messages_contents next_message_contents
        ((state.connector.record client).received ++ data)
      have hrecord : (state.connector.receive_message client (.received data)).1.record client =
          Connector.received_record (state.connector.record client) (state.connector.clients client)
            ((state.connector.clients client).receive data).1 data
            ((state.connector.clients client).receive data).2 := by
        rw [receive_message_received]
        exact Function.update_self ..
      have hdone : ((state.connector.clients client).receive data).2 = true := by
        rw [receive_message_received] at hcomplete
        exact hcomplete
      rw [hdone, if_pos rfl] at hremainder
      rw [hremainder, List.append_nil] at hwhole
      rw [hrecord, hrecorded.messages]
      exact hwhole.symm
    · split at hpossible
      · cases hpossible
      · cases hpossible

/-- The messages of a connection are those of the byte stream of its peer, each one
the next `message_size` bytes, in whatever pieces `recv()` delivers the stream. -/
theorem messages_independent_of_fragmentation (hfirst : first.Reachable) (hsecond : second.Reachable)
    (connection other : Nat) (stream : Bytes)
    (hbegins : (first.connector.history connection).received <+: stream)
    (hbegins' : (second.connector.history other).received <+: stream) :
    (first.connector.history connection).messages <+: messages next_message stream ∧
      (second.connector.history other).messages <+: messages next_message stream ∧
      ((first.connector.history connection).received = (second.connector.history other).received →
        (first.connector.history connection).messages = (second.connector.history other).messages) ∧
      (∃ begun, next_message begun = none ∧
        (first.connector.history connection).received =
          ((first.connector.history connection).messages.map Message.contents).flatten ++ begun) ∧
      ∀ client data, first.selector = .pass (some client) →
        (first.connector.clients client).io_possible first.read_fd_set first.write_fd_set (.received data) →
        (first.connector.receive_message client (.received data)).2 = true →
        ((first.connector.receive_message client (.received data)).1.record client).received =
          (((first.connector.receive_message client (.received data)).1.record client).messages.map
            Message.contents).flatten := by
  have hrecorded := (Reachable.recorded hfirst connection).messages
  have hrecorded' := (Reachable.recorded hsecond other).messages
  refine ⟨?_, ?_, ?_, ?_, ?_⟩
  · rw [hrecorded]
    exact next_message_incremental.messages_prefix hbegins
  · rw [hrecorded']
    exact next_message_incremental.messages_prefix hbegins'
  · intro hsame
    rw [hrecorded, hrecorded', hsame]
  · refine ⟨remainder next_message (first.connector.history connection).received,
      next_message_incremental.next_remainder _, ?_⟩
    rw [hrecorded]
    exact (next_message_incremental.messages_contents next_message_contents _).symm
  · intro client data hposition hpossible hcomplete
    exact Reachable.receive_complete hfirst hposition hpossible hcomplete

theorem messages_independent_of_fragmentation_echo : ∃ first second : State BoundedBuffer,
    (first.connector.history 0).received = [0, 0, 0, 4] ∧ (second.connector.history 0).received = [0, 0, 0, 4] ∧
      (first.connector.history 0).messages = (second.connector.history 0).messages := by
  obtain ⟨first, hfirst, hreceived⟩ := exists_reachesFrom_of_run
    (by decide +kernel : ((run State.step (State.initial BoundedBuffer (.filled 0xA5)) echo_run).any
      fun state => (state.connector.history 0).received = [0, 0, 0, 4]) = true)
  obtain ⟨second, hsecond, hreceived'⟩ := exists_reachesFrom_of_run
    (by decide +kernel : ((run State.step (State.initial BoundedBuffer (.filled 0xA5))
        (Action.startup ++ Action.accept_round 6 23 [] ++
      Action.round [6] [] [] (Action.complete 23 none [0, 0, 0, 4]))).any
        fun state => (state.connector.history 0).received = [0, 0, 0, 4]) = true)
  simp only [decide_eq_true_eq] at hreceived hreceived'
  obtain ⟨_, _, hsame, _⟩ := messages_independent_of_fragmentation hfirst hsecond 0 0 [0, 0, 0, 4]
    (by rw [hreceived]) (by rw [hreceived'])
  exact ⟨first, second, hreceived, hreceived', hsame (hreceived.trans hreceived'.symm)⟩

end State

end ufh
