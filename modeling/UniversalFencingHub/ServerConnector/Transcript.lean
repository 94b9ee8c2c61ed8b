import UniversalFencingHub.ServerConnector.Sessions

open framing

namespace ufh

/-- What a connection learns from outside: the result of a system call on its socket, or what the
plugin returns while one of its messages is processed. -/
inductive Input where
  | io (result : IoResult)
  | plugin (success_flag : Bool)
  deriving DecidableEq

/-- The plugin calls that a message leads to. -/
def Response.calls (success_flag : Bool) : Response → List Event
  | .fence method nodename _ => [.call { function := method.plugin_function, nodename } success_flag]
  | _ => []

/-- The bytes with which a message is answered. -/
def Response.reply (success_flag : Bool) : Response → List Event
  | .echo => reply_events .ECHO_REPLY
  | .fence _ _ _ => reply_events (NetClient.fence_reply success_flag)
  | _ => []

/-- What the plugin has returned. -/
def Event.plugin_result : Event → Option Bool
  | .call _ success_flag => some success_flag
  | _ => none

/-- A connection as its inputs determine it. No client object has a part in it. -/
structure Transcript where
  received : Bytes := []
  messages : List Message := []
  dispatched : List UInt16 := []
  dialogue : List Event := []
  /-- the node names and secrets passed to methods of class `Server` -/
  passed : List (Bytes × Bytes) := []
  /-- the rest of the last reply -/
  owed : List Event := []

namespace Transcript

def next (transcript : Transcript) : Input → Transcript
  | .io (.received data) =>
    let received := transcript.received ++ data
    let completed := (framing.messages next_message received).drop transcript.messages.length
    { transcript with
      received
      messages := transcript.messages ++ completed
      dialogue := transcript.dialogue ++ completed.map .message }
  | .io (.sent count) =>
    { transcript with
      dialogue := transcript.dialogue ++ transcript.owed.take count
      owed := transcript.owed.drop count }
  | .io _ => transcript
  | .plugin success_flag =>
    match transcript.messages.getLast? with
    | some message =>
      { transcript with
        dispatched := transcript.dispatched ++ [message.msg_type]
        dialogue := transcript.dialogue ++ message.response.calls success_flag
        passed := transcript.passed ++ message.response.arguments.toList
        owed := message.response.reply success_flag }
    | none => transcript

/-- The record of a connection says what its transcript says. -/
structure Describes (transcript : Transcript) (record : History) (passed : List (Bytes × Bytes)) : Prop where
  received : record.received = transcript.received
  messages : record.messages = transcript.messages
  dispatched : record.dispatched = transcript.dispatched
  dialogue : record.dialogue = transcript.dialogue
  passed : passed = transcript.passed
  owed : transcript.dispatched.length = transcript.messages.length →
    ∃ success_flag, transcript.dialogue ++ transcript.owed = ufh.dialogue success_flag transcript.messages
  silent : transcript.owed.filterMap Event.plugin_result = []

section

variable {Buf : Type} [CharBuffer Buf] {client : NetClient Buf} {transcript : Transcript} {record : History}
  {passed : List (Bytes × Bytes)}

theorem events_eq (success_flag : Bool) (response : Response) :
    response.events success_flag = response.calls success_flag ++ response.reply success_flag := by
  cases response with
  | _ => rfl

theorem reply_events_silent (reply : protocol.MsgType) : (reply_events reply).filterMap Event.plugin_result = [] := by
  apply List.filterMap_eq_nil_iff.mpr
  intro event hevent
  obtain ⟨byte, _, rfl⟩ := List.mem_map.mp hevent
  rfl

theorem reply_silent (success_flag : Bool) (response : Response) :
    (response.reply success_flag).filterMap Event.plugin_result = [] := by
  cases response with
  | echo => exact reply_events_silent .ECHO_REPLY
  | fence method nodename secret => exact reply_events_silent (NetClient.fence_reply success_flag)
  | hang_up => rfl
  | abandon => rfl

/-- A dialogue depends on the result of the plugin only when it contains it. -/
theorem dialogue_of_plugin_result {success_flag success_flag' : Bool} {messages : List Message}
    (h : (ufh.dialogue success_flag messages).filterMap Event.plugin_result =
      (ufh.dialogue success_flag' messages).filterMap Event.plugin_result) :
    ufh.dialogue success_flag messages = ufh.dialogue success_flag' messages := by
  induction messages with
  | nil => rfl
  | cons message rest ih =>
    cases hresponse : message.response with
    | echo =>
      simp only [ufh.dialogue, hresponse, Response.events, if_true, List.filterMap_cons, List.filterMap_append,
        Event.plugin_result, List.append_cancel_left_eq] at h ⊢
      rw [ih h]
    | fence method nodename secret =>
      simp only [ufh.dialogue, hresponse, Response.events, List.filterMap_cons, Event.plugin_result,
        reply_events_silent, reduceCtorEq, if_false, List.append_nil, List.cons.injEq, and_true] at h
      rw [h]
    | hang_up => simp [ufh.dialogue, hresponse, Response.events]
    | abandon => simp [ufh.dialogue, hresponse, Response.events]

/-- What is left of a dialogue is determined by what has been said. -/
theorem rest_unique {said first second : List Event} {success_flag success_flag' : Bool} {messages : List Message}
    (hfirst : said ++ first = ufh.dialogue success_flag messages)
    (hsecond : said ++ second = ufh.dialogue success_flag' messages)
    (hsilent : first.filterMap Event.plugin_result = []) (hsilent' : second.filterMap Event.plugin_result = []) :
    first = second := by
  have hsame : ufh.dialogue success_flag messages = ufh.dialogue success_flag' messages := by
    apply dialogue_of_plugin_result
    rw [← hfirst, ← hsecond, List.filterMap_append, List.filterMap_append, hsilent, hsilent']
  rw [← hfirst, ← hsecond] at hsame
  exact List.append_cancel_left hsame

theorem describes_start (socket : Int) : ({} : Transcript).Describes { socket } [] :=
  ⟨rfl, rfl, rfl, rfl, rfl, fun _ => ⟨true, rfl⟩, rfl⟩

/-- Bytes received for a client that waits for a message. -/
theorem Describes.receive (h : transcript.Describes record passed) {begun data : Bytes}
    (hawaits : AwaitsMessage client record begun) (hsize : data.length ≤ client.req_read_size) :
    (transcript.next (.io (.received data))).Describes
      (Connector.received_record record client (client.receive data).1 data (client.receive data).2) passed := by
  obtain ⟨hrecorded, _⟩ := hawaits.recorded_receive hsize
  have hmessages := hrecorded.messages
  have hdispatched := congrArg List.length hawaits.dispatched
  rw [List.length_map, h.messages, h.dispatched] at hdispatched
  simp only [Connector.received_record, h.received, h.messages] at hmessages
  cases hcomplete : (client.receive data).2 with
  | false =>
    simp only [hcomplete, Bool.false_eq_true, if_false] at hmessages
    refine ⟨?_, ?_, h.dispatched, ?_, h.passed, ?_, h.silent⟩
    · simp [Connector.received_record, next, h.received]
    · simp [Connector.received_record, next, h.messages, ← hmessages]
    · simp [Connector.received_record, next, h.dialogue, ← hmessages]
    · simpa [next, ← hmessages] using h.owed
  | true =>
    simp only [hcomplete, if_true] at hmessages
    refine ⟨?_, ?_, h.dispatched, ?_, h.passed, fun heq => ?_, h.silent⟩
    · simp [Connector.received_record, next, h.received]
    · simp [Connector.received_record, next, h.messages, ← hmessages]
    · simp [Connector.received_record, next, h.dialogue, ← hmessages]
    · simp [next, ← hmessages, hdispatched] at heq

/-- Bytes sent for a client that owes a reply. -/
theorem Describes.send (h : transcript.Describes record passed) {reply : protocol.MsgType} {count write_size : Nat}
    {success_flag : Bool} (howes : OwesReply client record reply count success_flag)
    (hsize : write_size ≤ client.prepare_send.req_write_size) :
    (transcript.next (.io (.sent write_size))).Describes
      (sent_record record (client.prepare_send.outgoing write_size)) passed := by
  have hdispatched := congrArg List.length howes.dispatched
  rw [List.length_map, h.messages, h.dispatched] at hdispatched
  obtain ⟨success_flag', howed⟩ := h.owed hdispatched
  have hdialogue := howes.dialogue
  rw [h.dialogue, h.messages] at hdialogue
  have hrest : ((reply_events reply).drop count).filterMap Event.plugin_result = [] := by
    apply List.filterMap_eq_nil_iff.mpr
    intro event hevent
    exact List.filterMap_eq_nil_iff.mp (reply_events_silent reply) event (List.mem_of_mem_drop hevent)
  have hsame : transcript.owed = (reply_events reply).drop count := rest_unique howed hdialogue h.silent hrest
  refine ⟨h.received, h.messages, h.dispatched, ?_, h.passed, fun _ => ⟨success_flag', ?_⟩, ?_⟩
  · simp only [sent_record, next, h.dialogue, hsame, howes.sent_events hsize]
  · simpa [next] using howed
  · apply List.filterMap_eq_nil_iff.mpr
    intro event hevent
    exact List.filterMap_eq_nil_iff.mp h.silent event (List.mem_of_mem_drop hevent)

/-- The last message of a connection is processed. -/
theorem Describes.process [LawfulCharBuffer Buf] (h : transcript.Describes record passed) {earlier : List Message}
    {message : Message} (hholds : HoldsMessage client record earlier message) (success_flag : Bool) :
    (transcript.next (.plugin success_flag)).Describes
      (processed_record record message (client.process_client_message success_flag).call success_flag)
      (passed ++ (client.fence_arguments success_flag).toList) := by
  have hmessages := hholds.messages
  rw [h.messages] at hmessages
  have hlast : transcript.messages.getLast? = some message := by rw [hmessages, List.getLast?_concat]
  have hcall : ((client.process_client_message success_flag).call.map (Event.call · success_flag)).toList =
      message.response.calls success_flag := by
    obtain ⟨hanswers, _⟩ := hholds.received.process success_flag
    cases hresponse : message.response with
    | echo =>
      rw [hresponse] at hanswers
      rw [hanswers.2.2.1]
      rfl
    | fence method nodename secret =>
      rw [hresponse] at hanswers
      rw [hanswers.2.2.1]
      rfl
    | hang_up =>
      rw [hresponse] at hanswers
      rw [hanswers.2.2.1]
      rfl
    | abandon =>
      rw [hresponse] at hanswers
      rw [hanswers.1]
      rfl
  have hdialogue := hholds.dialogue success_flag
  rw [h.dialogue] at hdialogue
  have hnext : transcript.next (.plugin success_flag) =
      { transcript with
        dispatched := transcript.dispatched ++ [message.msg_type]
        dialogue := transcript.dialogue ++ message.response.calls success_flag
        passed := transcript.passed ++ message.response.arguments.toList
        owed := message.response.reply success_flag } := by
    simp only [next, hlast]
  rw [hnext]
  refine ⟨h.received, h.messages, ?_, ?_, ?_, fun _ => ⟨success_flag, ?_⟩, reply_silent _ _⟩
  · simp only [processed_record, h.dispatched]
  · simp only [processed_record, h.dialogue, hcall]
  · rw [h.passed, hholds.received.fence_arguments_eq]
  · simp only
    rw [List.append_assoc, ← events_eq, hdialogue, hmessages, dialogue_append_of_echo [message] hholds.echoes,
      dialogue_singleton, List.append_assoc, List.singleton_append]

end

end Transcript

end ufh
