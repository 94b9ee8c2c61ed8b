import UniversalFencingHub.ServerConnector.Affects

namespace ufh

section

variable {Buf : Type} [CharBuffer Buf] {connector : Connector Buf} {place : ClientPtr → Place}
  {stamp : ClientPtr → Nat} {client : ClientPtr}

/-- The client that a worker takes off `action_queue`. -/
theorem Consistent.take_action (h : Consistent connector place stamp) (thread : Thread) :
    (connector.action_queue.head_node = none ∧ connector.take_action = (none, connector)) ∨
      ∃ client, connector.action_queue.head_node = some client ∧ place client = .pending ∧
        connector.take_action.1 = some client ∧ Affects client connector connector.take_action.2 ∧
        Consistent connector.take_action.2 (Function.update place client (.held thread .completed)) stamp ∧
        connector.take_action.2.com_queue = connector.com_queue ∧
        connector.take_action.2.nodes = (connector.action_queue.remove_first connector.nodes).2.2 := by
  obtain ⟨hhead, hnone⟩ | ⟨client, hhead, hpending, hfirst, hconsistent⟩ := h.action_remove_first thread
  · left
    refine ⟨hhead, ?_⟩
    simp only [Connector.take_action, hnone]
  · right
    obtain ⟨earlier, message, hholds⟩ : Session (.held thread .completed)
        (connector.action_remove_first.2.clients client) (connector.action_remove_first.2.record client) := by
      have hsession := hconsistent.sessions.session client
      rwa [Function.update_self] at hsession
    have htaken : connector.take_action = (some client, connector.action_remove_first.2.set_client client
        { connector.action_remove_first.2.clients client with current_phase := .EXECUTING }) := by
      unfold Connector.take_action
      generalize connector.action_remove_first = removed at hfirst ⊢
      obtain ⟨first, rest⟩ := removed
      simp only at hfirst
      subst hfirst
      rfl
    have hreceived : NetClient.Received
        { connector.action_remove_first.2.clients client with current_phase := .EXECUTING } message :=
      hholds.received.of_same ⟨rfl, rfl, rfl, rfl⟩ (Or.inr rfl) rfl ⟨rfl, rfl⟩
    have hcapacities := (hconsistent.sessions.capacities client).of_same
      (⟨rfl, rfl, rfl, rfl⟩ : NetClient.SameBuffers
        { connector.action_remove_first.2.clients client with current_phase := .EXECUTING } _)
    refine ⟨client, hhead, hpending, ?_, ?_, ?_, ?_, ?_⟩
    · rw [htaken]
    · rw [htaken]
      exact .of_update rfl rfl rfl
    · rw [htaken, ← Function.update_idem (.held thread .completed) (.held thread .completed) place]
      refine hconsistent.change rfl (Function.update_eq_self _ _).symm ⟨rfl, rfl⟩ rfl rfl ?_ (by simp) (by simp) rfl
        ⟨rfl, rfl⟩ hcapacities (hconsistent.sessions.recorded _) ⟨earlier, message, hholds.of_received hreceived rfl⟩
      rw [Function.update_idem]
      exact hconsistent.linked
    · rw [htaken]
      rfl
    · rw [htaken]
      rfl

theorem process_eq (connector : Connector Buf) (client : ClientPtr) (success_flag : Bool) :
    connector.process client success_flag =
      ({ connector with
          clients := Function.update connector.clients client
            ((connector.clients client).process_client_message success_flag).client
          history := Function.update connector.history (connector.connection client)
            { connector.record client with
              dispatched := (connector.record client).dispatched ++ [(connector.clients client).header.msg_type]
              dialogue := (connector.record client).dialogue ++
                (((connector.clients client).process_client_message success_flag).call.map
                  (Event.call · success_flag)).toList } },
        ((connector.clients client).process_client_message success_flag).outcome) := rfl

/-- The place of a client after its message has been processed. -/
def processed_place (thread : Thread) (phase : Phase) (outcome : Except Exception Unit) : Place :=
  match outcome with
  | .error _ => .lost
  | .ok () => .held thread (if phase = .RECV ∨ phase = .SEND then .answered else .ended)

/-- Processing the message of a client that a thread holds. The exception
escapes exactly when the message is one that the server abandons. -/
theorem Consistent.process [LawfulCharBuffer Buf] (h : Consistent connector place stamp) {thread : Thread}
    (hheld : place client = .held thread .completed) (success_flag : Bool) :
    Affects client connector (connector.process client success_flag).1 ∧
      SameQueues connector (connector.process client success_flag).1 ∧
      Consistent (connector.process client success_flag).1
        (Function.update place client
          (processed_place thread ((connector.process client success_flag).1.clients client).current_phase
            (connector.process client success_flag).2)) stamp ∧
      ((connector.process client success_flag).2 = .ok () ↔
          (connector.clients client).message.response ≠ .abandon) := by
  have hsession := h.sessions.session client
  rw [hheld] at hsession
  obtain ⟨earlier, message, hholds⟩ := hsession
  have hmessage := hholds.received.message_eq
  have htype := hholds.received.msg_type
  obtain ⟨_, hfd, hcapacities⟩ := hholds.received.process success_flag
  obtain ⟨hrecorded, hcontinues⟩ := hholds.process success_flag
  have hfree : place client ≠ .free := by simp [hheld]
  rw [process_eq, hmessage, htype]
  simp only [Function.update_self]
  generalize (connector.clients client).process_client_message success_flag = processed at *
  refine ⟨.of_update rfl rfl hfd, ⟨rfl, rfl, rfl⟩, ?_, ?_⟩
  · have hmoved : ∀ target : Place, target.OffLists →
        Session target processed.client (processed_record
            (connector.record client) message processed.call success_flag) →
        Consistent { connector with
          clients := Function.update connector.clients client processed.client
          history := Function.update connector.history (connector.connection client)
            (processed_record (connector.record client) message processed.call success_flag) }
          (Function.update place client target) stamp := by
      intro target htarget htargetSession
      have hoff : (place client).OffLists := by rw [hheld]; trivial
      exact h.change rfl rfl ⟨rfl, rfl⟩ rfl rfl (h.linked.rename hoff htarget) hfree (Place.not_listed htarget).1 hfd
        ⟨rfl, rfl⟩ hcapacities hrecorded htargetSession
    have hanswered : ∀ reply, OwesReply processed.client
        (processed_record (connector.record client) message processed.call success_flag) reply 0 success_flag →
        processed.client.current_phase = .SEND := fun reply howes => howes.replying.current_phase
    cases hresponse : message.response with
    | echo =>
      rw [hresponse] at hcontinues
      obtain ⟨houtcome, howes⟩ := hcontinues
      rw [houtcome, hanswered _ howes]
      exact hmoved _ trivial ⟨_, _, _, howes⟩
    | fence method nodename secret =>
      rw [hresponse] at hcontinues
      obtain ⟨houtcome, howes⟩ := hcontinues
      rw [houtcome, hanswered _ howes]
      exact hmoved _ trivial ⟨_, _, _, howes⟩
    | hang_up =>
      rw [hresponse] at hcontinues
      obtain ⟨houtcome, hrecv, hsend⟩ := hcontinues
      rw [houtcome, processed_place, if_neg (by simp [hrecv, hsend])]
      exact hmoved _ trivial trivial
    | abandon =>
      rw [hresponse] at hcontinues
      rw [show processed.outcome = _ from hcontinues]
      exact hmoved _ trivial trivial
  · cases hresponse : message.response with
    | echo =>
      rw [hresponse] at hcontinues
      simp [hcontinues.1]
    | fence method nodename secret =>
      rw [hresponse] at hcontinues
      simp [hcontinues.1]
    | hang_up =>
      rw [hresponse] at hcontinues
      simp [hcontinues.1]
    | abandon =>
      rw [hresponse] at hcontinues
      simp [show processed.outcome = _ from hcontinues]

end

end ufh
