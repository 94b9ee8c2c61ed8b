import UniversalFencingHub.Threads.Effects

open linked_list transition

namespace ufh

/-- The positions of the selector at which the stop signal has been tested and
`select()` has not returned yet. -/
def SelectorPosition.tested : SelectorPosition → Bool
  | .build_lock => true
  | .build => true
  | .select => true
  | _ => false

/-- The positions between `pipe()` and the end of `cleanup()`. -/
def SelectorPosition.has_pipe : SelectorPosition → Bool
  | .init => false
  | .stop_lock => false
  | .stop => false
  | .join => false
  | .finished => false
  | _ => true

/-- The positions inside the loop of `selector_loop`. -/
def SelectorPosition.selecting (position : SelectorPosition) : Bool :=
  position.looping && position ≠ .enable_wakeup

/-- The positions behind the call of `signal` in `cleanup()`. -/
def SelectorPosition.stopped : SelectorPosition → Bool
  | .cleanup_com => true
  | .stop_lock => true
  | .stop => true
  | .join => true
  | .finished => true
  | _ => false

/-- The positions at which the signal handler may know the trigger pipe. -/
def SelectorPosition.wakeup_enabled : SelectorPosition → Bool
  | .init => false
  | .enable_wakeup => false
  | .cleanup_signal => false
  | .cleanup_com => false
  | .stop_lock => false
  | .stop => false
  | .join => false
  | .finished => false
  | _ => true

/-- A move of the selector that neither enables nor ends the use of the trigger pipe. -/
def SelectorPosition.same_use (before after : SelectorPosition) : Bool :=
  (before.has_pipe → after.has_pipe) && (before.wakeup_enabled → after.wakeup_enabled) &&
    (after.selecting → before.selecting) && (after.stopped → before.stopped)

/-- The steps that begin or end the use of the trigger pipe. -/
def Action.on_trigger : Action → Bool
  | .init _ _ _ _ => true
  | .enable_wakeup => true
  | .cleanup_disable => true
  | .cleanup_signal => true
  | .cleanup_com => true
  | _ => false

theorem SelectorPosition.Next.same_use {position next : SelectorPosition} {action : Action}
    (h : position.Next action next) (haction : action.on_trigger = false) : position.same_use next = true := by
  cases h with
  | opened => cases haction
  | not_opened => cases haction
  | enabled => cases haction
  | disabled => cases haction
  | signal_sent => cases haction
  | com_closed => cases haction
  | com_emptied => cases haction
  | _ => rfl

namespace State

variable {Buf : Type} {before after state : State Buf} {place : ClientPtr → Place} {stamp : ClientPtr → Nat}
  {client : ClientPtr} {id : WorkerId} {action : Action}

theorem write_pipe_bytes (state : State Buf) :
    0 < state.write_pipe.pipe_bytes ∧ state.pipe_bytes ≤ state.write_pipe.pipe_bytes := by
  unfold write_pipe PIPE_CAPACITY
  constructor
  · simp only
    split
    · omega
    · omega
  · simp only
    split
    · omega
    · omega

theorem wakeup_selector_bytes (state : State Buf) : state.pipe_bytes ≤ state.wakeup_selector.pipe_bytes := by
  unfold wakeup_selector
  split
  · exact (write_pipe_bytes state).2
  · exact le_rfl

/-- A step of another thread: it leaves the view of the selector alone, and it
takes no byte out of the trigger pipe. -/
structure Aside (before after : State Buf) : Prop extends SameView before after where
  wakeup_fd : after.wakeup_fd = before.wakeup_fd
  keeps_open : KeepsOpen before.connector after.connector
  signal_flag : before.signal_flag = true → after.signal_flag = true
  pipe_bytes : before.pipe_bytes ≤ after.pipe_bytes
  alerted : after.signal_flag = true → after.handler ≠ .flagged →
    before.signal_flag = true ∧ before.handler ≠ .flagged ∨
    (before.wakeup_fd ≠ sys.FD_NONE → 0 < after.pipe_bytes)

/-- The steps that the signal handler does not take. -/
theorem SameView.aside (hview : SameView before after) (hwakeup : after.wakeup_fd = before.wakeup_fd)
    (hopen : KeepsOpen before.connector after.connector) (hbytes : before.pipe_bytes ≤ after.pipe_bytes)
    (hflag : after.signal_flag = before.signal_flag) (hhandler : after.handler = before.handler) :
    Aside before after where
  toSameView := hview
  wakeup_fd := hwakeup
  keeps_open := hopen
  signal_flag hsignal := hflag.trans hsignal
  pipe_bytes := hbytes
  alerted hsignal hhandled := Or.inl ⟨hflag.symm.trans hsignal, hhandler ▸ hhandled⟩

theorem aside_hand_back [CharBuffer Buf] (state : State Buf) (id : WorkerId) (client : ClientPtr) :
    Aside state (state.hand_back id client) := by
  unfold State.hand_back
  simp only
  split
  · exact SameView.aside ⟨rfl, rfl, rfl, rfl⟩ rfl (affects_close_connection _ client).keeps_open le_rfl rfl rfl
  · have hbytes := wakeup_selector_bytes
      { state.set_worker id .relock with connector := (state.set_worker id .relock).connector.com_add_last client }
    obtain ⟨pipe_bytes, hwakeup⟩ := wakeup_selector_eq
      { state.set_worker id .relock with connector := (state.set_worker id .relock).connector.com_add_last client }
    rw [hwakeup] at hbytes ⊢
    exact SameView.aside ⟨rfl, rfl, rfl, rfl⟩ rfl (.of_eq rfl) hbytes rfl rfl

theorem aside_take (state : State Buf) (id : WorkerId) : Aside state (state.take id) := by
  obtain ⟨hopen, _⟩ := take_action_kept state.connector
  unfold State.take
  split
  · next heq =>
    rw [heq] at hopen
    exact SameView.aside ⟨rfl, rfl, rfl, rfl⟩ rfl (.of_eq hopen) le_rfl rfl rfl
  · next heq =>
    rw [heq] at hopen
    exact SameView.aside ⟨rfl, rfl, rfl, rfl⟩ rfl (.of_eq hopen) le_rfl rfl rfl

theorem aside_process [CharBuffer Buf] (state : State Buf) (id : WorkerId) (client : ClientPtr) (success_flag : Bool) :
    Aside state (state.process id client success_flag) := by
  unfold State.process
  simp only
  split
  · exact SameView.aside ⟨rfl, rfl, rfl, rfl⟩ rfl (.of_eq rfl) le_rfl rfl rfl
  · exact SameView.aside ⟨rfl, rfl, rfl, rfl⟩ rfl (.of_eq rfl) le_rfl rfl rfl

theorem aside_test_stop (state : State Buf) (id : WorkerId) : Aside state (state.test_stop id) := by
  unfold State.test_stop
  split
  · exact SameView.aside ⟨rfl, rfl, rfl, rfl⟩ rfl (.of_eq rfl) le_rfl rfl rfl
  · exact SameView.aside ⟨rfl, rfl, rfl, rfl⟩ rfl (.of_eq rfl) le_rfl rfl rfl

theorem aside_handler_write (state : State Buf) : Aside state state.ufh_signal_handler_write := by
  unfold ufh_signal_handler_write
  split
  · exact ⟨⟨rfl, rfl, rfl, rfl⟩, rfl, .of_eq rfl, id, (write_pipe_bytes state).2,
      fun _ _ => Or.inr fun _ => (write_pipe_bytes state).1⟩
  · next hdisabled =>
    exact ⟨⟨rfl, rfl, rfl, rfl⟩, rfl, .of_eq rfl, id, le_rfl, fun _ _ => Or.inr fun hvalid => absurd hvalid hdisabled⟩

/-- The steps of the other threads. -/
theorem act_aside [CharBuffer Buf] (hact : before.act action = some after) (haction : action.by_selector = false) :
    Aside before after := by
  cases action with
  | worker_lock id =>
    obtain ⟨_, rfl⟩ := only_if_eq_some.mp hact
    exact SameView.aside ⟨rfl, rfl, rfl, rfl⟩ rfl (.of_eq rfl) le_rfl rfl rfl
  | worker_test id =>
    obtain ⟨_, rfl⟩ := only_if_eq_some.mp hact
    exact aside_test_stop before id
  | worker_take id =>
    obtain ⟨_, rfl⟩ := only_if_eq_some.mp hact
    exact aside_take before id
  | worker_process id client success_flag =>
    obtain ⟨_, rfl⟩ := only_if_eq_some.mp hact
    exact aside_process before id client success_flag
  | worker_hand_back_lock id client =>
    obtain ⟨_, rfl⟩ := only_if_eq_some.mp hact
    exact SameView.aside ⟨rfl, rfl, rfl, rfl⟩ rfl (.of_eq rfl) le_rfl rfl rfl
  | worker_hand_back id client =>
    obtain ⟨_, rfl⟩ := only_if_eq_some.mp hact
    exact aside_hand_back before id client
  | worker_close id client =>
    obtain ⟨_, rfl⟩ := only_if_eq_some.mp hact
    exact SameView.aside ⟨rfl, rfl, rfl, rfl⟩ rfl (affects_close_connection _ client).keeps_open le_rfl rfl rfl
  | worker_relock id =>
    obtain ⟨_, rfl⟩ := only_if_eq_some.mp hact
    exact SameView.aside ⟨rfl, rfl, rfl, rfl⟩ rfl (.of_eq rfl) le_rfl rfl rfl
  | worker_wait id =>
    obtain ⟨_, rfl⟩ := only_if_eq_some.mp hact
    exact SameView.aside ⟨rfl, rfl, rfl, rfl⟩ rfl (.of_eq rfl) le_rfl rfl rfl
  | worker_wake id =>
    obtain ⟨_, rfl⟩ := only_if_eq_some.mp hact
    exact SameView.aside ⟨rfl, rfl, rfl, rfl⟩ rfl (.of_eq rfl) le_rfl rfl rfl
  | signal =>
    obtain ⟨hidle, rfl⟩ := only_if_eq_some.mp hact
    exact ⟨⟨rfl, rfl, rfl, rfl⟩, rfl, .of_eq rfl, id, le_rfl, fun hflag _ => Or.inl ⟨hflag, by rw [hidle]; simp⟩⟩
  | signal_flag =>
    obtain ⟨_, rfl⟩ := only_if_eq_some.mp hact
    exact ⟨⟨rfl, rfl, rfl, rfl⟩, rfl, .of_eq rfl, fun _ => rfl, le_rfl, fun _ hhandler => absurd rfl hhandler⟩
  | signal_write =>
    obtain ⟨_, rfl⟩ := only_if_eq_some.mp hact
    exact aside_handler_write before
  | _ => cases haction

/-- The descriptor of the trigger pipe to which others write. -/
structure Trigger (state : State Buf) : Prop where
  opened : state.trigger_write ≠ sys.FD_NONE →
    0 ≤ state.trigger_write ∧ state.trigger_write ∈ state.connector.open_fds ∧ state.selector.has_pipe = true
  apart : state.trigger_write ≠ sys.FD_NONE → state.socket_fd ≠ state.trigger_write
  wakeup : state.wakeup_fd ≠ sys.FD_NONE →
    state.wakeup_fd = state.trigger_write ∧ state.selector.wakeup_enabled = true
  enabled : state.selector.selecting = true → state.wakeup_fd = state.trigger_write
  stopped : state.selector.stopped = true → state.signal_flag = true

/-- A step that leaves the descriptors of the trigger pipe alone. -/
theorem Trigger.keep (h : before.Trigger) (hown : before.OwnDescriptors) (hfds : after.own_fds = before.own_fds)
    (hwakeup : after.wakeup_fd = before.wakeup_fd) (hopen : KeepsOpen before.connector after.connector)
    (hmove : before.selector.same_use after.selector = true)
    (hflag : before.signal_flag = true → after.signal_flag = true) : after.Trigger := by
  simp only [own_fds, List.cons.injEq] at hfds
  obtain ⟨hsocket, _, hwrite, _⟩ := hfds
  simp only [SelectorPosition.same_use, Bool.and_eq_true, decide_eq_true_eq] at hmove
  obtain ⟨⟨⟨hpipe, henabled⟩, hselecting⟩, hstopped⟩ := hmove
  refine ⟨?_, ?_, ?_, ?_, ?_⟩
  · rw [hwrite]
    intro hvalid
    obtain ⟨hpositive, hmem, hposition⟩ := h.opened hvalid
    exact ⟨hpositive, hopen _ hmem (hown.apart _ (by simp [own_fds]) hpositive), hpipe hposition⟩
  · rw [hwrite, hsocket]
    exact h.apart
  · rw [hwakeup, hwrite]
    intro hvalid
    obtain ⟨hsame, hposition⟩ := h.wakeup hvalid
    exact ⟨hsame, henabled hposition⟩
  · rw [hwakeup, hwrite]
    exact fun hposition => h.enabled (hselecting hposition)
  · exact fun hposition => hflag (h.stopped (hstopped hposition))

theorem same_use_self (position : SelectorPosition) : position.same_use position = true := by
  simp [SelectorPosition.same_use]

theorem Trigger.aside (h : before.Trigger) (hown : before.OwnDescriptors) (haside : Aside before after) :
    after.Trigger := by
  apply h.keep hown haside.own_fds haside.wakeup_fd haside.keeps_open
  · rw [haside.selector]
    exact same_use_self _
  · exact haside.signal_flag

theorem Trigger.init {socket_fd trigger_read trigger_write : Int} {failed : Bool} (h : state.Trigger)
    (hposition : state.selector = .init)
    (hpossible : state.init_possible socket_fd trigger_read trigger_write failed) :
    (state.init socket_fd trigger_read trigger_write failed).Trigger := by
  obtain ⟨hfresh, hdistinct, _⟩ := hpossible
  have hnone : state.wakeup_fd = sys.FD_NONE := by
    by_contra hvalid
    obtain ⟨_, henabled⟩ := h.wakeup hvalid
    rw [hposition] at henabled
    cases henabled
  have hselector : (state.init socket_fd trigger_read trigger_write failed).selector = .cleanup_socket ∨
      (state.init socket_fd trigger_read trigger_write failed).selector = .enable_wakeup := ite_eq_or_eq _ _ _
  refine ⟨?_, ?_, fun hvalid => absurd hnone hvalid, ?_, ?_⟩
  · intro hvalid
    have hmem : trigger_write ∈ [socket_fd, trigger_read, trigger_write] := by simp
    have hopened := (hfresh trigger_write hmem).resolve_left hvalid
    refine ⟨hopened.1, ?_, ?_⟩
    · apply List.mem_append_left
      exact List.mem_filter.mpr ⟨hmem, by simpa using hvalid⟩
    · cases hselector with
      | inl hnow => rw [hnow]; rfl
      | inr hnow => rw [hnow]; rfl
  · intro hvalid heq
    change trigger_write ≠ sys.FD_NONE at hvalid
    change socket_fd = trigger_write at heq
    subst heq
    by_cases hread : trigger_read = sys.FD_NONE
    · simp [hread, hvalid] at hdistinct
    · simp [hread, hvalid] at hdistinct
  · intro hselecting
    cases hselector with
    | inl hnow => rw [hnow] at hselecting; cases hselecting
    | inr hnow => rw [hnow] at hselecting; cases hselecting
  · intro hstopped
    cases hselector with
    | inl hnow => rw [hnow] at hstopped; cases hstopped
    | inr hnow => rw [hnow] at hstopped; cases hstopped

theorem Trigger.cleanup_socket (h : state.Trigger) : state.cleanup_socket.Trigger := by
  refine ⟨?_, ?_, ?_, nofun, nofun⟩
  · intro hvalid
    obtain ⟨hpositive, hmem, _⟩ := h.opened hvalid
    exact ⟨hpositive, sys.mem_close_fd hmem (h.apart hvalid).symm, rfl⟩
  · exact fun hvalid heq => hvalid heq.symm
  · intro hvalid
    exact ⟨(h.wakeup hvalid).1, rfl⟩

/-- The end of the loop over `com_queue` closes the pipe, which the signal handler
does not know any more. -/
theorem Trigger.cleanup_com [CharBuffer Buf] (h : state.Trigger) (hown : state.OwnDescriptors)
    (hposition : state.selector = .cleanup_com) : state.cleanup_com.Trigger := by
  have hflag : state.signal_flag = true := h.stopped (by rw [hposition]; rfl)
  have hdisabled : ¬ state.wakeup_fd ≠ sys.FD_NONE := by
    intro hvalid
    have henabled := (h.wakeup hvalid).2
    rw [hposition] at henabled
    cases henabled
  unfold State.cleanup_com
  simp only [Connector.com_remove_first]
  split
  · next client connector hfirst =>
    obtain ⟨_, rfl⟩ := Prod.mk.inj hfirst
    refine h.keep hown rfl rfl ?_ (same_use_self _) (fun hsignal => hsignal)
    exact (affects_close_connection _ client).keeps_open
  · next connector hfirst =>
    obtain ⟨_, rfl⟩ := Prod.mk.inj hfirst
    refine ⟨fun hvalid => absurd rfl hvalid, fun hvalid => absurd rfl hvalid, ?_,
      (fun hdrains => by cases hdrains), fun _ => hflag⟩
    exact fun hvalid => absurd hvalid hdisabled

theorem accept_keeps_open [CharBuffer Buf] {connector : Connector Buf} {fd : Int} {accepted : ClientPtr × Connector Buf}
    (haccept : connector.accept fd = some accepted) : KeepsOpen connector accepted.2 := by
  unfold Connector.accept at haccept
  split at haccept
  · cases haccept
  · obtain rfl := Option.some.inj haccept
    intro other hother _
    simp only
    split
    · exact List.mem_cons_of_mem _ hother
    · exact hother

theorem Trigger.cleanup_action [CharBuffer Buf] (h : state.Trigger) (hown : state.OwnDescriptors)
    (hposition : state.selector = .cleanup_action) : state.cleanup_action.Trigger := by
  unfold State.cleanup_action
  simp only [Connector.action_remove_first]
  split
  · next client connector hfirst =>
    obtain ⟨_, rfl⟩ := Prod.mk.inj hfirst
    refine h.keep hown rfl rfl ?_ (same_use_self _) (fun hsignal => hsignal)
    exact (affects_close_connection _ client).keeps_open
  · next connector hfirst =>
    obtain ⟨_, rfl⟩ := Prod.mk.inj hfirst
    exact h.keep hown rfl rfl (.of_eq rfl) (by rw [hposition]; rfl) (fun hsignal => hsignal)

theorem Trigger.enable (h : state.Trigger) :
    Trigger { state with wakeup_fd := state.trigger_write, selector := .test_signal } := by
  refine ⟨?_, h.apart, fun _ => ⟨rfl, rfl⟩, fun _ => rfl, nofun⟩
  intro hvalid
  obtain ⟨hpositive, hmem, _⟩ := h.opened hvalid
  exact ⟨hpositive, hmem, rfl⟩

theorem Trigger.disable (h : state.Trigger) : state.disable_wakeup_fd.Trigger := by
  refine ⟨?_, h.apart, fun hvalid => absurd rfl hvalid, nofun, nofun⟩
  intro hvalid
  obtain ⟨hpositive, hmem, _⟩ := h.opened hvalid
  exact ⟨hpositive, hmem, rfl⟩

theorem Trigger.signal (h : state.Trigger) (hposition : state.selector = .cleanup_signal) : state.signal.Trigger := by
  refine ⟨?_, h.apart, ?_, nofun, fun _ => rfl⟩
  · intro hvalid
    obtain ⟨hpositive, hmem, _⟩ := h.opened hvalid
    exact ⟨hpositive, hmem, rfl⟩
  · intro hvalid
    have henabled := (h.wakeup hvalid).2
    rw [hposition] at henabled
    cases henabled

theorem Trigger.accept [CharBuffer Buf] (h : state.Trigger) (hown : state.OwnDescriptors)
    (hposition : state.selector = .accept) (fd : Int) : (state.accept fd).Trigger := by
  unfold State.accept
  cases haccept : state.connector.accept fd with
  | none =>
    refine h.keep hown rfl rfl (.of_eq rfl) ?_ (fun hflag => hflag)
    rw [hposition]
    cases after_accept_cases state with
    | inl hnow => simp only [hnow]; rfl
    | inr hnow => simp only [hnow]; rfl
  | some accepted =>
    refine h.keep hown rfl rfl (accept_keeps_open haccept) ?_ (fun hflag => hflag)
    rw [hposition]
    rfl

theorem Trigger.visit [CharBuffer Buf] (h : state.Trigger) (hown : state.OwnDescriptors)
    (hposition : state.selector = .pass (some client)) (result : IoResult) : (state.visit client result).Trigger := by
  by_cases hpipe : result = .broken_pipe
  · simp only [State.visit, if_pos hpipe]
    exact h.keep hown rfl rfl (.of_eq rfl) (same_use_self _) (fun hflag => hflag)
  · rw [visit_eq hpipe]
    refine h.keep hown rfl rfl (affects_perform_io _ _ _ client result).keeps_open ?_ (fun hflag => hflag)
    rw [hposition]
    simp only
    split
    · rfl
    · rfl

/-- Every step keeps the descriptor of the trigger pipe as it has to be. -/
theorem Trigger.act [CharBuffer Buf] (h : before.Trigger) (hown : before.OwnDescriptors)
    (hact : before.act action = some after) : after.Trigger := by
  cases haction : action.by_selector with
  | false => exact h.aside hown (act_aside hact haction)
  | true =>
    have hmove := (act_next hact haction).same_use
    cases action with
    | init socket_fd trigger_read trigger_write failed =>
      obtain ⟨⟨hposition, hpossible⟩, rfl⟩ := only_if_eq_some.mp hact
      exact h.init hposition hpossible
    | enable_wakeup =>
      obtain ⟨_, rfl⟩ := only_if_eq_some.mp hact
      exact h.enable
    | accept fd =>
      obtain ⟨⟨hposition, _⟩, rfl⟩ := only_if_eq_some.mp hact
      exact h.accept hown hposition fd
    | drain =>
      obtain ⟨_, rfl⟩ := only_if_eq_some.mp hact
      unfold State.drain at hmove ⊢
      by_cases hbytes : 0 < before.pipe_bytes
      · rw [if_pos hbytes] at hmove ⊢
        exact h.keep hown rfl rfl (.of_eq rfl) (hmove rfl) (fun hflag => hflag)
      · rw [if_neg hbytes] at hmove ⊢
        exact h.keep hown rfl rfl (.of_eq rfl) (hmove rfl) (fun hflag => hflag)
    | visit client result =>
      obtain ⟨⟨hposition, _⟩, rfl⟩ := only_if_eq_some.mp hact
      exact h.visit hown hposition result
    | enqueue client next_client target =>
      obtain ⟨_, rfl⟩ := only_if_eq_some.mp hact
      cases target with
      | none => exact h.keep hown rfl rfl (.of_eq rfl) (hmove rfl) (fun hflag => hflag)
      | some id => exact h.keep hown rfl rfl (.of_eq rfl) (hmove rfl) (fun hflag => hflag)
    | cleanup_socket =>
      obtain ⟨_, rfl⟩ := only_if_eq_some.mp hact
      exact h.cleanup_socket
    | cleanup_action =>
      obtain ⟨hposition, rfl⟩ := only_if_eq_some.mp hact
      exact h.cleanup_action hown hposition
    | cleanup_disable =>
      obtain ⟨_, rfl⟩ := only_if_eq_some.mp hact
      exact h.disable
    | cleanup_signal =>
      obtain ⟨⟨hposition, _⟩, rfl⟩ := only_if_eq_some.mp hact
      exact h.signal hposition
    | cleanup_com =>
      obtain ⟨hposition, rfl⟩ := only_if_eq_some.mp hact
      exact h.cleanup_com hown hposition
    | worker_lock | worker_test | worker_take | worker_process | worker_hand_back_lock | worker_hand_back | worker_close
    | worker_relock | worker_wait | worker_wake | signal | signal_flag | signal_write => cases haction
    | _ =>
      obtain ⟨_, rfl⟩ := only_if_eq_some.mp hact
      exact h.keep hown rfl rfl (.of_eq rfl) (hmove rfl) (fun hflag => hflag)

theorem initial_trigger (Buf : Type) [CharBuffer Buf] (memory : ClientMemory) : (initial Buf memory).Trigger :=
  ⟨fun hvalid => absurd rfl hvalid, fun hvalid => absurd rfl hvalid, fun hvalid => absurd rfl hvalid, nofun, nofun⟩

theorem Reachable.own [CharBuffer Buf] [LawfulCharBuffer Buf] (h : state.Reachable) : state.OwnDescriptors := by
  obtain ⟨_, _, hinvariant⟩ := Reachable.sound h
  exact hinvariant.own

theorem Reachable.trigger [CharBuffer Buf] [LawfulCharBuffer Buf] (h : state.Reachable) : state.Trigger := by
  apply ReachesFrom.invariant_under h (fun _ hstate => Reachable.own hstate)
  · exact initial_trigger Buf
  · intro before action after hown hbefore hstep
    exact hbefore.act hown (step_eq_some.mp hstep).2

/-- The steps that lead the selector to `select()`. -/
theorem act_tested [CharBuffer Buf] (hact : before.act action = some after) (haction : action.by_selector = true)
    (htested : after.selector.tested = true) :
    before.signal_flag = false ∧ after = { before with selector := .build_lock } ∨
      before.selector = .build_lock ∧ after = { before with com_queue_lock := some .selector, selector := .build } ∨
      before.selector = .build ∧ after = before.build := by
  have hnext := act_next hact haction
  generalize hposition : before.selector = position at hnext
  generalize hmoved : after.selector = moved at hnext htested
  cases hnext with
  | not_signaled =>
    obtain ⟨_, rfl⟩ := only_if_eq_some.mp hact
    by_cases hflag : before.signal_flag = true
    · simp only [hflag, if_true] at hmoved
      cases hmoved
    · left
      simp [hflag]
  | build_locked =>
    obtain ⟨_, rfl⟩ := only_if_eq_some.mp hact
    exact Or.inr (Or.inl ⟨rfl, rfl⟩)
  | built =>
    obtain ⟨_, rfl⟩ := only_if_eq_some.mp hact
    exact Or.inr (Or.inr ⟨rfl, rfl⟩)
  | _ => cases htested

end State

end ufh
