import UniversalFencingHub.Threads.Invariant

namespace ufh

namespace State

variable {Buf : Type} {before after state : State Buf} {place : ClientPtr → Place} {stamp : ClientPtr → Nat}
  {client : ClientPtr} {id : WorkerId} {strict : Prop}

/-- The steps at which the server runs into none of its errors: a client that is
on no queue is closed only while `com_queue` is empty, `cleanup()` finds at most one
client there, and no message that the server abandons is processed. -/
def Orderly (state : State Buf) : Action → Prop
  | .worker_process _ client _ => (state.connector.clients client).message.response ≠ .abandon
  | .worker_hand_back _ _ => state.signal_flag = true → state.connector.com_queue.head_node = none
  | .worker_close _ _ => state.connector.com_queue.head_node = none
  | .cleanup_action => state.connector.action_queue.head_node ≠ none → state.connector.com_queue.head_node = none
  | .cleanup_com => state.connector.com_queue.head_node = state.connector.com_queue.tail_node
  | _ => True

instance (state : State Buf) : (action : Action) → Decidable (state.Orderly action)
  | .worker_process _ client _ =>
    inferInstanceAs (Decidable ((state.connector.clients client).message.response ≠ .abandon))
  | .worker_hand_back _ _ =>
    inferInstanceAs (Decidable (state.signal_flag = true → state.connector.com_queue.head_node = none))
  | .worker_close _ _ => inferInstanceAs (Decidable (state.connector.com_queue.head_node = none))
  | .cleanup_action =>
    inferInstanceAs (Decidable
      (state.connector.action_queue.head_node ≠ none → state.connector.com_queue.head_node = none))
  | .cleanup_com =>
    inferInstanceAs (Decidable (state.connector.com_queue.head_node = state.connector.com_queue.tail_node))
  | .init .. | .enable_wakeup | .test_signal | .build_lock | .build | .select .. | .select_interrupted | .select_failed
  | .accept _ | .accept_lock _ | .accept_add _ | .drain | .pass_lock | .pass_first | .visit .. | .pass_end
  | .enqueue_lock .. | .enqueue .. | .cleanup_socket | .cleanup_action_lock | .cleanup_com_lock | .cleanup_disable
  | .cleanup_signal | .stop_lock | .stop | .join | .worker_lock _ | .worker_test _ | .worker_take _
  | .worker_hand_back_lock .. | .worker_relock _ | .worker_wait _ | .worker_wake _ | .signal | .signal_flag
  | .signal_write => .isTrue trivial

/-- A step that leaves the selector, its descriptors and its descriptor sets alone. -/
structure SameView (before after : State Buf) : Prop where
  selector : after.selector = before.selector
  own_fds : after.own_fds = before.own_fds
  read_fd_set : after.read_fd_set = before.read_fd_set
  write_fd_set : after.write_fd_set = before.write_fd_set

theorem SameView.silent (hview : SameView before after) (hconnector : after.connector = before.connector) :
    Silent before after := by
  refine ⟨hconnector, hview.own_fds, hview.read_fd_set, hview.write_fd_set, ?_, ?_, ?_⟩
  · rw [hview.selector]
    exact fun hpass => hpass
  · rw [hview.selector]
    exact fun _ hcursor => hcursor
  · rw [hview.selector]
    exact fun hlooping => hlooping

theorem OwnDescriptors.affects (h : before.OwnDescriptors)
    (haffects : Affects client before.connector after.connector) (hown : after.own_fds = before.own_fds)
    (hlooping : after.selector.looping = true → before.selector.looping = true) : after.OwnDescriptors := by
  constructor
  · rw [hown]
    intro fd hfd hvalid other heq
    by_cases hsame : other = client
    · rw [hsame] at heq
      cases haffects.socket_fd with
      | inl hkept => exact h.apart fd hfd hvalid client (hkept.symm.trans heq)
      | inr hnone =>
        rw [← heq, hnone] at hvalid
        cases hvalid
    · rw [haffects.others other hsame] at heq
      exact h.apart fd hfd hvalid other heq
  · rw [hown]
    intro hafter fd hfd
    obtain ⟨hvalid, hopen⟩ := h.looping (hlooping hafter) fd hfd
    exact ⟨hvalid, haffects.open_fds fd hopen (h.apart fd hfd hvalid client).symm⟩

/-- The descriptors of the sets stay open when a client is affected whose
descriptor is not among them. -/
theorem Interest.still_open (h : before.Interest place stamp) (hsockets : Sockets before.connector place)
    (haffects : Affects client before.connector after.connector) (hpass : before.selector.before_pass = true)
    (hclient : place client ≠ .free) (hclient' : place client ≠ .queued) :
    (∀ fd ∈ before.read_fd_set, fd = sys.FD_NONE ∨ fd ∈ after.connector.open_fds) ∧
      ∀ fd ∈ before.write_fd_set, 0 ≤ fd ∧ fd ∈ after.connector.open_fds := by
  have haway := h.away hpass client hclient hclient'
  constructor
  · intro fd hfd
    cases h.read_open hpass fd hfd with
    | inl hnone => exact Or.inl hnone
    | inr hopen =>
      by_cases hsame : fd = (before.connector.clients client).socket_fd
      · cases hsockets.valid client with
        | inl hnone => exact Or.inl (hsame.trans hnone)
        | inr hvalid => exact absurd (hsame ▸ hfd) (haway hvalid.1).1
      · exact Or.inr (haffects.open_fds fd hopen hsame)
  · intro fd hfd
    obtain ⟨hvalid, hopen⟩ := h.write_open hpass fd hfd
    refine ⟨hvalid, haffects.open_fds fd hopen ?_⟩
    intro hsame
    exact (haway (hsame ▸ hvalid)).2 (hsame ▸ hfd)

/-- A worker changes a client that is not queued. -/
theorem Interest.affects (h : before.Interest place stamp) (hsockets : Sockets before.connector place)
    (haffects : Affects client before.connector after.connector) (hview : SameView before after)
    (hclient : place client ≠ .free) (hclient' : place client ≠ .queued) {target : Place} (htarget : target ≠ .queued) :
    after.Interest (Function.update place client target) stamp := by
  have hqueued : ∀ other, Function.update place client target other = .queued ↔ place other = .queued :=
    Place.update_iff hclient' htarget
  have hother : ∀ other, place other = .queued → other ≠ client := fun other hother heq => hclient' (heq ▸ hother)
  refine ⟨?_, ?_, ?_, ?_, ?_⟩
  · rw [hview.selector, hview.read_fd_set]
    exact fun hpass => (h.still_open hsockets haffects hpass hclient hclient').1
  · rw [hview.selector, hview.write_fd_set]
    exact fun hpass => (h.still_open hsockets haffects hpass hclient hclient').2
  · rw [hview.selector, hview.read_fd_set, hview.write_fd_set]
    intro hpass other hfree hnotQueued hvalid
    by_cases hsame : other = client
    · rw [hsame] at hvalid ⊢
      cases haffects.socket_fd with
      | inl hkept =>
        rw [hkept] at hvalid ⊢
        exact h.away hpass client hclient hclient' hvalid
      | inr hnone =>
        rw [hnone] at hvalid
        cases hvalid
    · rw [Function.update_of_ne hsame] at hfree hnotQueued
      rw [haffects.others other hsame] at hvalid ⊢
      exact h.away hpass other hfree hnotQueued hvalid
  · intro other hisQueued hvisit
    rw [hqueued] at hisQueued
    unfold Fits
    rw [hview.read_fd_set, hview.write_fd_set, haffects.others other (hother other hisQueued)]
    rw [hview.selector] at hvisit
    exact h.fits other hisQueued hvisit
  · rw [hview.selector]
    intro other hcursor
    exact (hqueued other).mpr (h.cursor other hcursor)

/-- A client joins `com_queue` while the pass is not going on. -/
theorem Interest.queue (h : before.Interest place stamp) {stamp' : ClientPtr → Nat}
    (hconnector : after.connector.clients = before.connector.clients ∧
      after.connector.open_fds = before.connector.open_fds)
    (hsets : after.read_fd_set = before.read_fd_set ∧ after.write_fd_set = before.write_fd_set)
    (hpass : after.selector.before_pass = true → before.selector.before_pass = true)
    (hcursor : after.selector.cursor = none)
    (hclient : before.selector.before_pass = true → after.Fits client) :
    after.Interest (Function.update place client .queued) stamp' := by
  obtain ⟨hclients, hopen⟩ := hconnector
  obtain ⟨hread, hwrite⟩ := hsets
  have hqueued : ∀ other, Function.update place client .queued other = .queued ↔ other = client ∨
    place other = .queued :=
    Place.update_iff_of_target
  refine ⟨?_, ?_, ?_, ?_, ?_⟩
  · rw [hread, hopen]
    exact fun hafter => h.read_open (hpass hafter)
  · rw [hwrite, hopen]
    exact fun hafter => h.write_open (hpass hafter)
  · rw [hread, hwrite, hclients]
    intro hafter other hfree hnotQueued
    rw [ne_eq, hqueued, not_or] at hnotQueued
    rw [Function.update_of_ne hnotQueued.1] at hfree
    exact h.away (hpass hafter) other hfree hnotQueued.2
  · intro other hisQueued hvisit
    have hbefore : before.selector.before_pass = true := by
      cases hvisit with
      | inl hafter => exact hpass hafter
      | inr hnext =>
        obtain ⟨_, hnext, _⟩ := hnext
        rw [hcursor] at hnext
        cases hnext
    cases (hqueued other).mp hisQueued with
    | inl hsame => exact hsame ▸ hclient hbefore
    | inr hold =>
      unfold Fits
      rw [hread, hwrite, hclients]
      exact h.fits other hold (Or.inl hbefore)
  · intro other hnext
    rw [hcursor] at hnext
    cases hnext

theorem holding_others {position : WorkerPosition} (hselector : after.selector = before.selector)
    (hworkers : after.workers = Function.update before.workers id position) (other : Thread)
    (hother : other ≠ .worker id) : after.holding other = before.holding other := by
  cases other with
  | selector =>
    change after.selector.holding = _
    rw [hselector]
    rfl
  | worker other =>
    change (after.workers other).holding = _
    rw [hworkers, Function.update_of_ne (fun heq => hother (congrArg Thread.worker heq))]
    rfl

theorem holding_self {position : WorkerPosition}
    (hworkers : after.workers = Function.update before.workers id position) :
    after.holding (.worker id) = position.holding := by
  change (after.workers id).holding = _
  rw [hworkers, Function.update_self]

section

variable [CharBuffer Buf]

/-- A worker changes a client that is not queued, and it stays so. -/
theorem Invariant.worker_step (h : Invariant strict before place stamp)
    (haffects : Affects client before.connector after.connector) (hview : SameView before after)
    (hclient : place client ≠ .free) (hclient' : place client ≠ .queued) {target : Place} (htarget : target ≠ .queued)
    (hconsistent : Consistent after.connector (Function.update place client target) stamp)
    (hholding : Holding after.holding (Function.update place client target))
    (hlock : Exclusive after.com_queue_lock after.in_com_section)
    (hcomplete : strict → Complete after.connector.com_queue after.connector.nodes
        (Function.update place client target)) :
    after.Sound strict := by
  refine ⟨Function.update place client target, stamp, hconsistent, hholding, hlock, ?_, ?_, hcomplete⟩
  · exact h.own.affects haffects hview.own_fds (fun hlooping => hview.selector ▸ hlooping)
  · exact h.interest.affects h.consistent.sockets haffects hview hclient hclient' htarget

/-- A worker moves between positions at which it holds no client. -/
theorem Invariant.worker_silent (h : Invariant strict before place stamp) {position : WorkerPosition}
    (hconnector : after.connector = before.connector) (hview : SameView before after)
    (hworkers : after.workers = Function.update before.workers id position)
    (hholding : position.holding = (before.workers id).holding)
    (hlock : Exclusive after.com_queue_lock after.in_com_section) : Invariant strict after place stamp := by
  apply h.silent (hview.silent hconnector) ?_ hlock
  apply holding_eq
  · rw [hview.selector]
  · intro other
    rw [hworkers]
    exact holding_set_worker hholding other

theorem Invariant.outside (h : Invariant strict before place stamp) {position : WorkerPosition}
    (hselector : after.selector = before.selector) (hlock : after.com_queue_lock = before.com_queue_lock)
    (hworkers : after.workers = Function.update before.workers id position)
    (hposition : position.in_com_section = false) : Exclusive after.com_queue_lock after.in_com_section := by
  rw [hlock]
  exact h.com_lock.keep (in_com_section_set_worker (by rw [hselector]) hworkers hposition)

omit [CharBuffer Buf] in
theorem take_eq (hfirst : state.connector.take_action.1 = some client) :
    state.take id =
      { state.set_worker id (.process client) with
        connector := state.connector.take_action.2, action_queue_lock := none } := by
  unfold State.take
  generalize state.connector.take_action = taken at hfirst ⊢
  obtain ⟨first, connector⟩ := taken
  simp only at hfirst
  subst hfirst
  rfl

theorem process_eq_error {success_flag : Bool} {exception : Exception}
    (hresult : (state.connector.process client success_flag).2 = .error exception) :
    state.process id client success_flag =
      { state.set_worker id .raised with connector := (state.connector.process client success_flag).1 } := by
  simp only [State.process, hresult]
  rfl

theorem process_eq_ok {success_flag : Bool} {value : Unit}
    (hresult : (state.connector.process client success_flag).2 = .ok value) :
    state.process id client success_flag =
      { state.set_worker id
          (if ((state.connector.process client success_flag).1.clients client).current_phase = .RECV ∨
              ((state.connector.process client success_flag).1.clients client).current_phase = .SEND then
            .hand_back_lock client
          else .close client) with
        connector := (state.connector.process client success_flag).1 } := by
  simp only [State.process, hresult]
  rfl

theorem Invariant.take (h : Invariant strict state place stamp) (hposition : state.workers id = .take) :
    (state.take id).Sound strict := by
  have hnone : state.holding (.worker id) = none := by
    change (state.workers id).holding = none
    rw [hposition]
    rfl
  obtain ⟨_, hempty⟩ | ⟨client, _, hpending, hfirst, haffects, hconsistent, hcom, hnodes⟩ :=
    h.consistent.take_action (.worker id)
  · simp only [State.take, hempty]
    refine ⟨place, stamp, h.worker_silent rfl ⟨rfl, rfl, rfl, rfl⟩ rfl ?_ (h.outside rfl rfl rfl rfl)⟩
    rw [hposition]
    rfl
  · have hcomplete : strict → Complete state.connector.take_action.2.com_queue state.connector.take_action.2.nodes
        (Function.update place client (.held (.worker id) .completed)) := by
      intro hstrict
      rw [hcom, hnodes]
      exact (h.complete hstrict).action_remove_first h.consistent.linked (by simp [hpending]) (by simp) (by simp)
    rw [take_eq hfirst]
    refine h.worker_step haffects ⟨rfl, rfl, rfl, rfl⟩ (by simp [hpending]) (by simp [hpending]) (by simp)
      hconsistent ?_
      (h.outside rfl rfl rfl rfl) hcomplete
    exact h.holding.take hnone (by simp [hpending]) ((holding_self rfl).trans rfl) (holding_others rfl rfl)

omit [CharBuffer Buf] in
theorem holding_worker {position : WorkerPosition} (hposition : state.workers id = position) :
    state.holding (.worker id) = position.holding :=
  congrArg WorkerPosition.holding hposition

theorem Invariant.process [LawfulCharBuffer Buf] (h : Invariant strict state place stamp)
    (hposition : state.workers id = .process client) (success_flag : Bool)
    (hstrict : strict → (state.connector.clients client).message.response ≠ .abandon) :
    (state.process id client success_flag).Sound strict := by
  have hholds : state.holding (.worker id) = some (client, .completed) := holding_worker hposition
  have hheld := (h.holding _ _ _).mp hholds
  obtain ⟨haffects, ⟨hcom, hnodes, _⟩, hconsistent, houtcome⟩ := h.consistent.process hheld success_flag
  have hcomplete : strict → ∀ target : Place, target ≠ .queued → target ≠ .lost →
      Complete (state.connector.process client success_flag).1.com_queue
        (state.connector.process client success_flag).1.nodes (Function.update place client target) := by
    intro hs target htarget hlost
    rw [hcom, hnodes]
    exact (h.complete hs).move (by simp [hheld]) htarget hlost
  cases hresult : (state.connector.process client success_flag).2 with
  | error _ =>
    rw [hresult] at hconsistent houtcome
    rw [process_eq_error hresult]
    refine h.worker_step haffects ⟨rfl, rfl, rfl, rfl⟩ (by simp [hheld]) (by simp [hheld]) (by simp [processed_place])
      hconsistent ?_ (h.outside rfl rfl rfl rfl) ?_
    · exact h.holding.release hholds ((holding_self rfl).trans rfl) (by simp [processed_place]) (holding_others rfl rfl)
    · intro hs
      cases houtcome.mpr (hstrict hs)
  | ok _ =>
    rw [hresult] at hconsistent
    rw [process_eq_ok hresult]
    refine h.worker_step haffects ⟨rfl, rfl, rfl, rfl⟩ (by simp [hheld]) (by simp [hheld]) (by simp [processed_place])
      hconsistent ?_ (h.outside rfl rfl rfl ?_) ?_
    · refine h.holding.turn hholds ((holding_self rfl).trans ?_) (holding_others rfl rfl)
      split
      · rfl
      · rfl
    · split
      · rfl
      · rfl
    · intro hs
      exact hcomplete hs _ (by simp [processed_place]) (by simp [processed_place])

/-- Closing a client that a worker holds. -/
theorem Invariant.worker_closes [LawfulCharBuffer Buf] (h : Invariant strict before place stamp) {role : Role}
    (hholds : before.holding (.worker id) = some (client, role))
    (hconnector : after.connector = before.connector.close_connection client) (hview : SameView before after)
    (hworkers : after.workers = Function.update before.workers id .relock)
    (hlock : Exclusive after.com_queue_lock after.in_com_section)
    (hstrict : strict → before.connector.com_queue.head_node = none) :
    after.Sound strict := by
  have hheld := (h.holding _ _ _).mp hholds
  have hoff : (place client).OffLists := by rw [hheld]; trivial
  have haffects : Affects client before.connector after.connector := by
    rw [hconnector]
    exact affects_close_connection _ client
  have hconsistent : Consistent after.connector (Function.update place client .free) stamp := by
    rw [hconnector]
    exact h.consistent.close_connection (Or.inr hoff)
  refine h.worker_step haffects hview (by simp [hheld]) (by simp [hheld]) (by simp) hconsistent ?_ hlock ?_
  · exact h.holding.release hholds (holding_self hworkers) (by simp) (holding_others hview.selector hworkers)
  · intro hs
    have hdetached := h.consistent.linked.detached client (by simp [hheld]) (by simp [hheld])
    rw [hconnector]
    exact (h.complete hs).remove_empty (hstrict hs) hdetached (by simp [hheld]) (by simp) (by simp)

theorem Invariant.close [LawfulCharBuffer Buf] (h : Invariant strict state place stamp)
    (hposition : state.workers id = .close client) (hstrict : strict → state.connector.com_queue.head_node = none) :
    (state.close id client).Sound strict :=
  h.worker_closes (holding_worker hposition) rfl ⟨rfl, rfl, rfl, rfl⟩ rfl (h.outside rfl rfl rfl rfl) hstrict

theorem Invariant.release_com (h : Invariant strict before place stamp) {position : WorkerPosition}
    (hposition : (before.workers id).in_com_section = true) (hselector : after.selector = before.selector)
    (hworkers : after.workers = Function.update before.workers id position) (hleft : position.in_com_section = false) :
    Exclusive none after.in_com_section := by
  have hinside : before.in_com_section (.worker id) = true := hposition
  refine h.com_lock.release hinside ?_ ?_
  · change (after.workers id).in_com_section = false
    rw [hworkers, Function.update_self, hleft]
  · intro other _ hother
    exact in_com_section_set_worker (by rw [hselector]) hworkers hleft other hother

theorem Invariant.worker_acquires (h : Invariant strict before place stamp) {position : WorkerPosition}
    (hselector : after.selector = before.selector)
    (hworkers : after.workers = Function.update before.workers id position) (hfree : before.com_queue_lock = none) :
    Exclusive (some (.worker id)) after.in_com_section := by
  have hlock := h.com_lock
  rw [hfree] at hlock
  apply hlock.acquire
  intro other hother hinside
  cases other with
  | selector =>
    change before.selector.in_com_section = true
    rw [← hselector]
    exact hinside
  | worker other =>
    have hne : other ≠ id := fun heq => hother (congrArg Thread.worker heq)
    have hposition : (after.workers other).in_com_section = true := hinside
    rw [hworkers, Function.update_of_ne hne] at hposition
    exact hposition

omit [CharBuffer Buf] in
/-- Waking up the selector writes to the trigger pipe and does nothing else. -/
theorem wakeup_selector_eq (state : State Buf) : ∃ pipe_bytes, state.wakeup_selector = { state with pipe_bytes } := by
  unfold wakeup_selector write_pipe
  split
  · exact ⟨_, rfl⟩
  · exact ⟨state.pipe_bytes, rfl⟩

theorem Invariant.hand_back [LawfulCharBuffer Buf] (h : Invariant strict state place stamp)
    (hposition : state.workers id = .hand_back client)
    (hstrict : strict → state.signal_flag = true → state.connector.com_queue.head_node = none) :
    (state.hand_back id client).Sound strict := by
  have hholds : state.holding (.worker id) = some (client, .answered) := holding_worker hposition
  have hheld := (h.holding _ _ _).mp hholds
  have hoff : (place client).OffLists := by rw [hheld]; trivial
  have hinside : (state.workers id).in_com_section = true := by rw [hposition]; rfl
  have hrelease : ∀ after : State Buf, after.selector = state.selector →
      after.workers = Function.update state.workers id .relock → Exclusive none after.in_com_section :=
    fun after hselector hworkers => h.release_com hinside hselector hworkers rfl
  unfold State.hand_back
  by_cases hsignal : state.signal_flag = true
  · have hsignal' : (state.set_worker id .relock).signal_flag = true := hsignal
    simp only [if_pos hsignal']
    exact h.worker_closes hholds rfl ⟨rfl, rfl, rfl, rfl⟩ rfl (hrelease _ rfl rfl) (fun hs => hstrict hs hsignal)
  · have hsignal' : ¬ (state.set_worker id .relock).signal_flag = true := hsignal
    simp only [if_neg hsignal']
    have hsession := h.consistent.sessions.session client
    rw [hheld] at hsession
    obtain ⟨reply, count, success_flag, howes⟩ := hsession
    obtain ⟨stamp', hconsistent⟩ := h.consistent.com_add_last hoff (Or.inr ⟨reply, count, success_flag, howes⟩)
    have hcursor : state.selector.cursor = none := by
      cases hnext : state.selector.cursor with
      | none => rfl
      | some next_client =>
        have hselector := h.com_lock .selector (in_com_section_of_cursor hnext)
        rw [h.com_lock (.worker id) hinside] at hselector
        cases hselector
    obtain ⟨pipe_bytes, hwakeup⟩ :=
      wakeup_selector_eq { state.set_worker id .relock with connector := state.connector.com_add_last client }
    have hafter : { state.set_worker id .relock with
        connector := (state.set_worker id .relock).connector.com_add_last client } =
        { state.set_worker id .relock with connector := state.connector.com_add_last client } := rfl
    rw [hafter, hwakeup]
    refine ⟨Function.update place client .queued, stamp', hconsistent, ?_, hrelease _ rfl rfl, ?_, ?_, ?_⟩
    · exact h.holding.release hholds ((holding_self rfl).trans rfl) (by simp) (holding_others rfl rfl)
    · exact ⟨h.own.apart, h.own.looping⟩
    · refine h.interest.queue ⟨rfl, rfl⟩ ⟨rfl, rfl⟩ (fun hpass => hpass) hcursor (fun hpass => ?_)
      obtain ⟨hread, hwrite⟩ := h.interest.away hpass client (by simp [hheld]) (by simp [hheld]) howes.socket
      exact ⟨fun hmem => absurd hmem hread, fun hmem => absurd hmem hwrite⟩
    · intro hs
      exact (h.complete hs).add_last (by simp [hheld])

end

end State

end ufh
