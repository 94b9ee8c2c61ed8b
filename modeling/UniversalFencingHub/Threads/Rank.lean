import UniversalFencingHub.Library.Ranking
import UniversalFencingHub.Properties.LockDiscipline
import UniversalFencingHub.Threads.Ownership
import UniversalFencingHub.Threads.Pending

open linked_list transition

namespace ufh

/-- How far the selector is from its end when the stop signal has been sent. `chain` is the number of
clients that the pass over `com_queue` has not visited. -/
def SelectorPosition.rank (chain : Nat) : SelectorPosition → Nat
  | .init => 408
  | .enable_wakeup => 407
  | .build_lock => 406
  | .build => 405
  | .select => 404
  | .accept => 403
  | .accept_lock _ => 401
  | .accept_add _ => 400
  | .drain => 399
  | .pass_lock => 398
  | .pass_first => 397
  | .enqueue_lock _ _ => 119 + 12 * chain
  | .enqueue _ _ => 118 + 12 * chain
  | .pass _ => 108 + 12 * chain
  | .test_signal => 107
  | .cleanup_socket => 106
  | .cleanup_action_lock => 105
  | .cleanup_action => 104
  | .cleanup_com_lock => 103
  | .cleanup_disable => 102
  | .cleanup_signal => 101
  | .cleanup_com => 100
  | .stop_lock => 99
  | .stop => 98
  | .join => 1
  | .finished => 0

def WorkerPosition.rank : WorkerPosition → Nat
  | .process _ => 7
  | .hand_back_lock _ => 6
  | .hand_back _ => 5
  | .close _ => 5
  | .locking => 5
  | .loop => 4
  | .relock => 4
  | .take => 3
  | .returned => 2
  | .raised => 2
  | .asleep => 1
  | .exited => 0

def HandlerPosition.rank : HandlerPosition → Nat
  | .idle => 0
  | .flagged => 2
  | .locked => 3

/-- A client that is accepted has to be closed. -/
def Action.accepted : Action → Nat
  | .accept _ => 1
  | _ => 0

/-- A client that is put on `action_queue` has to be processed. -/
def Action.queued : Action → Nat
  | .enqueue _ _ _ => 5
  | _ => 0

/-- Workers that are woken up have to look at `action_queue`. -/
def Action.woken : Action → Nat
  | .enqueue _ _ _ => 4
  | .stop => 96
  | _ => 0

/-- By how much a step of the selector may raise the rank of the rest of the server. -/
def Action.raise (action : Action) : Nat := action.accepted + action.queued + action.woken

theorem SelectorPosition.rank_le (position : SelectorPosition) {chain : Nat} (hchain : chain ≤ MAX_CONNECTIONS) :
    position.rank chain ≤ 408 := by
  unfold MAX_CONNECTIONS at hchain
  cases position with
  | enqueue_lock client next_client =>
    change 119 + 12 * chain ≤ 408
    omega
  | enqueue client next_client =>
    change 118 + 12 * chain ≤ 408
    omega
  | pass client =>
    change 108 + 12 * chain ≤ 408
    omega
  | _ => exact Nat.le_of_ble_eq_true rfl

theorem WorkerPosition.rank_le (position : WorkerPosition) : position.rank ≤ 7 := by
  cases position with
  | _ => exact Nat.le_of_ble_eq_true rfl

/-- The steps that may leave the selector where it is. -/
def Action.repeats : Action → Bool
  | .drain => true
  | .cleanup_action => true
  | .cleanup_com => true
  | .visit _ .broken_pipe => true
  | _ => false

/-- A step that takes the selector on lowers its rank by more than it raises the rank of the rest. -/
theorem SelectorPosition.Next.rank {position next : SelectorPosition} {action : Action} (h : position.Next action next)
    (haction : action.repeats = false) (hsignaled : next ≠ .build_lock) {chain chain' : Nat}
    (hchain : chain' ≤ MAX_CONNECTIONS) (hvisit : ∀ client result, action = .visit client result → chain' < chain)
    (hkept : ∀ client next_client,
      position = .enqueue_lock client next_client ∨ position = .enqueue client next_client →
      chain' ≤ chain) :
    next.rank chain' + action.raise < position.rank chain := by
  unfold MAX_CONNECTIONS at hchain
  cases h with
  | not_signaled => exact absurd rfl hsignaled
  | draining => cases haction
  | drained => cases haction
  | action_closed => cases haction
  | action_emptied => cases haction
  | com_closed => cases haction
  | com_emptied => cases haction
  | first client =>
    change 108 + 12 * chain' + 0 < 397
    omega
  | killed client result =>
    have hless := hvisit client result rfl
    change 108 + 12 * chain' + 0 < 108 + 12 * chain
    omega
  | visited client result next_client =>
    have hless := hvisit client result rfl
    change 108 + 12 * chain' + 0 < 108 + 12 * chain
    omega
  | completed client result next_client =>
    have hless := hvisit client result rfl
    change 119 + 12 * chain' + 0 < 108 + 12 * chain
    omega
  | enqueue_locked client next_client =>
    have hless := hkept client next_client (Or.inl rfl)
    change 118 + 12 * chain' + 0 < 119 + 12 * chain
    omega
  | enqueued client next_client target =>
    have hless := hkept client next_client (Or.inr rfl)
    change 108 + 12 * chain' + 9 < 118 + 12 * chain
    omega
  | passed =>
    change 107 + 0 < 108 + 12 * chain
    omega
  | _ => exact Nat.le_of_ble_eq_true rfl

/-- A step of a worker lowers its rank, apart from taking a client, by which `action_queue` becomes shorter. -/
theorem WorkerPosition.Next.rank {id : WorkerId} {position next : WorkerPosition} {action : Action}
    (h : position.Next id action next) (houtside : action.outside = false) :
    next.rank < position.rank ∨ action = .worker_take id ∧ next.rank = position.rank + 4 := by
  cases h with
  | taken client => exact Or.inr ⟨rfl, rfl⟩
  | woken => cases houtside
  | _ => exact Or.inl (Nat.le_of_ble_eq_true rfl)

section

variable {com_queue action_queue : Queue ClientPtr} {nodes nodes' : Nodes ClientPtr} {place : ClientPtr → Place}
  {stamp : ClientPtr → Nat} {client : ClientPtr} {first : Option ClientPtr}

theorem follow_length_le (next : ClientPtr → Option ClientPtr) (fuel : Nat) (first : Option ClientPtr) :
    (follow next fuel first).length ≤ fuel := by
  induction fuel generalizing first with
  | zero => exact le_rfl
  | succ fuel ih =>
    cases first with
    | none => exact Nat.zero_le _
    | some node => exact Nat.succ_le_succ (ih (next node))

/-- The walk from a queued client is longer than the walk from its successor. -/
theorem Linked.follow_rest (h : Linked com_queue action_queue nodes place stamp) (hqueued : place client = .queued) :
    (follow nodes.next MAX_CONNECTIONS (nodes.next client)).length <
      (follow nodes.next MAX_CONNECTIONS (some client)).length := by
  have hclosed : ∀ node successor, place node = .queued → nodes.next node = some successor →
      place successor = .queued ∧ stamp node < stamp successor := by
    intro node successor hnode hsuccessor
    obtain ⟨hplace, _, hless⟩ := h.forward node successor hnode hsuccessor
    exact ⟨hplace, hless⟩
  have hhead : ∀ node, some client = some node → place node = .queued := by
    rintro _ ⟨⟩
    exact hqueued
  have hpairwise := (follow_pairwise hclosed (MAX_CONNECTIONS + 1) hhead).1
  have hnodup : (follow nodes.next (MAX_CONNECTIONS + 1) (some client)).Nodup :=
    hpairwise.imp fun hless heq => by rw [heq] at hless; omega
  have hlength := hnodup.length_le_card
  rw [Fintype.card_fin] at hlength
  change (follow nodes.next MAX_CONNECTIONS (nodes.next client)).length + 1 ≤ MAX_CONNECTIONS at hlength
  by_cases hshort : (follow nodes.next MAX_CONNECTIONS (some client)).length < MAX_CONNECTIONS
  · have hsame := congrArg List.length (follow_of_length_lt hshort 1)
    change (follow nodes.next MAX_CONNECTIONS (nodes.next client)).length + 1 = _ at hsame
    omega
  · omega

theorem Linked.follow_same (h : Linked com_queue action_queue nodes place stamp)
    (hsame : ∀ client, place client = .queued → nodes' client = nodes client)
    (hfirst : ∀ client, first = some client → place client = .queued) :
    follow nodes'.next MAX_CONNECTIONS first = follow nodes.next MAX_CONNECTIONS first := by
  apply follow_congr (P := fun client => place client = .queued)
  · exact fun client successor hqueued hnext => (h.forward client successor hqueued hnext).1
  · exact fun client hqueued => congrArg Node.next_node (hsame client hqueued)
  · exact hfirst

/-- Removing a client leaves the walk behind it as it is. -/
theorem Linked.follow_removed (h : Linked com_queue action_queue nodes place stamp) (hqueued : place client = .queued) :
    follow (com_queue.remove nodes client).2.next MAX_CONNECTIONS (nodes.next client) =
      follow nodes.next MAX_CONNECTIONS (nodes.next client) := by
  apply follow_congr (P := fun other => place other = .queued ∧ stamp client < stamp other)
  · rintro other successor ⟨hother, hlater⟩ hnext
    obtain ⟨hplace, _, hless⟩ := h.forward other successor hother hnext
    exact ⟨hplace, by omega⟩
  · rintro other ⟨hother, hlater⟩
    have hne : other ≠ client := fun heq => by rw [heq] at hlater; omega
    have hprev : nodes.prev client ≠ some other := by
      intro hbefore
      have hforward := (h.backward client other hqueued hbefore).2
      have hless := (h.forward other client hother hforward).2.2
      omega
    rw [Queue.remove_next_of_ne com_queue (h.self_link hqueued) hne, if_neg hprev]
  · intro successor hnext
    obtain ⟨hplace, _, hless⟩ := h.forward client successor hqueued hnext
    exact ⟨hplace, hless⟩

end

namespace State

variable {Buf : Type} {before after state : State Buf} {place : ClientPtr → Place} {stamp : ClientPtr → Nat}
  {client : ClientPtr} {id : WorkerId} {action : Action} {strict : Prop}

/-- The number of clients that the pass over `com_queue` has not visited. -/
def chain (state : State Buf) : Nat :=
  (follow state.connector.nodes.next MAX_CONNECTIONS state.selector.cursor).length

/-- An upper bound of the number of steps that are left once the stop signal has been sent. -/
def rank (state : State Buf) : Nat :=
  (if state.terminated then 0 else 1) + state.handler.rank + state.pipe_bytes + state.selector.rank state.chain +
    (MAX_CONNECTIONS - state.connector.client_pool.get_free_count) + 5 * state.connector.action_clients.length +
    total WorkerPosition.rank state.workers

theorem chain_le (state : State Buf) : state.chain ≤ MAX_CONNECTIONS := follow_length_le ..

section

variable [CharBuffer Buf]

/-- Only `accept_connection` takes a client out of the pool. -/
theorem act_free_count (hact : before.act action = some after) :
    before.connector.client_pool.get_free_count ≤ after.connector.client_pool.get_free_count ∨
      ∃ fd, action = .accept fd ∧ before.connector.client_pool.get_free_count ≤
        after.connector.client_pool.get_free_count + 1 := by
  have hoperates := act_operates hact
  generalize after.connector = connector at hoperates ⊢
  cases hoperates with
  | accepted fd client accepted _ haccept =>
    right
    refine ⟨fd, rfl, ?_⟩
    unfold Connector.accept at haccept
    cases hallocate : before.connector.client_pool.allocate with
    | none => simp [hallocate] at haccept
    | some allocated =>
      rw [hallocate] at haccept
      obtain ⟨_, rfl⟩ := Prod.mk.inj (Option.some.inj haccept)
      have hcount : allocated.2.get_free_count = before.connector.client_pool.get_free_count - 1 := by
        unfold GenAlloc.allocate at hallocate
        split at hallocate
        · obtain ⟨_, _, rfl⟩ := Option.map_eq_some_iff.mp hallocate
          rfl
        · cases hallocate
      change _ ≤ allocated.2.get_free_count + 1
      omega
  | visited client result _ =>
    left
    have hcloses : ClosesOwn client before.connector
        (before.connector.perform_io before.read_fd_set before.write_fd_set client result).1 :=
      closes_own_perform_io
    cases hcloses with
    | inl hkept => rw [hkept.2]
    | inr hclosed =>
      rw [hclosed.2]
      exact GenAlloc.get_free_count_deallocate ..
  | pending_closed client _ => exact Or.inl (GenAlloc.get_free_count_deallocate ..)
  | queued_closed client _ => exact Or.inl (GenAlloc.get_free_count_deallocate ..)
  | taken id =>
    left
    rw [(take_action_kept before.connector).2]
  | dismissed id client => exact Or.inl (GenAlloc.get_free_count_deallocate ..)
  | closed id client => exact Or.inl (GenAlloc.get_free_count_deallocate ..)
  | _ => exact Or.inl le_rfl

/-- The steps of other threads leave the clients alone that the pass has not visited. -/
theorem Invariant.chain_aside [LawfulCharBuffer Buf] (h : Invariant strict before place stamp)
    (hact : before.act action = some after) (haction : action.by_selector = false) : after.chain = before.chain := by
  have hlinked := h.consistent.linked
  unfold chain
  rw [(act_aside hact haction).selector]
  cases hcursor : before.selector.cursor with
  | none => rfl
  | some first =>
    have hqueued : ∀ client, some first = some client → place client = .queued := by
      intro client hfirst
      rw [← Option.some.inj hfirst]
      exact h.interest.cursor first hcursor
    congr 1
    apply hlinked.follow_same _ hqueued
    cases huses : before.uses_com_queue action with
    | false => exact (h.keeps_com hact huses).2
    | true =>
      cases action with
      | worker_close id client =>
        obtain ⟨hposition, rfl⟩ := only_if_eq_some.mp hact
        have hheld := (h.holding _ _ _).mp (holding_worker hposition)
        have hdetached := hlinked.detached client (by simp [hheld]) (by simp [hheld])
        intro other _
        exact congrFun (Queue.remove_detached _ _ _ hdetached).2.2 other
      | worker_hand_back id client =>
        obtain ⟨⟨hposition, _⟩, _⟩ := only_if_eq_some.mp hact
        have hselector := h.com_lock .selector (in_com_section_of_cursor hcursor)
        have hworker := h.com_lock (.worker id) (by
          change (before.workers id).in_com_section = true
          rw [hposition]
          rfl)
        rw [hselector] at hworker
        cases hworker
      | build => cases haction
      | accept_add client => cases haction
      | pass_first => cases haction
      | visit client result => cases haction
      | cleanup_action => cases haction
      | cleanup_com => cases haction
      | _ => cases huses

/-- A visit makes the rest of the pass shorter. -/
theorem Invariant.chain_visit [LawfulCharBuffer Buf] (h : Invariant strict before place stamp) {result : IoResult}
    (hpipe : result ≠ .broken_pipe) (hact : before.act (.visit client result) = some after) :
    after.chain < before.chain := by
  obtain ⟨⟨hposition, hpossible⟩, rfl⟩ := only_if_eq_some.mp hact
  have hcursor : before.selector.cursor = some client := by rw [hposition]; rfl
  have hqueued := h.interest.cursor client hcursor
  have hlinked := h.consistent.linked
  obtain ⟨hread, hwrite⟩ := h.interest.fits client hqueued (Or.inr ⟨client, hcursor, le_rfl⟩)
  obtain ⟨hpending, hrest⟩ := h.consistent.perform_io hqueued hread hwrite hpossible hpipe
  have hshorter := hlinked.follow_rest hqueued
  have hwalk : follow (before.connector.perform_io before.read_fd_set before.write_fd_set client result).1.nodes.next
      MAX_CONNECTIONS (before.connector.nodes.next client) =
      follow before.connector.nodes.next MAX_CONNECTIONS (before.connector.nodes.next client) := by
    cases hdone : (before.connector.perform_io before.read_fd_set before.write_fd_set client result).2 with
    | true =>
      rw [(hpending hdone).2.2.1]
      exact hlinked.follow_removed hqueued
    | false =>
      obtain ⟨_, hsame⟩ | ⟨_, hunlinks⟩ := hrest hdone
      · rw [hsame.2.1]
      · rw [hunlinks.2.1]
        exact hlinked.follow_removed hqueued
  have hnext : (before.visit client result).selector.cursor = before.connector.nodes.next client := by
    rw [visit_eq hpipe]
    simp only
    split
    · rfl
    · rfl
  have hnodes : (before.visit client result).connector =
      (before.connector.perform_io before.read_fd_set before.write_fd_set client result).1 := by
    rw [visit_eq hpipe]
  unfold chain
  rw [hnext, hnodes, hwalk, hcursor]
  exact hshorter

/-- Handing a client over to the workers leaves the rest of the pass as it is. -/
theorem Invariant.chain_enqueue [LawfulCharBuffer Buf] (h : Invariant strict before place stamp)
    {next_client : Option ClientPtr} (hact : before.act action = some after) (haction : action.by_selector = true)
    (hposition : before.selector = .enqueue_lock client next_client ∨ before.selector = .enqueue client next_client) :
    after.chain = before.chain := by
  have hcursor : before.selector.cursor = next_client := by
    cases hposition with
    | inl hposition => rw [hposition]; rfl
    | inr hposition => rw [hposition]; rfl
  have hnext := act_next hact haction
  have hmoved : after.selector.cursor = next_client ∧ before.uses_com_queue action = false := by
    generalize after.selector = moved at hnext ⊢
    cases hposition with
    | inl hposition =>
      rw [hposition] at hnext
      cases hnext
      exact ⟨rfl, rfl⟩
    | inr hposition =>
      rw [hposition] at hnext
      cases hnext
      exact ⟨rfl, rfl⟩
  unfold chain
  rw [hmoved.1, hcursor]
  congr 1
  apply h.consistent.linked.follow_same (h.keeps_com hact hmoved.2).2
  intro first hfirst
  exact h.interest.cursor first (hcursor.trans hfirst)

theorem act_workers_total (hact : before.act action = some after) (haction : action.by_selector = true) :
    total WorkerPosition.rank after.workers ≤ total WorkerPosition.rank before.workers + action.woken := by
  have hsame : after.workers = before.workers →
      total WorkerPosition.rank after.workers ≤ total WorkerPosition.rank before.workers + action.woken := by
    intro hworkers
    rw [hworkers]
    exact Nat.le_add_right _ _
  cases action with
  | enqueue client next_client target =>
    obtain ⟨⟨_, hpossible⟩, rfl⟩ := only_if_eq_some.mp hact
    cases target with
    | none => exact hsame rfl
    | some id =>
      have htotal := total_update WorkerPosition.rank before.workers id .locking
      rw [show before.workers id = .asleep from hpossible] at htotal
      change total WorkerPosition.rank (Function.update before.workers id .locking) ≤ _ + 4
      change _ + 1 = _ + 5 at htotal
      omega
  | stop =>
    obtain ⟨_, rfl⟩ := only_if_eq_some.mp hact
    have hraise : ∀ id, (before.stop_threads.workers id).rank ≤ (before.workers id).rank + 4 := by
      intro id
      change (if before.workers id = .asleep then WorkerPosition.locking else before.workers id).rank ≤ _
      split
      · next hasleep =>
        rw [hasleep]
        exact le_rfl
      · exact Nat.le_add_right _ _
    have hworkers := total_le WorkerPosition.rank hraise
    rw [Fintype.card_fin] at hworkers
    exact hworkers
  | cleanup_action =>
    obtain ⟨_, rfl⟩ := only_if_eq_some.mp hact
    apply hsame
    unfold State.cleanup_action
    split
    · rfl
    · rfl
  | enqueue_lock client next_client =>
    obtain ⟨_, rfl⟩ := only_if_eq_some.mp hact
    exact hsame rfl
  | cleanup_action_lock =>
    obtain ⟨_, rfl⟩ := only_if_eq_some.mp hact
    exact hsame rfl
  | stop_lock =>
    obtain ⟨_, rfl⟩ := only_if_eq_some.mp hact
    exact hsame rfl
  | worker_lock | worker_test | worker_take | worker_process | worker_hand_back_lock | worker_hand_back
  | worker_close | worker_relock | worker_wait | worker_wake | signal | signal_flag | signal_write => cases haction
  | _ => exact hsame (act_off_pool hact rfl).1

theorem on_action_queue_length (action : Action) (clients : List ClientPtr) :
    5 * (action.on_action_queue clients).length ≤ 5 * clients.length + action.queued := by
  cases action with
  | enqueue client next_client target =>
    change 5 * (clients ++ [client]).length ≤ 5 * clients.length + 5
    rw [List.length_append, List.length_singleton]
    omega
  | worker_take id =>
    change 5 * clients.tail.length ≤ 5 * clients.length + 0
    rw [List.length_tail]
    omega
  | cleanup_action =>
    change 5 * clients.tail.length ≤ 5 * clients.length + 0
    rw [List.length_tail]
    omega
  | _ => exact Nat.le_add_right _ _

/-- Without a stop signal there would be another round. -/
theorem act_not_build_lock (hflag : before.signal_flag = true) (hact : before.act action = some after)
    (haction : action.by_selector = true) : after.selector ≠ .build_lock := by
  intro hposition
  have hnext := act_next hact haction
  rw [hposition] at hnext
  generalize before.selector = position at hnext
  cases hnext
  obtain ⟨_, rfl⟩ := only_if_eq_some.mp hact
  simp only [hflag, if_true] at hposition
  cases hposition

/-- A step that takes the selector on. -/
theorem Invariant.rank_selector [LawfulCharBuffer Buf] (h : Invariant strict before place stamp)
    (hflag : before.signal_flag = true) (hact : before.act action = some after) (haction : action.by_selector = true)
    (hrepeats : action.repeats = false) : after.rank < before.rank := by
  have hvisit : ∀ client result, action = .visit client result → after.chain < before.chain := by
    rintro client result rfl
    have hpipe : result ≠ .broken_pipe := by
      rintro rfl
      cases hrepeats
    exact h.chain_visit hpipe hact
  have hselector := (act_next hact haction).rank hrepeats (act_not_build_lock hflag hact haction) (chain_le after)
    hvisit (fun client next_client hposition => (h.chain_enqueue hact haction hposition).le)
  have hworkers := act_workers_total hact haction
  have hpending := on_action_queue_length action before.connector.action_clients
  rw [← h.action_clients hact] at hpending
  obtain ⟨hhandler, hpipe, hterminated⟩ := act_selector_kept hact haction
  have hbytes : after.pipe_bytes = before.pipe_bytes := hpipe (by rintro rfl; cases hrepeats)
  have hrunning : after.terminated = before.terminated := by
    refine hterminated.resolve_right ?_
    rintro ⟨client, rfl⟩
    cases hrepeats
  unfold rank
  rw [hhandler, hbytes, hrunning]
  unfold Action.raise at hselector
  obtain hcount | ⟨fd, rfl, hcount⟩ := act_free_count hact
  · omega
  · have haccepted : (Action.accept fd).accepted = 1 := rfl
    omega

omit [CharBuffer Buf] in
/-- A step that raises no part of the rank and lowers one of them. -/
theorem rank_lt (hterminated : after.terminated = before.terminated) (hhandler : after.handler = before.handler)
    (hbytes : after.pipe_bytes ≤ before.pipe_bytes)
    (hselector : after.selector.rank after.chain ≤ before.selector.rank before.chain)
    (hcount : before.connector.client_pool.get_free_count ≤ after.connector.client_pool.get_free_count)
    (hclients : after.connector.action_clients.length ≤ before.connector.action_clients.length)
    (hworkers : after.workers = before.workers)
    (hless : after.pipe_bytes < before.pipe_bytes ∨
      after.selector.rank after.chain < before.selector.rank before.chain ∨
      after.connector.action_clients.length < before.connector.action_clients.length ∨
      before.connector.client_pool.get_free_count < after.connector.client_pool.get_free_count ∧
        after.connector.client_pool.get_free_count ≤ MAX_CONNECTIONS) : after.rank < before.rank := by
  unfold rank
  rw [hterminated, hhandler, hworkers]
  omega

omit [CharBuffer Buf] in
theorem rank_drain (hposition : state.selector = .drain) : state.drain.rank < state.rank := by
  unfold State.drain
  split
  · next hbytes => exact rank_lt rfl rfl (Nat.sub_le _ _) le_rfl le_rfl le_rfl rfl (Or.inl (Nat.sub_lt hbytes one_pos))
  · have hless : SelectorPosition.pass_lock.rank 0 < state.selector.rank state.chain := by
      rw [hposition]
      exact Nat.le_of_ble_eq_true rfl
    exact rank_lt rfl rfl le_rfl hless.le le_rfl le_rfl rfl (Or.inr (Or.inl hless))

theorem Invariant.rank_cleanup_action (h : Invariant strict state place stamp)
    (hposition : state.selector = .cleanup_action) : state.cleanup_action.rank < state.rank := by
  have hclients := congrArg List.length (cleanup_action_clients h)
  obtain ⟨_, hempty⟩ | ⟨client, hhead, _, hfirst, _⟩ := h.consistent.action_remove_first .selector
  · have hless : SelectorPosition.cleanup_com_lock.rank 0 < state.selector.rank state.chain := by
      rw [hposition]
      exact Nat.le_of_ble_eq_true rfl
    simp only [State.cleanup_action, hempty]
    exact rank_lt rfl rfl le_rfl hless.le le_rfl le_rfl rfl (Or.inr (Or.inl hless))
  · have hpositive : 0 < state.connector.action_clients.length := by
      have hfirst : state.connector.action_clients.head? = some client := by
        unfold Connector.action_clients Queue.get_first
        rw [hhead]
        rfl
      exact List.length_pos_of_mem (List.mem_of_head? hfirst)
    rw [List.length_tail] at hclients
    rw [cleanup_action_eq hfirst] at hclients ⊢
    refine rank_lt rfl rfl le_rfl (by rw [hposition]; exact le_rfl) (GenAlloc.get_free_count_deallocate ..) ?_ rfl ?_
    · omega
    · omega

/-- A client that is taken from `com_queue` and closed is not in use any more. -/
theorem Invariant.rank_cleanup_com (h : Invariant strict state place stamp)
    (hposition : state.selector = .cleanup_com) :
    state.cleanup_com.rank < state.rank := by
  have hclients := congrArg List.length (cleanup_com_clients h)
  obtain ⟨_, hempty⟩ | ⟨client, hhead, _, hfirst, hconsistent⟩ := h.consistent.com_remove_first .selector
  · have hless : SelectorPosition.stop_lock.rank 0 < state.selector.rank state.chain := by
      rw [hposition]
      exact Nat.le_of_ble_eq_true rfl
    rw [cleanup_com_empty hempty] at hclients ⊢
    exact rank_lt rfl rfl le_rfl hless.le le_rfl hclients.le rfl (Or.inr (Or.inl hless))
  · have hused : client ∉ state.connector.client_pool.free_objects := by
      intro hfree
      have hplace := (hconsistent.pooled.free_iff client).mp hfree
      rw [Function.update_self] at hplace
      cases hplace
    have hpooled := h.consistent.pooled
    have hroom := hpooled.valid.room hpooled.size hused
    have hsize := hpooled.size
    have hcount : (state.connector.com_remove_first.2.close_connection client).client_pool.get_free_count =
        state.connector.client_pool.get_free_count + 1 := by
      change (state.connector.client_pool.deallocate client).get_free_count = _
      unfold GenAlloc.deallocate
      rw [if_pos hroom]
      rfl
    rw [cleanup_com_eq hfirst] at hclients ⊢
    refine rank_lt rfl rfl le_rfl (by rw [hposition]; exact le_rfl) ?_ hclients.le rfl ?_
    · exact hcount ▸ Nat.le_succ _
    · unfold GenAlloc.get_free_count at hcount ⊢
      simp only
      omega

/-- The process is killed by `SIGPIPE`. -/
theorem rank_killed (hrunning : state.terminated = false) (client : ClientPtr) :
    (state.visit client .broken_pipe).rank < state.rank := by
  rw [State.visit, if_pos rfl]
  unfold rank chain
  simp only [hrunning, if_true, Bool.false_eq_true, if_false]
  omega

/-- A worker writes to the trigger pipe only before the stop signal. -/
theorem act_worker_bytes (hact : before.act action = some after) (hworker : action.worker = some id) :
    after.pipe_bytes = before.pipe_bytes ∨
      before.signal_flag = false ∧ after.pipe_bytes = before.write_pipe.pipe_bytes := by
  cases action with
  | worker_lock other =>
    obtain ⟨_, rfl⟩ := only_if_eq_some.mp hact
    exact Or.inl rfl
  | worker_test other =>
    obtain ⟨_, rfl⟩ := only_if_eq_some.mp hact
    unfold State.test_stop
    split
    · exact Or.inl rfl
    · exact Or.inl rfl
  | worker_take other =>
    obtain ⟨_, rfl⟩ := only_if_eq_some.mp hact
    unfold State.take
    split
    · exact Or.inl rfl
    · exact Or.inl rfl
  | worker_process other client success_flag =>
    obtain ⟨_, rfl⟩ := only_if_eq_some.mp hact
    unfold State.process
    simp only
    split
    · exact Or.inl rfl
    · exact Or.inl rfl
  | worker_hand_back_lock other client =>
    obtain ⟨_, rfl⟩ := only_if_eq_some.mp hact
    exact Or.inl rfl
  | worker_hand_back other client =>
    obtain ⟨_, rfl⟩ := only_if_eq_some.mp hact
    cases hflag : before.signal_flag with
    | true =>
      rw [hand_back_eq_close hflag]
      exact Or.inl rfl
    | false =>
      have hflag' : ¬ (before.set_worker other .relock).signal_flag = true := by
        change ¬ before.signal_flag = true
        simp [hflag]
      simp only [State.hand_back, if_neg hflag', State.wakeup_selector]
      split
      · exact Or.inr ⟨trivial, rfl⟩
      · exact Or.inl rfl
  | worker_close other client =>
    obtain ⟨_, rfl⟩ := only_if_eq_some.mp hact
    exact Or.inl rfl
  | worker_relock other =>
    obtain ⟨_, rfl⟩ := only_if_eq_some.mp hact
    exact Or.inl rfl
  | worker_wait other =>
    obtain ⟨_, rfl⟩ := only_if_eq_some.mp hact
    exact Or.inl rfl
  | worker_wake other =>
    obtain ⟨_, rfl⟩ := only_if_eq_some.mp hact
    exact Or.inl rfl
  | _ => cases hworker

/-- A worker that takes a client makes `action_queue` shorter. -/
theorem Invariant.takes_one (h : Invariant strict before place stamp)
    (hact : before.act (.worker_take id) = some after) (hnotEmpty : after.workers id ≠ .returned) :
    after.connector.action_clients.length + 1 = before.connector.action_clients.length := by
  obtain ⟨_, rfl⟩ := only_if_eq_some.mp hact
  have hclients := congrArg List.length (take_action_clients h.consistent.linked id)
  obtain ⟨_, hnone⟩ | ⟨client, hhead, _⟩ := h.consistent.take_action (.worker id)
  · rw [State.take, hnone] at hnotEmpty
    exact absurd (Function.update_self ..) hnotEmpty
  · have hpositive : 0 < before.connector.action_clients.length := by
      have hfirst : before.connector.action_clients.head? = some client := by
        unfold Connector.action_clients Queue.get_first
        rw [hhead]
        rfl
      exact List.length_pos_of_mem (List.mem_of_head? hfirst)
    rw [List.length_tail] at hclients
    omega

theorem Invariant.rank_worker [LawfulCharBuffer Buf] (h : Invariant strict before place stamp)
    (hflag : before.signal_flag = true) (hact : before.act action = some after) (hworker : action.worker = some id)
    (haction : action.by_selector = false) :
    (action.outside = false → after.rank < before.rank) ∧ after.rank ≤ before.rank + 4 := by
  have hmoves := act_worker_moves hact hworker
  have hbytes := (act_worker_bytes hact hworker).resolve_right (by simp [hflag])
  have hchain := h.chain_aside hact haction
  have hselector := (act_aside hact haction).selector
  have hpending := on_action_queue_length action before.connector.action_clients
  rw [← h.action_clients hact] at hpending
  have hqueued : action.queued = 0 := by
    cases action with
    | enqueue client next_client target => cases haction
    | _ => rfl
  have hcount : before.connector.client_pool.get_free_count ≤ after.connector.client_pool.get_free_count := by
    refine (act_free_count hact).resolve_right ?_
    rintro ⟨fd, rfl, _⟩
    cases haction
  have htotal := total_update WorkerPosition.rank before.workers id (after.workers id)
  rw [← hmoves.workers] at htotal
  have hparts : after.rank + (before.workers id).rank + 5 * before.connector.action_clients.length ≤
      before.rank + (after.workers id).rank + 5 * after.connector.action_clients.length := by
    unfold rank
    rw [hmoves.terminated, hmoves.handler, hbytes, hselector, hchain]
    omega
  cases houtside : action.outside with
  | true =>
    refine ⟨nofun, ?_⟩
    cases action with
    | worker_wake other =>
      obtain rfl := Option.some.inj hworker
      obtain ⟨hasleep, rfl⟩ := only_if_eq_some.mp hact
      rw [set_worker_self, hasleep] at hparts
      change _ + 1 + _ ≤ _ + 5 + _ at hparts
      omega
    | signal => cases hworker
    | select_interrupted => cases hworker
    | select_failed => cases hworker
    | _ => cases houtside
  | false =>
    obtain hless | ⟨rfl, hraised⟩ := hmoves.next.rank houtside
    · exact ⟨fun _ => by omega, by omega⟩
    · have htaken := h.takes_one hact (by
        intro hreturned
        have hposition := (only_if_eq_some.mp hact).1
        rw [hreturned, hposition] at hraised
        cases hraised)
      exact ⟨fun _ => by omega, by omega⟩

omit [CharBuffer Buf] in
theorem write_pipe_le (state : State Buf) : state.write_pipe.pipe_bytes ≤ state.pipe_bytes + 1 ∧
    (state.pipe_bytes ≤ PIPE_CAPACITY → state.write_pipe.pipe_bytes ≤ PIPE_CAPACITY) := by
  unfold write_pipe
  simp only
  split
  · exact ⟨le_rfl, fun _ => by omega⟩
  · exact ⟨by omega, fun hbytes => hbytes⟩

omit [CharBuffer Buf] in
theorem handler_write_bytes (state : State Buf) :
    state.ufh_signal_handler_write.pipe_bytes = state.pipe_bytes ∨
      state.ufh_signal_handler_write.pipe_bytes = state.write_pipe.pipe_bytes := by
  unfold ufh_signal_handler_write
  split
  · exact Or.inr rfl
  · exact Or.inl rfl

omit [CharBuffer Buf] in
theorem rank_signal_write (hposition : state.handler = .flagged) :
    state.ufh_signal_handler_write.rank < state.rank := by
  have hbytes : state.ufh_signal_handler_write.pipe_bytes ≤ state.pipe_bytes + 1 := by
    cases handler_write_bytes state with
    | inl hsame => omega
    | inr hwritten => exact hwritten ▸ (write_pipe_le state).1
  obtain ⟨pipe_bytes, hwrite⟩ := ufh_signal_handler_write_eq state
  rw [hwrite] at hbytes ⊢
  unfold rank chain
  rw [hposition]
  simp only [HandlerPosition.rank] at hbytes ⊢
  omega

/-- Once the stop signal has been sent, every step of the server itself lowers the rank. -/
theorem Invariant.rank_act [LawfulCharBuffer Buf] (h : Invariant strict before place stamp)
    (hrunning : before.terminated = false) (hflag : before.signal_flag = true)
    (hact : before.act action = some after) :
    (action.outside = false → after.rank < before.rank) ∧ after.rank ≤ before.rank + 4 := by
  have hlower : after.rank < before.rank →
      (action.outside = false → after.rank < before.rank) ∧ after.rank ≤ before.rank + 4 :=
    fun hless => ⟨fun _ => hless, by omega⟩
  cases action with
  | drain =>
    obtain ⟨hposition, rfl⟩ := only_if_eq_some.mp hact
    exact hlower (rank_drain hposition)
  | cleanup_action =>
    obtain ⟨hposition, rfl⟩ := only_if_eq_some.mp hact
    exact hlower (h.rank_cleanup_action hposition)
  | cleanup_com =>
    obtain ⟨hposition, rfl⟩ := only_if_eq_some.mp hact
    exact hlower (h.rank_cleanup_com hposition)
  | visit client result =>
    by_cases hpipe : result = .broken_pipe
    · subst hpipe
      obtain ⟨_, rfl⟩ := only_if_eq_some.mp hact
      exact hlower (rank_killed hrunning client)
    · refine hlower (h.rank_selector hflag hact rfl ?_)
      cases result with
      | broken_pipe => exact absurd rfl hpipe
      | _ => rfl
  | signal =>
    obtain ⟨hidle, rfl⟩ := only_if_eq_some.mp hact
    refine ⟨nofun, ?_⟩
    unfold rank chain
    rw [hidle]
    simp only [HandlerPosition.rank]
    omega
  | signal_flag =>
    obtain ⟨hlocked, rfl⟩ := only_if_eq_some.mp hact
    apply hlower
    unfold ufh_signal_handler_flag rank chain
    rw [hlocked]
    simp only [HandlerPosition.rank]
    omega
  | signal_write =>
    obtain ⟨hflagged, rfl⟩ := only_if_eq_some.mp hact
    exact hlower (rank_signal_write hflagged)
  | worker_lock id => exact h.rank_worker hflag hact rfl rfl
  | worker_test id => exact h.rank_worker hflag hact rfl rfl
  | worker_take id => exact h.rank_worker hflag hact rfl rfl
  | worker_process id client success_flag => exact h.rank_worker hflag hact rfl rfl
  | worker_hand_back_lock id client => exact h.rank_worker hflag hact rfl rfl
  | worker_hand_back id client => exact h.rank_worker hflag hact rfl rfl
  | worker_close id client => exact h.rank_worker hflag hact rfl rfl
  | worker_relock id => exact h.rank_worker hflag hact rfl rfl
  | worker_wait id => exact h.rank_worker hflag hact rfl rfl
  | worker_wake id => exact h.rank_worker hflag hact rfl rfl
  | _ => exact hlower (h.rank_selector hflag hact rfl rfl)

end

/-- The largest rank of a state whose trigger pipe holds no more bytes than it can. -/
theorem rank_le (hbytes : state.pipe_bytes ≤ PIPE_CAPACITY) : state.rank ≤ PIPE_CAPACITY + 724 := by
  have hselector := state.selector.rank_le state.chain_le
  have hclients : state.connector.action_clients.length ≤ MAX_CONNECTIONS := follow_length_le ..
  have hworkers : total WorkerPosition.rank state.workers ≤ _ :=
    total_le_bound WorkerPosition.rank WorkerPosition.rank_le
  have hhandler : state.handler.rank ≤ 3 := by
    cases state.handler <;> decide
  have hterminated : (if state.terminated then 0 else 1) ≤ 1 := by
    split
    · exact Nat.zero_le _
    · exact le_rfl
  rw [Fintype.card_fin] at hworkers
  unfold rank MAX_CONNECTIONS at *
  omega

end State

end ufh
