import UniversalFencingHub.Properties.FailingConnection
import UniversalFencingHub.Properties.LockDiscipline
import UniversalFencingHub.Threads.Operations

open linked_list transition

namespace ufh

/-- What becomes of a client that the I/O pass visits. -/
inductive Fate where
  | stays
  | completed
  | closed
  deriving DecidableEq

/-- The fate of a client, by its state and by what `recv()` or `send()` returns for it. -/
def NetClient.fate {Buf : Type} (object : NetClient Buf) (result : IoResult) : Fate :=
  if object.current_phase = .CANCELED then .closed
  else
    match result with
    | .no_call => .stays
    | .received data => if (object.receive data).2 then .completed else .stays
    | .receive_failed => .closed
    | .sent count =>
      if (object.prepare_send.sent count).2 ∧ object.next_phase = .CANCELED then .closed else .stays
    | .send_failed => .closed
    | .broken_pipe => .stays

section

variable {Buf : Type} [CharBuffer Buf] {connector : Connector Buf} {place : ClientPtr → Place}
  {stamp : ClientPtr → Nat} {client : ClientPtr} {result : IoResult} {read_fd_set write_fd_set : List Int}

omit [CharBuffer Buf] in
theorem leaves_iff_fate (hnext : ∀ data, result = .received data → (connector.clients client).next_phase = .PENDING) :
    (connector.clients client).Leaves result ↔ (connector.clients client).fate result ≠ .stays := by
  unfold NetClient.Leaves NetClient.fate
  by_cases hcanceled : (connector.clients client).current_phase = .CANCELED
  · simp [hcanceled]
  · cases result with
    | received data => simp [hcanceled, hnext data rfl]
    | _ => simp [hcanceled]

/-- The pass puts a client on `action_queue` exactly when its message has completed. -/
theorem pending_iff_fate (hpossible : (connector.clients client).io_possible read_fd_set write_fd_set result)
    (hnext : ∀ data, result = .received data → (connector.clients client).next_phase = .PENDING) :
    (connector.perform_io read_fd_set write_fd_set client result).2 = true ↔
      (connector.clients client).fate result = .completed := by
  unfold NetClient.io_possible at hpossible
  unfold NetClient.fate Connector.perform_io
  by_cases hcanceled : (connector.clients client).current_phase = .CANCELED
  · simp [hcanceled]
  · simp only [if_neg hcanceled] at hpossible ⊢
    by_cases hreadable : (connector.clients client).socket_fd ∈ read_fd_set
    · simp only [if_pos hreadable] at hpossible ⊢
      cases result with
      | received data =>
        have hpending := (receive_kept (connector.clients client) data).1.trans (hnext data rfl)
        rw [receive_message_received]
        cases hcomplete : ((connector.clients client).receive data).2 with
        | false => simp [hcomplete]
        | true => simp [hcomplete, Connector.receive_completed, Connector.set_client, hpending]
      | receive_failed => simp [Connector.receive_message]
      | _ => cases hpossible
    · simp only [if_neg hreadable] at hpossible ⊢
      by_cases hwritable : (connector.clients client).socket_fd ∈ write_fd_set
      · simp only [if_pos hwritable] at hpossible ⊢
        cases result with
        | sent count =>
          simp only [Bool.false_eq_true, false_iff]
          split
          · exact fun hstays => by cases hstays
          · exact fun hclosed => by cases hclosed
        | received data => cases hpossible
        | _ => simp
      · simp only [if_neg hwritable] at hpossible ⊢
        subst hpossible
        simp

omit [CharBuffer Buf] in
/-- A step that takes a client off `com_queue` does not leave it as it is. -/
theorem Unlinks.not_same {after : Connector Buf} (h : Unlinks client connector after) :
    ¬ SameQueues connector after := by
  intro hsame
  have hsize : size_decrement connector.com_queue.size = connector.com_queue.size :=
    congrArg Queue.size (h.1.symm.trans hsame.1)
  unfold size_decrement at hsize
  split at hsize
  · omega
  · omega

/-- A queued client for which `recv()` is called waits for a message. -/
theorem Consistent.receiving (h : Consistent connector place stamp) (hqueued : place client = .queued)
    (hread : (connector.clients client).socket_fd ∈ read_fd_set → (connector.clients client).io_state = .READ)
    {data : Bytes} (hpossible : (connector.clients client).io_possible read_fd_set write_fd_set (.received data)) :
    (connector.clients client).next_phase = .PENDING := by
  have hreadable : (connector.clients client).socket_fd ∈ read_fd_set := by
    unfold NetClient.io_possible at hpossible
    split at hpossible
    · cases hpossible
    · split at hpossible
      · next hreadable => exact hreadable
      · split at hpossible
        · cases hpossible
        · cases hpossible
  have hsession := h.sessions.session client
  rw [hqueued] at hsession
  cases hsession with
  | inl hawaits =>
    obtain ⟨_, hawaits⟩ := hawaits
    exact hawaits.receiving.next_phase
  | inr howes =>
    obtain ⟨_, _, _, howes⟩ := howes
    have hio := howes.replying.io_state
    rw [hread hreadable] at hio
    cases hio

/-- What the I/O pass does with a queued client, by its fate. -/
theorem Consistent.perform_io_fate [LawfulCharBuffer Buf] (h : Consistent connector place stamp)
    (hqueued : place client = .queued)
    (hread : (connector.clients client).socket_fd ∈ read_fd_set → (connector.clients client).io_state = .READ)
    (hwrite : (connector.clients client).socket_fd ∈ write_fd_set → (connector.clients client).io_state = .WRITE)
    (hpossible : (connector.clients client).io_possible read_fd_set write_fd_set result)
    (hpipe : result ≠ .broken_pipe) {performed : Connector Buf × Bool}
    (hperformed : connector.perform_io read_fd_set write_fd_set client result = performed) :
    match (connector.clients client).fate result with
    | .stays => performed.2 = false ∧ SameQueues connector performed.1
    | .completed => performed.2 = true ∧ Unlinks client connector performed.1
    | .closed => performed.2 = false ∧ Unlinks client connector performed.1 ∧
        client ∈ performed.1.client_pool.free_objects ∧
        (0 ≤ (connector.clients client).socket_fd → (connector.clients client).socket_fd ∉ performed.1.open_fds) := by
  have hnext : ∀ data, result = .received data → (connector.clients client).next_phase = .PENDING := by
    rintro data rfl
    exact h.receiving hqueued hread hpossible
  obtain ⟨_, hrest⟩ := h.perform_io hqueued hread hwrite hpossible hpipe
  obtain ⟨hleaves, hstays⟩ := queues_perform_io hpossible hpipe
  have hcompleted := pending_iff_fate hpossible hnext
  have hcloses : ClosesOwn client connector (connector.perform_io read_fd_set write_fd_set client result).1 :=
    closes_own_perform_io
  rw [leaves_iff_fate hnext] at hleaves hstays
  rw [hperformed] at hrest hleaves hstays hcompleted hcloses
  cases hfate : (connector.clients client).fate result with
  | stays =>
    rw [hfate] at hcompleted hstays
    exact ⟨by simpa using hcompleted, hstays (by simp)⟩
  | completed =>
    rw [hfate] at hcompleted hleaves
    exact ⟨hcompleted.mpr rfl, hleaves nofun⟩
  | closed =>
    rw [hfate] at hcompleted hleaves
    have hdone : performed.2 = false := by simpa using hcompleted
    have hunlinks := hleaves nofun
    have hfree : client ∈ performed.1.client_pool.free_objects := by
      obtain ⟨_, hsame⟩ | ⟨hconsistent, _⟩ := hrest hdone
      · exact absurd hsame hunlinks.not_same
      · exact (hconsistent.pooled.free_iff client).mpr (Function.update_self ..)
    refine ⟨hdone, hunlinks, hfree, fun hvalid => ?_⟩
    obtain ⟨_, hpool⟩ | ⟨hclosed, _⟩ := hcloses
    · rw [hpool, h.pooled.free_iff, hqueued] at hfree
      cases hfree
    · rw [hclosed, sys.close_fd, if_pos hvalid]
      simp

end

/-- The client that the pass has taken off `com_queue` and not yet put on `action_queue`. -/
def SelectorPosition.handing : SelectorPosition → List ClientPtr
  | .enqueue_lock client _ => [client]
  | .enqueue client _ => [client]
  | _ => []

/-- The steps that the selector takes at most before it visits the next client. -/
def SelectorPosition.pass_steps : SelectorPosition → Nat
  | .pass_first => 1
  | .enqueue_lock _ _ => 2
  | .enqueue _ _ => 1
  | _ => 0

/-- The positions of the pass over `com_queue` after its first step. -/
def SelectorPosition.passing : SelectorPosition → Bool
  | .pass _ => true
  | .enqueue_lock _ _ => true
  | .enqueue _ _ => true
  | _ => false

/-- The record of a pass: the clients visited and what became of them, the clients that
workers took off `action_queue` meanwhile, and the number of steps of the selector. -/
structure PassLog where
  visited : List (ClientPtr × Fate) := []
  taken : List ClientPtr := []
  steps : Nat := 0

namespace PassLog

/-- The clients visited, in order. -/
def clients (log : PassLog) : List ClientPtr := log.visited.map Prod.fst

/-- The clients of one fate, in the order of the visits. -/
def of_fate (log : PassLog) (fate : Fate) : List ClientPtr :=
  (log.visited.filter (fun visit => visit.2 = fate)).map Prod.fst

theorem of_fate_sublist (log : PassLog) (fate : Fate) : (log.of_fate fate).Sublist log.clients :=
  List.filter_sublist.map Prod.fst

/-- The record after one more step. -/
def record {Buf : Type} (log : PassLog) (state : State Buf) (action : Action) : PassLog where
  visited :=
    match action with
    | .visit client result => log.visited ++ [(client, (state.connector.clients client).fate result)]
    | _ => log.visited
  taken :=
    match action with
    | .worker_take _ => log.taken ++ state.connector.action_clients.head?.toList
    | _ => log.taken
  steps := if action.by_selector then log.steps + 1 else log.steps

theorem clients_record_visit {Buf : Type} (log : PassLog) (state : State Buf) (client : ClientPtr) (result : IoResult) :
    (log.record state (.visit client result)).clients = log.clients ++ [client] := by
  simp [clients, record]

theorem of_fate_record_visit {Buf : Type} (log : PassLog) (state : State Buf) (client : ClientPtr) (result : IoResult)
    (fate : Fate) : (log.record state (.visit client result)).of_fate fate =
      log.of_fate fate ++ if (state.connector.clients client).fate result = fate then [client] else [] := by
  by_cases hfate : (state.connector.clients client).fate result = fate
  · simp [of_fate, record, hfate]
  · simp [of_fate, record, hfate]

end PassLog

namespace State

variable {Buf : Type}

/-- The steps of a pass during which no other thread changes `com_queue`. -/
def OfPass (state : State Buf) (action : Action) : Prop :=
  (action.by_selector = true ∨ state.uses_com_queue action = false) ∧ action ≠ .pass_end

instance (state : State Buf) (action : Action) : Decidable (state.OfPass action) := inferInstanceAs (Decidable (_ ∧ _))

variable [CharBuffer Buf]

/-- A step together with the record of the pass. -/
def pass_step (state : State Buf × PassLog) (action : Action) : Option (State Buf × PassLog) :=
  (state.1.step action).map (fun after => (after, state.2.record state.1 action))

/-- The states of one pass over `com_queue`, with its record. Other threads run meanwhile,
but leave `com_queue` alone. -/
def Passes (first last : State Buf) (log : PassLog) : Prop :=
  ReachesWhere pass_step (fun state action => state.1.OfPass action) (first, {}) (last, log)

/-- The state in the middle of a pass, of which the clients `rest` are still to be visited. -/
structure Passing (first : State Buf) (queued rest : List ClientPtr) (log : PassLog) (state : State Buf) : Prop where
  visited : log.clients ++ rest = queued
  com_queue : state.connector.com_queue.Represents state.connector.nodes (log.of_fate .stays ++ rest)
  position : state.selector = .pass_first ∧ log.visited = [] ∨
    state.selector.passing = true ∧ state.selector.cursor = rest.head?
  action_queue : first.connector.action_clients ++ log.of_fate .completed =
    log.taken ++ state.connector.action_clients ++ state.selector.handing
  closed : ∀ client ∈ log.of_fate .closed, client ∈ state.connector.client_pool.free_objects ∧
    (0 ≤ (first.connector.clients client).socket_fd →
      (first.connector.clients client).socket_fd ∉ state.connector.open_fds)
  sockets : SameSockets first.connector state.connector
  steps : log.steps + state.selector.pass_steps + 3 * rest.length ≤ 3 * queued.length + 1

/-- What a pass over `com_queue` has done when it is over. -/
structure PassedOver (first : State Buf) (queued : List ClientPtr) (log : PassLog) (last : State Buf) : Prop where
  visited : log.clients = queued
  com_queue : last.connector.com_queue.Represents last.connector.nodes (log.of_fate .stays)
  action_queue : first.connector.action_clients ++ log.of_fate .completed = log.taken ++ last.connector.action_clients
  in_order : ∀ fate, (log.of_fate fate).Sublist queued
  closed : ∀ client ∈ log.of_fate .closed, client ∈ last.connector.client_pool.free_objects ∧
    (last.connector.clients client).socket_fd = sys.FD_NONE ∧
    (0 ≤ (first.connector.clients client).socket_fd →
      (first.connector.clients client).socket_fd ∉ last.connector.open_fds)

/-- The selector can take a step of the pass, or waits for the thread that holds `action_queue_lock`. -/
def Proceeds (state : State Buf) : Prop :=
  (∃ action, state.OfPass action ∧ action.by_selector = true ∧ (state.step action).isSome) ∨
    ∃ client next_client, state.selector = .enqueue_lock client next_client ∧ state.action_queue_lock.isSome

/-- A step that neither opens a descriptor nor takes an object from the pool. -/
structure Releases (before after : Connector Buf) : Prop where
  free_objects : before.client_pool.free_objects ⊆ after.client_pool.free_objects
  open_fds : after.open_fds ⊆ before.open_fds

theorem act_releases {before after : State Buf} {action : Action} (hact : before.act action = some after)
    (hother : action.on_own_fds = false) (haccept : ∀ fd, action ≠ .accept fd) :
    Releases before.connector after.connector := by
  have hkept : ∀ {connector : Connector Buf}, connector.client_pool = before.connector.client_pool →
      connector.open_fds = before.connector.open_fds → Releases before.connector connector := by
    intro connector hpool hopen
    exact ⟨by rw [hpool]; exact List.Subset.refl _, by rw [hopen]; exact List.Subset.refl _⟩
  have hclosed : ∀ {connector : Connector Buf} {fd : Int} {client : ClientPtr},
      connector.client_pool = before.connector.client_pool.deallocate client →
      connector.open_fds = (sys.close_fd before.connector.open_fds fd).1 → Releases before.connector connector := by
    intro connector fd client hpool hopen
    exact ⟨by rw [hpool]; exact GenAlloc.free_objects_deallocate _ _, by rw [hopen]; exact sys.close_fd_subset _ _⟩
  have hoperates := act_operates hact
  generalize after.connector = connector at hoperates ⊢
  cases hoperates with
  | opened => cases hother
  | socket_closed => cases hother
  | pipe_closed => cases hother
  | queued_closed => cases hother
  | accepted fd => exact absurd rfl (haccept fd)
  | visited client result _ =>
    have hcloses : ClosesOwn client before.connector
        (before.connector.perform_io before.read_fd_set before.write_fd_set client result).1 := closes_own_perform_io
    obtain ⟨hopen, hpool⟩ | ⟨hopen, hpool⟩ := hcloses
    · exact hkept hpool hopen
    · exact hclosed hpool hopen
  | taken id => exact hkept (take_action_kept before.connector).2 (take_action_kept before.connector).1
  | pending_closed client _ => exact hclosed rfl rfl
  | dismissed id client => exact hclosed rfl rfl
  | closed id client => exact hclosed rfl rfl
  | _ => exact hkept rfl rfl

variable [LawfulCharBuffer Buf] {first before after : State Buf} {queued rest : List ClientPtr} {log : PassLog}
  {place : ClientPtr → Place} {stamp : ClientPtr → Nat} {strict : Prop} {action : Action} {client : ClientPtr}

omit [LawfulCharBuffer Buf] in
theorem Invariant.represents_queued (h : Invariant strict before place stamp) {clients : List ClientPtr}
    (hrepresents : before.connector.com_queue.Represents before.connector.nodes clients) (hmem : client ∈ clients) :
    place client = .queued := by
  rw [← hrepresents.walk] at hmem
  exact h.consistent.linked.follow_queued _ client hmem

/-- The step of another thread that leaves `com_queue` alone. -/
theorem Passing.aside (h : Passing first queued rest log before) (hinvariant : Invariant strict before place stamp)
    (hact : before.act action = some after) (haction : action.by_selector = false)
    (huses : before.uses_com_queue action = false) : Passing first queued rest (log.record before action) after := by
  have haside := act_aside hact haction
  have hvisited : (log.record before action).visited = log.visited := by
    cases action with
    | visit client result => cases haction
    | _ => rfl
  have hclients : (log.record before action).clients = log.clients := congrArg (List.map Prod.fst) hvisited
  have hfate : ∀ fate, (log.record before action).of_fate fate = log.of_fate fate := by
    intro fate
    rw [PassLog.of_fate, hvisited]
    rfl
  obtain ⟨hqueue, hnodes⟩ := hinvariant.keeps_com hact huses
  have hreleases : Releases before.connector after.connector := by
    apply act_releases hact
    · cases action with
      | init => cases haction
      | cleanup_socket => cases haction
      | cleanup_com => cases haction
      | _ => rfl
    · rintro fd rfl
      cases haction
  refine ⟨by rw [hclients, h.visited], ?_, ?_, ?_, ?_, ?_, ?_⟩
  · rw [hfate, hqueue]
    exact h.com_queue.congr (fun client hclient => hnodes client (hinvariant.represents_queued h.com_queue hclient))
  · rw [hvisited, haside.selector]
    exact h.position
  · have htaken : (log.record before action).taken ++ after.connector.action_clients =
        log.taken ++ before.connector.action_clients := by
      rw [hinvariant.action_clients hact]
      cases action with
      | enqueue client next_client target => cases haction
      | cleanup_action => cases haction
      | worker_take id =>
        simp only [PassLog.record, Action.on_action_queue, List.append_assoc]
        cases before.connector.action_clients with
        | nil => rfl
        | cons head tail => rfl
      | _ => rfl
    rw [hfate, htaken, haside.selector]
    exact h.action_queue
  · intro client hclient
    rw [hfate] at hclient
    obtain ⟨hfree, hgone⟩ := h.closed client hclient
    exact ⟨hreleases.free_objects hfree, fun hvalid hopen => hgone hvalid (hreleases.open_fds hopen)⟩
  · obtain hsame | ⟨fd, _, rfl, _⟩ := act_sockets hact
    · exact h.sockets.trans hsame
    · cases haction
  · have hsteps : (log.record before action).steps = log.steps := if_neg (by simp [haction])
    rw [hsteps, haside.selector]
    exact h.steps

omit [CharBuffer Buf] [LawfulCharBuffer Buf] in
theorem Passing.pass_first (h : Passing first queued rest log before) (hposition : before.selector = .pass_first) :
    Passing first queued rest (log.record before .pass_first)
      { before with selector := .pass before.connector.com_queue.get_first } := by
  obtain ⟨_, hvisited⟩ | ⟨hpassing, _⟩ := h.position
  · have hlog : log.of_fate .stays = [] := by rw [PassLog.of_fate, hvisited]; rfl
    have haction := h.action_queue
    have hsteps := h.steps
    rw [hposition] at haction hsteps
    refine ⟨h.visited, h.com_queue, Or.inr ⟨rfl, ?_⟩, haction, h.closed, h.sockets, ?_⟩
    · have hhead := h.com_queue.head
      rw [hlog] at hhead
      exact hhead
    · change log.steps + 1 + 0 + _ ≤ _
      simpa [SelectorPosition.pass_steps] using hsteps
  · rw [hposition] at hpassing
    cases hpassing

omit [CharBuffer Buf] [LawfulCharBuffer Buf] in
/-- The client at which the pass stands is the next one of those still to be visited. -/
theorem Passing.cursor (h : Passing first queued rest log before) (hcursor : before.selector.cursor = some client) :
    ∃ others, rest = client :: others := by
  obtain ⟨hposition, _⟩ | ⟨_, hrest⟩ := h.position
  · rw [hposition] at hcursor
    cases hcursor
  · rw [hcursor] at hrest
    cases rest with
    | nil => cases hrest
    | cons next others =>
      obtain rfl := Option.some.inj hrest
      exact ⟨others, rfl⟩

omit [LawfulCharBuffer Buf] in
/-- A queued client has the descriptor that it had when the pass began. -/
theorem Passing.same_socket {place' : ClientPtr → Place} {stamp' : ClientPtr → Nat}
    (h : Passing first queued rest log before) (hfirst : Invariant strict first place' stamp')
    (hinvariant : Invariant strict before place stamp) (hused' : place' client ≠ .free) (hused : place client ≠ .free) :
    (before.connector.clients client).socket_fd = (first.connector.clients client).socket_fd := by
  have hbefore := (hinvariant.consistent.sockets.used client hused).1
  rw [← hbefore, ← (hfirst.consistent.sockets.used client hused').1, Connector.record, Connector.record,
    h.sockets.connection]
  exact h.sockets.socket _

/-- What a visit does with `com_queue`, with the cursor and with the client, by the fate of the client. -/
theorem visit_fate {result : IoResult} {front back : List ClientPtr} (hinvariant : Invariant strict before place stamp)
    (hact : before.act (.visit client result) = some after) (hrunning : after.terminated = false)
    (hcom : before.connector.com_queue.Represents before.connector.nodes (front ++ client :: back)) :
    after.connector.com_queue.Represents after.connector.nodes
        (front ++ (if (before.connector.clients client).fate result = .stays then [client] else []) ++ back) ∧
      after.selector = (if (before.connector.clients client).fate result = .completed
        then .enqueue_lock client back.head?
        else .pass back.head?) ∧
      ((before.connector.clients client).fate result = .closed →
        client ∈ after.connector.client_pool.free_objects ∧ (0 ≤ (before.connector.clients client).socket_fd →
          (before.connector.clients client).socket_fd ∉ after.connector.open_fds)) := by
  obtain ⟨⟨hposition, hpossible⟩, hvisit⟩ := only_if_eq_some.mp hact
  have hcursor : before.selector.cursor = some client := by rw [hposition]; rfl
  have hpipe : result ≠ .broken_pipe := by
    rintro rfl
    rw [← hvisit, State.visit, if_pos rfl] at hrunning
    cases hrunning
  have hplace := hinvariant.interest.cursor client hcursor
  obtain ⟨hread, hwrite⟩ := hinvariant.interest.fits client hplace (Or.inr ⟨client, hcursor, le_rfl⟩)
  have hdone := hinvariant.consistent.perform_io_fate hplace hread hwrite hpossible hpipe rfl
  rw [visit_eq hpipe, hcom.links.2] at hvisit
  generalize before.connector.perform_io before.read_fd_set before.write_fd_set client result =
    performed at hdone hvisit
  subst hvisit
  cases hfate : (before.connector.clients client).fate result with
  | stays =>
    rw [hfate] at hdone
    obtain ⟨hpending, hqueue, hnodes, _⟩ := hdone
    simp only [hpending, hqueue, hnodes]
    refine ⟨?_, rfl, fun hclosed => by cases hclosed⟩
    simpa using hcom
  | completed =>
    rw [hfate] at hdone
    obtain ⟨hpending, hqueue, hnodes, _⟩ := hdone
    simp only [hpending, hqueue, hnodes]
    refine ⟨?_, trivial, fun hclosed => by cases hclosed⟩
    simpa using hcom.remove
  | closed =>
    rw [hfate] at hdone
    obtain ⟨hpending, ⟨hqueue, hnodes, _⟩, hclosed⟩ := hdone
    simp only [hpending, hqueue, hnodes]
    refine ⟨?_, rfl, fun _ => hclosed⟩
    simpa using hcom.remove

/-- The visit of the next client. -/
theorem Passing.visit {place' : ClientPtr → Place} {stamp' : ClientPtr → Nat} {result : IoResult}
    (h : Passing first queued rest log before) (hfirst : Invariant strict first place' stamp')
    (hqueued' : ∀ client ∈ queued, place' client = .queued) (hinvariant : Invariant strict before place stamp)
    (hact : before.act (.visit client result) = some after) (hrunning : after.terminated = false) :
    ∃ others, rest = client :: others ∧ Passing first queued others
    (log.record before (.visit client result)) after := by
  obtain ⟨⟨hposition, _⟩, _⟩ := only_if_eq_some.mp hact
  have hcursor : before.selector.cursor = some client := by rw [hposition]; rfl
  obtain ⟨others, rfl⟩ := h.cursor hcursor
  have hreleases : Releases before.connector after.connector := act_releases hact rfl nofun
  obtain ⟨hcom, hselector, hclosed⟩ := visit_fate hinvariant hact hrunning h.com_queue
  have hfd : (before.connector.clients client).socket_fd = (first.connector.clients client).socket_fd := by
    apply h.same_socket hfirst hinvariant
    · rw [hqueued' client (by rw [← h.visited]; simp)]
      simp
    · rw [hinvariant.interest.cursor client hcursor]
      simp
  refine ⟨others, rfl, ?_, ?_, Or.inr ?_, ?_, ?_, ?_, ?_⟩
  · rw [PassLog.clients_record_visit, ← h.visited]
    simp
  · rwa [PassLog.of_fate_record_visit]
  · rw [hselector]
    split
    · exact ⟨rfl, rfl⟩
    · exact ⟨rfl, rfl⟩
  · have haction := h.action_queue
    rw [hposition] at haction
    rw [PassLog.of_fate_record_visit, hinvariant.action_clients hact, ← List.append_assoc, haction, hselector]
    split
    · simp [PassLog.record, Action.on_action_queue, SelectorPosition.handing]
    · simp [PassLog.record, Action.on_action_queue, SelectorPosition.handing]
  · intro other hother
    rw [PassLog.of_fate_record_visit, List.mem_append] at hother
    cases hother with
    | inl hearlier =>
      obtain ⟨hfree, hgone⟩ := h.closed other hearlier
      exact ⟨hreleases.free_objects hfree, fun hvalid hopen => hgone hvalid (hreleases.open_fds hopen)⟩
    | inr hnow =>
      split at hnow
      · next hfate =>
        obtain rfl := List.mem_singleton.mp hnow
        rw [← hfd]
        exact hclosed hfate
      · cases hnow
  · obtain hsame | ⟨_, _, hfalse, _⟩ := act_sockets hact
    · exact h.sockets.trans hsame
    · cases hfalse
  · have hsteps := h.steps
    rw [hposition, List.length_cons] at hsteps
    have hbound : after.selector.pass_steps ≤ 2 := by
      rw [hselector]
      split
      · exact le_rfl
      · exact Nat.zero_le _
    change log.steps + 1 + _ + _ ≤ _
    change log.steps + 0 + _ ≤ _ at hsteps
    omega

omit [CharBuffer Buf] [LawfulCharBuffer Buf] in
theorem Passing.enqueue_lock {next_client : Option ClientPtr} (h : Passing first queued rest log before)
    (hposition : before.selector = .enqueue_lock client next_client) :
    Passing first queued rest (log.record before (.enqueue_lock client next_client))
      { before with action_queue_lock := some .selector, selector := .enqueue client next_client } := by
  obtain ⟨hnow, _⟩ | ⟨_, hcursor⟩ := h.position
  · rw [hposition] at hnow
    cases hnow
  · have haction := h.action_queue
    have hsteps := h.steps
    rw [hposition] at haction hsteps hcursor
    refine ⟨h.visited, h.com_queue, Or.inr ⟨rfl, hcursor⟩, haction, h.closed, h.sockets, ?_⟩
    change log.steps + 1 + 1 + _ ≤ _
    change log.steps + 2 + _ ≤ _ at hsteps
    omega

/-- The client whose message has completed joins `action_queue`. -/
theorem Passing.enqueue {next_client : Option ClientPtr} {target : Option WorkerId}
    (h : Passing first queued rest log before) (hinvariant : Invariant strict before place stamp)
    (hact : before.act (.enqueue client next_client target) = some after) :
    Passing first queued rest (log.record before (.enqueue client next_client target)) after := by
  have hreleases : Releases before.connector after.connector := act_releases hact rfl nofun
  obtain ⟨hqueue, hnodes⟩ := hinvariant.keeps_com hact rfl
  have hnext := act_next hact rfl
  obtain ⟨hposition, _⟩ := (only_if_eq_some.mp hact).1
  have hselector : after.selector = .pass next_client := by
    rw [hposition] at hnext
    generalize after.selector = position at hnext ⊢
    cases hnext
    rfl
  obtain ⟨hnow, _⟩ | ⟨_, hcursor⟩ := h.position
  · rw [hposition] at hnow
    cases hnow
  · have haction := h.action_queue
    have hsteps := h.steps
    rw [hposition] at haction hsteps hcursor
    refine ⟨h.visited, ?_, Or.inr ?_, ?_, ?_, ?_, ?_⟩
    · rw [hqueue]
      exact h.com_queue.congr (fun client hclient => hnodes client (hinvariant.represents_queued h.com_queue hclient))
    · rw [hselector]
      exact ⟨rfl, hcursor⟩
    · rw [hinvariant.action_clients hact, hselector]
      change _ ++ log.of_fate .completed = log.taken ++ (_ ++ [client]) ++ []
      rw [haction]
      simp [SelectorPosition.handing]
    · intro other hother
      obtain ⟨hfree, hgone⟩ := h.closed other hother
      exact ⟨hreleases.free_objects hfree, fun hvalid hopen => hgone hvalid (hreleases.open_fds hopen)⟩
    · obtain hsame | ⟨_, _, hfalse, _⟩ := act_sockets hact
      · exact h.sockets.trans hsame
      · cases hfalse
    · rw [hselector]
      change log.steps + 1 + 0 + _ ≤ _
      change log.steps + 1 + _ ≤ _ at hsteps
      omega

/-- A step of the pass. -/
theorem Passing.step {place' : ClientPtr → Place} {stamp' : ClientPtr → Nat} (h : Passing first queued rest log before)
    (hfirst : Invariant strict first place' stamp') (hqueued' : ∀ client ∈ queued, place' client = .queued)
    (hinvariant : Invariant strict before place stamp) (hpass : before.OfPass action)
    (hact : before.act action = some after) (hrunning : after.terminated = false) :
    ∃ others, Passing first queued others (log.record before action) after := by
  obtain ⟨hthread, hend⟩ := hpass
  cases haction : action.by_selector with
  | false =>
    have huses := hthread.resolve_left (by simp [haction])
    exact ⟨rest, h.aside hinvariant hact haction huses⟩
  | true =>
    have hnext := act_next hact haction
    have hposition : before.selector = .pass_first ∨ before.selector.passing = true := h.position.imp And.left And.left
    generalize hbefore : before.selector = position at hnext hposition
    generalize after.selector = position' at hnext
    cases hnext with
    | first cursor =>
      obtain ⟨_, rfl⟩ := only_if_eq_some.mp hact
      exact ⟨rest, h.pass_first hbefore⟩
    | killed visited result =>
      obtain ⟨others, _, hafter⟩ := h.visit hfirst hqueued' hinvariant hact hrunning
      exact ⟨others, hafter⟩
    | visited visited result next_client =>
      obtain ⟨others, _, hafter⟩ := h.visit hfirst hqueued' hinvariant hact hrunning
      exact ⟨others, hafter⟩
    | completed visited result next_client =>
      obtain ⟨others, _, hafter⟩ := h.visit hfirst hqueued' hinvariant hact hrunning
      exact ⟨others, hafter⟩
    | passed => exact absurd rfl hend
    | enqueue_locked pending next_client =>
      obtain ⟨_, rfl⟩ := only_if_eq_some.mp hact
      exact ⟨rest, h.enqueue_lock hbefore⟩
    | enqueued pending next_client target => exact ⟨rest, h.enqueue hinvariant hact⟩
    | _ => simp [SelectorPosition.passing] at hposition

theorem Passes.passing {last : State Buf} (h : first.Passes last log) (hreachable : first.Reachable)
    (hposition : first.selector = .pass_first)
    (hqueued : first.connector.com_queue.Represents first.connector.nodes queued) :
    last.Reachable ∧ (last.terminated = false → ∃ rest, Passing first queued rest log last) := by
  obtain ⟨place', stamp', hfirst⟩ := Reachable.sound hreachable
  have hqueued' : ∀ client ∈ queued, place' client = .queued :=
    fun client hclient => hfirst.represents_queued hqueued hclient
  have hrun : ReachesWhere pass_step (fun state action => state.1.OfPass action) (first, {}) (last, log) := h
  apply ReachesWhere.invariant (P := fun state : State Buf × PassLog =>
    state.1.Reachable ∧ (state.1.terminated = false → ∃ rest, Passing first queued rest state.2 state.1)) hrun
  · refine ⟨hreachable, fun _ => ⟨queued, rfl, hqueued, Or.inl ⟨hposition, rfl⟩, ?_, nofun, .of_eq rfl rfl rfl, ?_⟩⟩
    · rw [hposition]
      change first.connector.action_clients ++ [] = first.connector.action_clients ++ []
      rfl
    · rw [hposition]
      change 0 + 1 + _ ≤ _
      omega
  · rintro ⟨before, log⟩ action pair ⟨hbefore, hpassing⟩ hpass hpair
    obtain ⟨after, hstep, rfl⟩ := Option.map_eq_some_iff.mp hpair
    obtain ⟨hrunning, hact⟩ := step_eq_some.mp hstep
    obtain ⟨rest, hpassing⟩ := hpassing hrunning
    obtain ⟨place, stamp, hinvariant⟩ := Reachable.sound hbefore
    exact ⟨hbefore.tail trivial hstep, hpassing.step hfirst hqueued' hinvariant hpass hact⟩

omit [CharBuffer Buf] [LawfulCharBuffer Buf] in
theorem exists_io_possible (object : NetClient Buf) (read_fd_set write_fd_set : List Int) :
    ∃ result, object.io_possible read_fd_set write_fd_set result := by
  unfold NetClient.io_possible
  split
  · exact ⟨_, rfl⟩
  · split
    · exact ⟨.receive_failed, trivial⟩
    · split
      · exact ⟨.send_failed, trivial⟩
      · exact ⟨_, rfl⟩

omit [CharBuffer Buf] [LawfulCharBuffer Buf] in
theorem exists_notify_possible (state : State Buf) : ∃ target, state.notify_possible target := by
  by_cases hasleep : ∃ id, state.workers id = .asleep
  · obtain ⟨id, hasleep⟩ := hasleep
    exact ⟨some id, hasleep⟩
  · exact ⟨none, fun id hid => hasleep ⟨id, hid⟩⟩

omit [LawfulCharBuffer Buf] in
/-- The pass does not get stuck. -/
theorem Passing.proceeds (h : Passing first queued rest log before) (hrunning : before.terminated = false)
    (hend : before.selector ≠ .pass none) : before.Proceeds := by
  have hstep : ∀ action {after}, action ≠ .pass_end → action.by_selector = true → before.act action = some after →
      before.Proceeds := by
    intro action after hpass haction hact
    exact Or.inl ⟨action, ⟨Or.inl haction, hpass⟩, haction, by rw [step_eq_some.mpr ⟨hrunning, hact⟩]; rfl⟩
  cases hposition : before.selector with
  | pass_first => exact hstep .pass_first nofun rfl (only_if_eq_some.mpr ⟨hposition, rfl⟩)
  | pass cursor =>
    cases cursor with
    | none => exact absurd hposition hend
    | some client =>
      obtain ⟨result, hpossible⟩ := exists_io_possible (before.connector.clients client) before.read_fd_set
        before.write_fd_set
      exact hstep (.visit client result) nofun rfl (only_if_eq_some.mpr ⟨⟨hposition, hpossible⟩, rfl⟩)
  | enqueue_lock client next_client =>
    cases hlock : before.action_queue_lock with
    | none =>
      exact hstep (.enqueue_lock client next_client) nofun rfl (only_if_eq_some.mpr ⟨⟨hposition, hlock⟩, rfl⟩)
    | some thread => exact Or.inr ⟨client, next_client, hposition, by rw [hlock]; rfl⟩
  | enqueue client next_client =>
    obtain ⟨target, hpossible⟩ := exists_notify_possible before
    exact hstep (.enqueue client next_client target) nofun rfl (only_if_eq_some.mpr ⟨⟨hposition, hpossible⟩, rfl⟩)
  | _ =>
    obtain ⟨hnow, _⟩ | ⟨hpassing, _⟩ := h.position
    · rw [hposition] at hnow
      cases hnow
    · rw [hposition] at hpassing
      cases hpassing

omit [LawfulCharBuffer Buf] in
theorem Passing.over (h : Passing first queued rest log before) (hinvariant : Invariant strict before place stamp)
    (hend : before.selector = .pass none) : PassedOver first queued log before := by
  obtain ⟨hnow, _⟩ | ⟨_, hcursor⟩ := h.position
  · rw [hend] at hnow
    cases hnow
  · obtain rfl : rest = [] := by
      rw [hend] at hcursor
      exact List.head?_eq_none_iff.mp hcursor.symm
    have hvisited : log.clients = queued := by
      have hvisited := h.visited
      rwa [List.append_nil] at hvisited
    refine ⟨hvisited, ?_, ?_, fun fate => ?_, fun client hclient => ?_⟩
    · have hcom := h.com_queue
      rwa [List.append_nil] at hcom
    · have haction := h.action_queue
      rw [hend] at haction
      simpa [SelectorPosition.handing] using haction
    · rw [← hvisited]
      exact log.of_fate_sublist fate
    · obtain ⟨hfree, hgone⟩ := h.closed client hclient
      have hplace := (hinvariant.consistent.pooled.free_iff client).mp hfree
      exact ⟨hfree, hinvariant.consistent.sockets.free client hplace, hgone⟩

/-- The I/O pass visits the clients that are on a well-formed `com_queue` when it begins, one
after the other. It is over after a bounded number of steps, and until then only
`action_queue_lock` can hold it up. Then `com_queue` consists of the clients that stay,
`action_queue` has been extended by those whose message has completed, each in the old order,
and the others are back in the pool and their sockets are closed. -/
theorem io_pass_visits {last : State Buf} (hreachable : first.Reachable) (hposition : first.selector = .pass_first)
    (hqueued : first.connector.com_queue.Represents first.connector.nodes queued) (hpasses : first.Passes last log)
    (hrunning : last.terminated = false) :
    log.clients <+: queued ∧ log.steps ≤ 3 * queued.length + 1 ∧ (last.selector ≠ .pass none → last.Proceeds) ∧
      (last.selector = .pass none → PassedOver first queued log last) := by
  obtain ⟨hreached, hpassing⟩ := hpasses.passing hreachable hposition hqueued
  obtain ⟨rest, hpassing⟩ := hpassing hrunning
  obtain ⟨place, stamp, hinvariant⟩ := Reachable.sound hreached
  have hsteps := hpassing.steps
  exact ⟨⟨rest, hpassing.visited⟩, by omega, hpassing.proceeds hrunning, hpassing.over hinvariant⟩

/-- Three clients are queued, of which the first two are ready for a `recv()`. -/
def three_run : List Action :=
  Action.startup ++ Action.accept_round 6 23 [] ++ Action.accept_round 7 22 [23] ++ Action.accept_round 8 21 [23, 22] ++
    [.test_signal, .build_lock, .build, .select [6, 7] [], .pass_lock]

/-- The message of the first client completes, the second one has gone, and the third one
is not ready. -/
def three_pass : List Action :=
  [.pass_first] ++ Action.complete 23 (some 22) [0, 2, 0, 4] ++ [.visit 22 .receive_failed, .visit 21 .no_call]

theorem io_pass_visits_three : ∃ (first last : State BoundedBuffer) (log : PassLog), first.com_clients = [23, 22, 21] ∧
    log.of_fate .stays = [21] ∧ log.of_fate .completed = [23] ∧ log.of_fate .closed = [22] ∧
    PassedOver first [23, 22, 21] log last := by
  obtain ⟨first, hfirst, hfound⟩ := exists_reachesFromWhere_of_runWhere
    (by decide +kernel : ((runWhere State.step (fun state action => state.Orderly action)
      (State.initial BoundedBuffer (.filled 0xA5)) three_run).any fun first =>
        first.selector = .pass_first ∧ first.com_clients = [23, 22, 21] ∧
        (runWhere pass_step (fun state action => state.1.OfPass action) (first, {}) three_pass).any fun last =>
          last.1.terminated = false ∧ last.1.selector = .pass none ∧ last.2.of_fate .stays = [21] ∧
            last.2.of_fate .completed = [23] ∧ last.2.of_fate .closed = [22]) = true)
  simp only [Bool.decide_and, Bool.and_eq_true, decide_eq_true_eq] at hfound
  obtain ⟨hposition, hclients, hpass⟩ := hfound
  obtain ⟨⟨last, log⟩, hlast, hfound⟩ := exists_reachesWhere_of_runWhere hpass
  simp only [Bool.and_eq_true, decide_eq_true_eq] at hfound
  obtain ⟨hrunning, hend, hstays, hcompleted, hclosed⟩ := hfound
  have horderly : first.ReachableWhere State.Orderly := hfirst.weaken (fun _ _ => of_decide_eq_true)
  obtain ⟨place, stamp, hinvariant⟩ := ReachableWhere.sound (fun _ _ hcondition => hcondition) horderly
  obtain ⟨queued, hqueued, _⟩ := (hinvariant.complete trivial).contents
  obtain rfl : queued = [23, 22, 21] := hqueued.walk.symm.trans hclients
  have hpasses : first.Passes last log := hlast.weaken (fun _ _ => of_decide_eq_true)
  obtain ⟨_, _, _, hover⟩ := io_pass_visits hfirst.reaches hposition hqueued hpasses hrunning
  exact ⟨first, last, log, hclients, hstays, hcompleted, hclosed, hover hend⟩

end State

end ufh
