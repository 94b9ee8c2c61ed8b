import UniversalFencingHub.ServerConnector.Complete
import UniversalFencingHub.Threads.Holding

namespace ufh

/-- The positions between the construction of the descriptor sets and the pass
over `com_queue`. -/
def SelectorPosition.before_pass : SelectorPosition → Bool
  | .select => true
  | .accept => true
  | .accept_lock _ => true
  | .accept_add _ => true
  | .drain => true
  | .pass_lock => true
  | .pass_first => true
  | _ => false

/-- The client that the pass over `com_queue` visits next. -/
def SelectorPosition.cursor : SelectorPosition → Option ClientPtr
  | .pass client => client
  | .enqueue_lock _ next_client => next_client
  | .enqueue _ next_client => next_client
  | _ => none

/-- The positions inside `selector_loop`. -/
def SelectorPosition.looping : SelectorPosition → Bool
  | .init => false
  | .cleanup_socket => false
  | .cleanup_action_lock => false
  | .cleanup_action => false
  | .cleanup_com_lock => false
  | .cleanup_disable => false
  | .cleanup_signal => false
  | .cleanup_com => false
  | .stop_lock => false
  | .stop => false
  | .join => false
  | .finished => false
  | _ => true

namespace State

variable {Buf : Type}

def own_fds (state : State Buf) : List Int := [state.socket_fd, state.trigger_read, state.trigger_write]

/-- The connector's own descriptors are not those of clients, and they are open
while the loop runs. -/
structure OwnDescriptors (state : State Buf) : Prop where
  apart : ∀ fd ∈ state.own_fds, 0 ≤ fd → ∀ client, (state.connector.clients client).socket_fd ≠ fd
  looping : state.selector.looping = true → ∀ fd ∈ state.own_fds, 0 ≤ fd ∧ fd ∈ state.connector.open_fds

/-- The descriptor sets name a client for the direction that it waits for. -/
def Fits (state : State Buf) (client : ClientPtr) : Prop :=
  ((state.connector.clients client).socket_fd ∈ state.read_fd_set →
      (state.connector.clients client).io_state = .READ) ∧
    ((state.connector.clients client).socket_fd ∈ state.write_fd_set →
      (state.connector.clients client).io_state = .WRITE)

/-- The descriptor sets are a snapshot. They stay right for every client that
the pass has not visited, though workers may hand back clients meanwhile. -/
structure Interest (state : State Buf) (place : ClientPtr → Place) (stamp : ClientPtr → Nat) : Prop where
  read_open : state.selector.before_pass = true →
    ∀ fd ∈ state.read_fd_set, fd = sys.FD_NONE ∨ fd ∈ state.connector.open_fds
  write_open : state.selector.before_pass = true →
    ∀ fd ∈ state.write_fd_set, 0 ≤ fd ∧ fd ∈ state.connector.open_fds
  away : state.selector.before_pass = true → ∀ client, place client ≠ .free → place client ≠ .queued →
    0 ≤ (state.connector.clients client).socket_fd →
    (state.connector.clients client).socket_fd ∉ state.read_fd_set ∧
      (state.connector.clients client).socket_fd ∉ state.write_fd_set
  fits : ∀ client, place client = .queued → (state.selector.before_pass = true ∨
    ∃ next_client, state.selector.cursor = some next_client ∧ stamp next_client ≤ stamp client) → state.Fits client
  cursor : ∀ client, state.selector.cursor = some client → place client = .queued

/-- What holds in every state of the server. Under `strict` the server has not
run into any of its errors. -/
structure Invariant [CharBuffer Buf] (strict : Prop) (state : State Buf) (place : ClientPtr → Place)
    (stamp : ClientPtr → Nat) : Prop where
  consistent : Consistent state.connector place stamp
  holding : Holding state.holding place
  com_lock : Exclusive state.com_queue_lock state.in_com_section
  own : state.OwnDescriptors
  interest : state.Interest place stamp
  complete : strict → Complete state.connector.com_queue state.connector.nodes place

def Sound [CharBuffer Buf] (strict : Prop) (state : State Buf) : Prop :=
  ∃ place stamp, Invariant strict state place stamp

theorem in_com_section_of_cursor {position : SelectorPosition} {client : ClientPtr}
    (h : position.cursor = some client) : position.in_com_section = true := by
  cases position with
  | pass _ => rfl
  | enqueue_lock _ _ => rfl
  | enqueue _ _ => rfl
  | _ => cases h

/-- A step that leaves the connector and the descriptor sets as they are. -/
structure Silent (before after : State Buf) : Prop where
  connector : after.connector = before.connector
  own_fds : after.own_fds = before.own_fds
  read_fd_set : after.read_fd_set = before.read_fd_set
  write_fd_set : after.write_fd_set = before.write_fd_set
  before_pass : after.selector.before_pass = true → before.selector.before_pass = true
  cursor : ∀ client, after.selector.cursor = some client → before.selector.cursor = some client
  looping : after.selector.looping = true → before.selector.looping = true

theorem OwnDescriptors.silent {before after : State Buf} (h : before.OwnDescriptors) (hsilent : Silent before after) :
    after.OwnDescriptors := by
  constructor
  · rw [hsilent.own_fds, hsilent.connector]
    exact h.apart
  · intro hlooping
    rw [hsilent.own_fds, hsilent.connector]
    exact h.looping (hsilent.looping hlooping)

theorem Interest.silent {before after : State Buf} {place : ClientPtr → Place} {stamp : ClientPtr → Nat}
    (h : before.Interest place stamp) (hsilent : Silent before after) : after.Interest place stamp := by
  refine ⟨?_, ?_, ?_, ?_, ?_⟩
  · intro hpass
    rw [hsilent.read_fd_set, hsilent.connector]
    exact h.read_open (hsilent.before_pass hpass)
  · intro hpass
    rw [hsilent.write_fd_set, hsilent.connector]
    exact h.write_open (hsilent.before_pass hpass)
  · intro hpass
    rw [hsilent.read_fd_set, hsilent.write_fd_set, hsilent.connector]
    exact h.away (hsilent.before_pass hpass)
  · intro client hqueued hview
    unfold Fits
    rw [hsilent.read_fd_set, hsilent.write_fd_set, hsilent.connector]
    apply h.fits client hqueued
    cases hview with
    | inl hpass => exact Or.inl (hsilent.before_pass hpass)
    | inr hcursor =>
      obtain ⟨next_client, hcursor, hle⟩ := hcursor
      exact Or.inr ⟨next_client, hsilent.cursor next_client hcursor, hle⟩
  · intro client hcursor
    exact h.cursor client (hsilent.cursor client hcursor)

theorem Invariant.silent [CharBuffer Buf] {strict : Prop} {before after : State Buf} {place : ClientPtr → Place}
    {stamp : ClientPtr → Nat} (h : Invariant strict before place stamp) (hsilent : Silent before after)
    (hholding : after.holding = before.holding) (hlock : Exclusive after.com_queue_lock after.in_com_section) :
    Invariant strict after place stamp where
  consistent := hsilent.connector ▸ h.consistent
  holding := hholding ▸ h.holding
  com_lock := hlock
  own := h.own.silent hsilent
  interest := h.interest.silent hsilent
  complete hstrict := hsilent.connector ▸ h.complete hstrict

theorem holding_eq {before after : State Buf} (hselector : after.selector.holding = before.selector.holding)
    (hworkers : ∀ id, (after.workers id).holding = (before.workers id).holding) : after.holding = before.holding := by
  funext thread
  cases thread with
  | selector => exact hselector
  | worker id => exact hworkers id

/-- A worker moves to a position with the same holding. -/
theorem holding_set_worker {state : State Buf} {id : WorkerId} {position : WorkerPosition}
    (hposition : position.holding = (state.workers id).holding) (other : WorkerId) :
    ((state.set_worker id position).workers other).holding = (state.workers other).holding := by
  change (Function.update state.workers id position other).holding = _
  by_cases hsame : other = id
  · rw [hsame, Function.update_self, hposition]
  · rw [Function.update_of_ne hsame]

theorem set_worker_self (state : State Buf) (id : WorkerId) (position : WorkerPosition) :
    (state.set_worker id position).workers id = position :=
  Function.update_self ..

/-- A worker outside the protected section stays outside. -/
theorem in_com_section_set_worker {before after : State Buf} {id : WorkerId} {position : WorkerPosition}
    (hselector : after.selector.in_com_section = before.selector.in_com_section)
    (hworkers : after.workers = Function.update before.workers id position)
    (hposition : position.in_com_section = false) (thread : Thread) (hinside : after.in_com_section thread = true) :
    before.in_com_section thread = true := by
  cases thread with
  | selector => exact hselector.symm.trans hinside
  | worker other =>
    have hother : (after.workers other).in_com_section = true := hinside
    rw [hworkers] at hother
    by_cases hsame : other = id
    · rw [hsame, Function.update_self, hposition] at hother
      cases hother
    · rw [Function.update_of_ne hsame] at hother
      exact hother

theorem initial_invariant [CharBuffer Buf] [LawfulCharBuffer Buf] (strict : Prop) (memory : ClientMemory) :
    Invariant strict (initial Buf memory) (fun _ => .free) (fun _ => 0) where
  consistent := consistent_new Buf memory
  holding thread client role := by cases thread <;> simp [holding, initial, SelectorPosition.holding,
      WorkerPosition.holding]
  com_lock thread hinside := by cases thread <;> cases hinside
  own := ⟨fun fd hfd hvalid => by simp_all [own_fds, initial, sys.FD_NONE], nofun⟩
  interest := ⟨nofun, nofun, nofun, nofun, nofun⟩
  complete _ := ⟨⟨[], ⟨rfl, rfl, trivial, List.nodup_nil⟩, fun client => by simp⟩, fun client => by simp⟩

end State

end ufh
