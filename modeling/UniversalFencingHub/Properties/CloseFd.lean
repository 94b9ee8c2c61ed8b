import UniversalFencingHub.Library.Descriptors
import UniversalFencingHub.Properties.Conservation
import UniversalFencingHub.Threads.Operations

open descriptors transition

namespace ufh

instance : Fintype Thread := ⟨⟨threads, threads_nodup⟩, mem_threads⟩

namespace sys

/-- The condition of the loop in `close_fd`. -/
def close_retries : CloseResult → Bool
  | .interrupted => true
  | _ => false

/-- The runs of a process whose threads close descriptors by `close_fd`, in which no signal
interrupts a `close()`. -/
def Uninterrupted {Thread : Type} [DecidableEq Thread] [Fintype Thread] (first last : Table Thread) : Prop :=
  ReachesWhere (Table.step close_retries) (fun _ action => action.uninterrupted = true) first last

section

variable {Thread : Type} [DecidableEq Thread] [Fintype Thread] {table before after last : Table Thread}

omit [DecidableEq Thread] [Fintype Thread] in
theorem closes_once {action : descriptors.Action Thread} (huninterrupted : action.uninterrupted = true) :
    table.ClosesOnce close_retries action := by
  cases action with
  | close thread result =>
    cases result with
    | interrupted => cases huninterrupted
    | _ => rfl
  | _ => trivial

theorem Uninterrupted.orderly (h : Uninterrupted before after) (hbefore : before.Orderly) : after.Orderly := by
  apply ReachesWhere.invariant h hbefore
  intro before action after hbefore huninterrupted hstep
  exact hbefore.step (closes_once huninterrupted) hstep

/-- A `close_fd` whose first `close()` is interrupted may close a file of another thread;
any other closes what it was given, and nothing else, whatever the other threads do. -/
theorem own_iff_uninterrupted (h : table.Orderly) {thread : Thread} {call : Call} {result : CloseResult}
    (hcall : table.closing thread = some call) (hstep : table.step close_retries (.close thread result) = some after) :
    (∀ last, Uninterrupted after last → last.Own) ↔ result ≠ .interrupted := by
  constructor
  · rintro hown rfl
    have hresult : CloseResult.interrupted ≠ .bad_descriptor := by simp
    have hretries : close_retries .interrupted = true := rfl
    have hdone : close_retries .success = false := rfl
    obtain ⟨hfd, hreleased, hnames⟩ := h.waiting thread call hcall
    obtain ⟨last, hrun, hstranger⟩ := Table.closes_stranger hcall hfd hreleased hnames hresult hretries hdone
    rw [run, hstep, Option.bind_some] at hrun
    obtain ⟨created, hcreate, hrest⟩ := Option.bind_eq_some_iff.mp hrun
    obtain ⟨closed, hclose, hlast⟩ := Option.bind_eq_some_iff.mp hrest
    obtain rfl := Option.some.inj hlast
    have hcreated : Uninterrupted after created := (ReachesWhere.refl after).tail rfl hcreate
    have hclosed : Uninterrupted after closed := hcreated.tail rfl hclose
    exact hstranger (hown closed hclosed)
  · intro hresult last hrun
    have huninterrupted : (descriptors.Action.close thread result).uninterrupted = true := decide_eq_true hresult
    exact (hrun.orderly (h.step (closes_once huninterrupted) hstep)).own

end

end sys

open sys

/-- The numbers in use are the open descriptors, and no `close_fd` is under way. -/
structure Describes (table : Table Thread) (open_fds : List Int) : Prop where
  names : ∀ fd, table.names fd ≠ none ↔ 0 ≤ fd ∧ fd ∈ open_fds
  idle : ∀ thread, table.closing thread = none

section

variable {table : Table Thread} {open_fds : List Int} {fd : Int}

theorem Describes.creates (h : Describes table open_fds) (hfd : 0 ≤ fd ∧ fd ∉ open_fds) :
    ∃ last, Uninterrupted table last ∧ Describes last (fd :: open_fds) := by
  have hfree : table.names fd = none := by
    by_contra hused
    exact hfd.2 ((h.names fd).mp hused).2
  have hstep : table.step close_retries (.create fd) = some
      { table with names := Function.update table.names fd (some table.created), created := table.created + 1 } := by
    simp [Table.step, hfd.1, hfree]
  refine ⟨_, (ReachesWhere.refl table).tail rfl hstep, fun other => ?_, h.idle⟩
  by_cases hsame : other = fd
  · simp [hsame, hfd.1]
  · simp only [Function.update_of_ne hsame, List.mem_cons, hsame, false_or]
    exact h.names other

/-- A thread closes a descriptor that is open, or none at all. -/
theorem Describes.closes (h : Describes table open_fds) (hfd : 0 ≤ fd → fd ∈ open_fds) (thread : Thread) :
    ∃ last, Uninterrupted table last ∧ Describes last (close_fd open_fds fd).1 := by
  by_cases hvalid : 0 ≤ fd
  · obtain ⟨file, hfile⟩ := Option.ne_none_iff_exists'.mp ((h.names fd).mpr ⟨hvalid, hfd hvalid⟩)
    have hcall : table.step close_retries (.call thread fd) = some
        { table with closing := Function.update table.closing thread (some { fd, given := file }) } := by
      simp [Table.step, Int.not_lt.mpr hvalid, hfile, h.idle, Table.Released]
    have hclose : Table.step close_retries
        { table with closing := Function.update table.closing thread (some { fd, given := file }) }
        (.close thread .success) = some
          { table with
            names := Function.update table.names fd none
            closing := Function.update (Function.update table.closing thread (some { fd, given := file })) thread none
            finished := table.finished ++ [{ fd, given := file, released := [file] }] } := by
      simp [Table.step, Table.close, hfile, close_retries]
    have hcalled : Uninterrupted table _ := (ReachesWhere.refl table).tail rfl hcall
    have hclosed : Uninterrupted table _ := hcalled.tail rfl hclose
    refine ⟨_, hclosed, fun other => ?_, fun other => ?_⟩
    · rw [close_fd, if_pos hvalid]
      by_cases hsame : other = fd
      · simp [hsame]
      · simp only [Function.update_of_ne hsame, List.mem_filter, hsame, ne_eq, not_false_eq_true, decide_true, and_true]
        exact h.names other
    · simp only [Function.update_idem]
      by_cases hsame : other = thread
      · rw [hsame, Function.update_self]
      · rw [Function.update_of_ne hsame]
        exact h.idle other
  · rw [close_fd, if_neg hvalid]
    exact ⟨table, ReachesWhere.refl table, h⟩

theorem Describes.creates_all (h : Describes table open_fds) {fds : List Int} (hnodup : fds.Nodup)
    (hfds : ∀ fd ∈ fds, 0 ≤ fd ∧ fd ∉ open_fds) :
    ∃ last, Uninterrupted table last ∧ Describes last (fds ++ open_fds) := by
  induction fds with
  | nil => exact ⟨table, ReachesWhere.refl table, h⟩
  | cons fd rest ih =>
    obtain ⟨hfresh, hnodup⟩ := List.nodup_cons.mp hnodup
    obtain ⟨hfd, hrest⟩ := List.forall_mem_cons.mp hfds
    obtain ⟨middle, hmiddle, hdescribes⟩ := ih hnodup hrest
    have hnew : fd ∉ rest ++ open_fds := by
      rw [List.mem_append]
      exact not_or.mpr ⟨hfresh, hfd.2⟩
    obtain ⟨last, hlast, hdescribes⟩ := hdescribes.creates ⟨hfd.1, hnew⟩
    exact ⟨last, hmiddle.trans hlast, hdescribes⟩

end

namespace State

variable {Buf : Type} [CharBuffer Buf] {before after state : State Buf} {action : Action}

/-- The connector's own descriptors are open, and different from each other. -/
structure OwnOpen (state : State Buf) : Prop where
  opened : ∀ fd ∈ state.own_fds, 0 ≤ fd → fd ∈ state.connector.open_fds
  distinct : state.own_fds.Pairwise (fun fd other => 0 ≤ fd → fd ≠ other)

omit [CharBuffer Buf] in
theorem OwnOpen.keep (h : before.OwnOpen) (hown : before.OwnDescriptors) (hfds : after.own_fds = before.own_fds)
    (hopen : KeepsOpen before.connector after.connector) : after.OwnOpen := by
  refine ⟨?_, hfds ▸ h.distinct⟩
  rw [hfds]
  intro fd hfd hvalid
  exact hopen fd (h.opened fd hfd hvalid) (hown.apart fd hfd hvalid)

omit [CharBuffer Buf] in
theorem OwnOpen.init {socket_fd trigger_read trigger_write : Int} {failed : Bool}
    (hpossible : state.init_possible socket_fd trigger_read trigger_write failed) :
    (state.init socket_fd trigger_read trigger_write failed).OwnOpen := by
  obtain ⟨_, hnodup, _⟩ := hpossible
  have hkept : ∀ fd : Int, 0 ≤ fd → fd ≠ FD_NONE := fun fd hvalid hnone => by
    rw [hnone] at hvalid
    cases hvalid
  refine ⟨fun fd hfd hvalid => ?_, ?_⟩
  · exact List.mem_append_left _ (List.mem_filter.mpr ⟨hfd, decide_eq_true (hkept fd hvalid)⟩)
  · apply (List.pairwise_filter.mp hnodup).imp
    intro fd other hne hvalid heq
    have hfd : decide (fd ≠ FD_NONE) = true := decide_eq_true (hkept fd hvalid)
    exact hne hfd (heq ▸ hfd) heq

omit [CharBuffer Buf] in
/-- Closing one of the own descriptors leaves the others open. -/
theorem OwnOpen.others {fd closed : Int} {open_fds : List Int} (hfd : fd ∈ open_fds) (hvalid : 0 ≤ fd)
    (hdistinct : 0 ≤ closed → closed ≠ fd) : fd ∈ (close_fd open_fds closed).1 :=
  sys.mem_close_fd hfd (fun heq => hdistinct (heq ▸ hvalid) heq.symm)

omit [CharBuffer Buf] in
theorem OwnOpen.cleanup_socket (h : before.OwnOpen) : before.cleanup_socket.OwnOpen := by
  obtain ⟨hsocket, hrest⟩ := List.pairwise_cons.mp h.distinct
  refine ⟨fun fd hfd hvalid => ?_, List.pairwise_cons.mpr ⟨fun _ _ hvalid => (by cases hvalid), hrest⟩⟩
  obtain rfl | hfd := List.mem_cons.mp hfd
  · cases hvalid
  · exact OwnOpen.others (h.opened fd (List.mem_cons_of_mem _ hfd) hvalid) hvalid
      (fun hclosed => hsocket fd hfd hclosed)

theorem OwnOpen.cleanup_com (h : before.OwnOpen) (hown : before.OwnDescriptors) : before.cleanup_com.OwnOpen := by
  cases hfirst : before.connector.com_remove_first.1 with
  | some client =>
    rw [cleanup_com_eq hfirst]
    have hclosed := affects_close_connection before.connector.com_remove_first.2 client
    exact h.keep hown rfl hclosed.keeps_open
  | none =>
    rw [cleanup_com_empty (Prod.ext hfirst (com_remove_first_none hfirst))]
    obtain ⟨hsocket, _⟩ := List.pairwise_cons.mp h.distinct
    refine ⟨fun fd hfd hvalid => ?_, ?_⟩
    · obtain rfl | hfd := List.mem_cons.mp hfd
      · have hread := OwnOpen.others (h.opened _ (List.mem_cons_self ..) hvalid) hvalid
          (fun hclosed heq => hsocket before.trigger_read (by simp) hvalid heq.symm)
        exact OwnOpen.others hread hvalid (fun hclosed heq => hsocket before.trigger_write (by simp) hvalid heq.symm)
      · have hnone : fd = FD_NONE := by simpa [own_fds] using hfd
        rw [hnone] at hvalid
        cases hvalid
    · refine List.pairwise_cons.mpr ⟨fun other hother hvalid heq => ?_, ?_⟩
      · have hnone : other = FD_NONE := by simpa using hother
        rw [heq, hnone] at hvalid
        cases hvalid
      · exact List.pairwise_pair.mpr (fun hvalid => by cases hvalid)

theorem OwnOpen.act (h : before.OwnOpen) (hown : before.OwnDescriptors) (hact : before.act action = some after) :
    after.OwnOpen := by
  cases hother : action.on_own_fds with
  | false => exact h.keep hown (act_own_fds hact hother) (act_keeps_open hact hother)
  | true =>
    cases action with
    | init socket_fd trigger_read trigger_write failed =>
      obtain ⟨⟨_, hpossible⟩, rfl⟩ := only_if_eq_some.mp hact
      exact OwnOpen.init hpossible
    | cleanup_socket =>
      obtain ⟨_, rfl⟩ := only_if_eq_some.mp hact
      exact h.cleanup_socket
    | cleanup_com =>
      obtain ⟨_, rfl⟩ := only_if_eq_some.mp hact
      exact h.cleanup_com hown
    | _ => cases hother

theorem Reachable.own_open [LawfulCharBuffer Buf] (h : state.Reachable) : state.OwnOpen := by
  apply ReachesFrom.invariant_under h (fun _ hstate => Reachable.own hstate)
  · refine fun memory => ⟨fun fd hfd hvalid => ?_, by simp [own_fds, initial, FD_NONE]⟩
    have hnone : fd = FD_NONE := by simpa [own_fds, initial] using hfd
    rw [hnone] at hvalid
    cases hvalid
  · intro before action after hown hbefore hstep
    exact hbefore.act hown (step_eq_some.mp hstep).2

/-- Every step of the server closes open descriptors or none, each from one thread. -/
theorem act_describes [LawfulCharBuffer Buf] (hsound : before.Sound False) (hopen : before.OwnOpen)
    (hact : before.act action = some after) {table : Table Thread} (h : Describes table before.connector.open_fds) :
    ∃ last, Uninterrupted table last ∧ Describes last after.connector.open_fds := by
  obtain ⟨place, stamp, hinvariant⟩ := hsound
  have hclient : ∀ client, 0 ≤ (before.connector.clients client).socket_fd →
      (before.connector.clients client).socket_fd ∈ before.connector.open_fds := by
    intro client hvalid
    obtain hnone | ⟨_, hmem⟩ := hinvariant.consistent.sockets.valid client
    · rw [hnone] at hvalid
      cases hvalid
    · exact hmem
  have hsame : ∃ last, Uninterrupted table last ∧ Describes last before.connector.open_fds :=
    ⟨table, ReachesWhere.refl table, h⟩
  have hoperates := act_operates hact
  generalize after.connector = connector at hoperates ⊢
  cases hoperates with
  | silent => exact hsame
  | opened socket_fd trigger_read trigger_write failed hpossible =>
    obtain ⟨hfds, hnodup, _⟩ := hpossible
    refine h.creates_all hnodup (fun fd hfd => ?_)
    obtain ⟨hmem, hvalid⟩ := List.mem_filter.mp hfd
    exact (hfds fd hmem).resolve_left (of_decide_eq_true hvalid)
  | socket_closed => exact h.closes (hopen.opened _ (by simp [own_fds])) .selector
  | pipe_closed =>
    obtain ⟨_, hrest⟩ := List.pairwise_cons.mp hopen.distinct
    obtain ⟨middle, hread, hdescribes⟩ := h.closes (hopen.opened before.trigger_read (by simp [own_fds])) .selector
    have hwrite : 0 ≤ before.trigger_write →
        before.trigger_write ∈ (close_fd before.connector.open_fds before.trigger_read).1 := by
      intro hvalid
      exact OwnOpen.others (hopen.opened _ (by simp [own_fds]) hvalid) hvalid
        ((List.pairwise_cons.mp hrest).1 _ (List.mem_singleton_self _))
    obtain ⟨last, hlast, hdescribes⟩ := hdescribes.closes hwrite .selector
    exact ⟨last, hread.trans hlast, hdescribes⟩
  | accepted fd client accepted hpossible haccept =>
    rw [accept_open_fds haccept]
    split
    · next hvalid =>
      refine h.creates ⟨hvalid, ?_⟩
      obtain hnone | ⟨_, hfresh⟩ := hpossible
      · rw [hnone] at hvalid
        cases hvalid
      · exact hfresh
    · exact hsame
  | added client => exact hsame
  | visited client result _ =>
    have hcloses : ClosesOwn client before.connector
        (before.connector.perform_io before.read_fd_set before.write_fd_set client result).1 := closes_own_perform_io
    obtain ⟨hkept, _⟩ | ⟨hclosed, _⟩ := hcloses
    · rw [hkept]
      exact hsame
    · rw [hclosed]
      exact h.closes (hclient client) .selector
  | enqueued client next_client target => exact hsame
  | pending_closed client _ => exact h.closes (hclient client) .selector
  | queued_closed client _ => exact h.closes (hclient client) .selector
  | taken id =>
    rw [(take_action_kept before.connector).1]
    exact hsame
  | processed id client success_flag => exact hsame
  | handed_back id client => exact hsame
  | dismissed id client => exact h.closes (hclient client) (.worker id)
  | closed id client => exact h.closes (hclient client) (.worker id)

/-- The descriptors of the server are those of a process that calls `close_fd` properly. -/
theorem Reachable.describes [LawfulCharBuffer Buf] (h : state.Reachable) :
    ∃ table, Uninterrupted {} table ∧ Describes table state.connector.open_fds := by
  have hknown : ∀ state : State Buf, state.Reachable → state.Sound False ∧ state.OwnOpen :=
    fun _ hstate => ⟨Reachable.sound hstate, Reachable.own_open hstate⟩
  apply ReachesFrom.invariant_under h hknown
  · exact fun memory => ⟨{}, ReachesWhere.refl _, ⟨fun fd => by simp [initial, Connector.new], fun _ => rfl⟩⟩
  · rintro before action after ⟨hsound, hopen⟩ ⟨table, hrun, hdescribes⟩ hstep
    obtain ⟨last, hlast, hafter⟩ := act_describes hsound hopen (step_eq_some.mp hstep).2 hdescribes
    exact ⟨last, hrun.trans hlast, hafter⟩

end State

namespace sys

/-- In a run in which no signal interrupts a `close()`, every `close_fd` closes the file that
it was given, once, and no other one. A `close_fd` does so in all runs that follow exactly if
its first `close()` is not interrupted. -/
theorem close_fd_closes_own {Thread : Type} [DecidableEq Thread] [Fintype Thread] :
    (∀ table : Table Thread, Uninterrupted {} table → table.Own) ∧
      ∀ (table after : Table Thread) (thread : Thread) (call : Call) (result : CloseResult), Uninterrupted {} table →
        table.closing thread = some call → table.step close_retries (.close thread result) = some after →
        ((∀ last, Uninterrupted after last → last.Own) ↔ result ≠ .interrupted) := by
  have horderly : ∀ table : Table Thread, Uninterrupted {} table → table.Orderly :=
    fun table hrun => hrun.orderly Table.initial_orderly
  exact ⟨fun table hrun => (horderly table hrun).own,
    fun table after thread call result hrun hcall hstep => own_iff_uninterrupted (horderly table hrun) hcall hstep⟩

/-- The number that a worker has closed is used for the next connection. -/
def reused_run : List (descriptors.Action ufh.Thread) :=
  [.create 6, .call (.worker 0) 6, .close (.worker 0) .success, .create 6]

theorem close_fd_closes_own_reused : ∃ table : Table ufh.Thread, table.finished.length = 1 ∧ table.names 6 = some 1 ∧
    table.Own := by
  obtain ⟨table, hreached, hfound⟩ := exists_reachesWhere_of_runWhere
    (by decide +kernel : ((runWhere (Table.step close_retries) (fun _ action => action.uninterrupted)
      ({} : Table ufh.Thread) reused_run).any fun table => table.finished.length = 1 ∧ table.names 6 = some 1) = true)
  simp only [Bool.decide_and, Bool.and_eq_true, decide_eq_true_eq] at hfound
  exact ⟨table, hfound.1, hfound.2, close_fd_closes_own.1 table hreached⟩

/-- A signal interrupts the `close()` of a worker, and the selector accepts a connection before
the worker calls `close()` again. -/
def interrupted_run : List (descriptors.Action ufh.Thread) :=
  [.create 6, .call (.worker 0) 6, .close (.worker 0) .interrupted, .create 6, .close (.worker 0) .success]

theorem close_fd_closes_stranger : ¬ ∀ table : Table ufh.Thread, Reaches (Table.step close_retries) {} table →
    table.Own := by
  intro hown
  obtain ⟨table, hreachable, hfound⟩ := exists_reaches_of_run
    (by decide +kernel : ((run (Table.step close_retries) ({} : Table ufh.Thread) interrupted_run).any fun table =>
      ∃ call ∈ table.finished, ¬ call.Own) = true)
  obtain ⟨call, hmem, hstranger⟩ := of_decide_eq_true hfound
  exact hstranger ((hown table hreachable).finished call hmem)

end sys

end ufh
