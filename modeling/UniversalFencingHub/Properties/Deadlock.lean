import UniversalFencingHub.Server.Locks

open locking

namespace ufh

namespace locks

/-- The signal handler can interrupt any thread that does not block signals. -/
theorem ufh_signal_handler_interrupts : ufh_signal_handler.Interrupts Mutex.rank Mutex.in_handler := by
  intro held hsync
  have hrank : ∀ other ∈ held, other.rank < Mutex.signal_lock.rank := by
    intro other hother
    have hother := hsync other hother
    cases other with
    | signal_lock => cases hother
    | _ => decide
  simp only [ufh_signal_handler, Program.locked, Program.check]
  rw [if_pos ⟨hrank, fun _ => trivial⟩]
  simp

/-- All methods take the locks in the locking order. -/
theorem initial_checked (thread : Thread) : (threads_initial thread).Checked Mutex.rank Mutex.in_handler := by
  have hselector : checks Mutex.rank Mutex.in_handler [server_main] ([], false) = some ([], false) := by decide
  have hworker : checks Mutex.rank Mutex.in_handler [worker_loop] ([], false) = some ([], false) := by decide
  cases thread with
  | selector => exact ⟨hselector, fun _ _ hheld => by cases hheld⟩
  | worker id => exact ⟨hworker, fun _ _ hheld => by cases hheld⟩

variable {threads : Thread → locking.Thread Mutex}

theorem Reachable.checked (h : Reachable threads) (thread : Thread) :
    (threads thread).Checked Mutex.rank Mutex.in_handler :=
  checked_of_reaches ufh_signal_handler_interrupts initial_checked h thread

theorem rank_le (lock : Mutex) : lock.rank ≤ 3 := by
  cases lock with
  | _ => decide

/-- The threads do not deadlock, whatever their schedule and whenever signals are delivered. No thread asks
for a mutex that it holds, nor for `com_queue_lock` while it holds `action_queue_lock`; no threads wait for
each other in a circle; and whoever waits for a mutex waits, directly or through others, for a thread that
neither waits for a mutex nor for anything else. -/
theorem no_deadlock (h : Reachable threads) :
    (∀ thread lock, (threads thread).requests = some lock → lock ∉ (threads thread).held) ∧
      (∀ thread, (threads thread).requests = some .com_queue_lock → .action_queue_lock ∉ (threads thread).held) ∧
      (∀ thread, ¬ Relation.TransGen (WaitsFor threads) thread thread) ∧
      ∀ thread other, WaitsFor threads thread other → ∃ running,
        Relation.ReflTransGen (WaitsFor threads) other running ∧ (∀ rest, (threads running).todo ≠ .pause :: rest) ∧
          ∃ next, (threads running).Step (fun lock => ∀ other, lock ∉ (threads other).held) next := by
  refine ⟨fun thread lock hrequests hheld => ?_, fun thread hrequests hheld => ?_, no_circle h.checked,
    fun thread other hwaits => exists_running h.checked rank_le hwaits⟩
  · exact Nat.lt_irrefl _ ((h.checked thread).rank_lt hrequests lock hheld)
  · have hlt := (h.checked thread).rank_lt hrequests _ hheld
    cases hlt

/-- Two workers start. One of them holds `action_queue_lock`, and the other one asks for it. -/
theorem no_deadlock_contended : ∃ threads : Thread → locking.Thread Mutex,
    WaitsFor threads (.worker 1) (.worker 0) ∧ ¬ Relation.TransGen (WaitsFor threads) (.worker 1) (.worker 1) := by
  obtain ⟨rest, hrest⟩ : ∃ rest, worker_loop = .seq (.acquire .action_queue_lock) rest := ⟨_, rfl⟩
  have hworker : ∀ id, threads_initial (.worker id) = ⟨[.seq (.acquire .action_queue_lock) rest], [], false⟩ := by
    intro id
    rw [← hrest]
    rfl
  have hne : Thread.worker 1 ≠ Thread.worker 0 := by decide
  have hstarted : Reachable (Function.update threads_initial (.worker 0)
      ⟨[.acquire .action_queue_lock, rest], [], false⟩) :=
    .tail .refl (.run (Thread.worker 0) (by rw [hworker]; exact .seq))
  have hfree : ∀ other, Mutex.action_queue_lock ∉ (Function.update threads_initial (.worker 0)
      ⟨[.acquire .action_queue_lock, rest], [], false⟩ other).held := by
    intro other
    by_cases hsame : other = .worker 0
    · rw [hsame, Function.update_self]
      exact List.not_mem_nil
    · rw [Function.update_of_ne hsame]
      cases other with
      | _ => exact List.not_mem_nil
  have hholds := hstarted.tail (.run (Thread.worker 0) (by rw [Function.update_self]; exact .acquire hfree))
  have hwaits := hholds.tail (.run (Thread.worker 1)
    (by rw [Function.update_of_ne hne, Function.update_of_ne hne, hworker]; exact .seq))
  obtain ⟨_, _, hno_circle, _⟩ := no_deadlock hwaits
  refine ⟨_, ⟨.action_queue_lock, ?_, ?_⟩, hno_circle (.worker 1)⟩
  · rw [Function.update_self]
    rfl
  · rw [Function.update_of_ne hne.symm, Function.update_self]
    exact List.mem_singleton_self _

end locks

end ufh
