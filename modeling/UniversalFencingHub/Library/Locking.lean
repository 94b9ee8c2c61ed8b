import Mathlib.Data.List.Basic
import Mathlib.Data.Nat.Init
import Mathlib.Logic.Function.Basic
import Mathlib.Logic.Relation
import Mathlib.Tactic.Push

namespace locking

/-- What a program does with locks and with the signal mask of its thread. What decides a `choice`, and
how often a `loop` is run, is left open. A `pause` waits for something other than a lock. -/
inductive Program (L : Type) where
  | skip
  | pause
  | acquire (lock : L)
  | release (lock : L)
  | block_signals
  | unblock_signals
  | seq (first second : Program L)
  | choice (first second : Program L)
  | loop (body : Program L)

namespace Program

variable {L : Type}

/-- A section protected by a lock. -/
def locked (lock : L) (body : Program L) : Program L := .seq (.acquire lock) (.seq body (.release lock))

/-- Waiting on a condition gives the lock up and takes it again afterwards. -/
def wait (lock : L) : Program L := .seq (.release lock) (.seq .pause (.acquire lock))

def maybe (program : Program L) : Program L := .choice program .skip

end Program

/-- A thread: the programs that it has still to run, one after the other, the locks that it holds and
whether signals are blocked. -/
structure Thread (L : Type) where
  todo : List (Program L)
  held : List L := []
  blocked : Bool := false

namespace Thread

variable {L : Type} [DecidableEq L]

/-- One step of a thread. A lock can be taken when it is free. -/
inductive Step (free : L → Prop) : Thread L → Thread L → Prop where
  | skip {rest : List (Program L)} {held : List L} {blocked : Bool} :
    Step free ⟨.skip :: rest, held, blocked⟩ ⟨rest, held, blocked⟩
  | pause {rest : List (Program L)} {held : List L} {blocked : Bool} :
    Step free ⟨.pause :: rest, held, blocked⟩ ⟨rest, held, blocked⟩
  | acquire {lock : L} {rest : List (Program L)} {held : List L} {blocked : Bool} (hfree : free lock) :
    Step free ⟨.acquire lock :: rest, held, blocked⟩ ⟨rest, lock :: held, blocked⟩
  | release {lock : L} {rest : List (Program L)} {held : List L} {blocked : Bool} :
    Step free ⟨.release lock :: rest, held, blocked⟩ ⟨rest, held.erase lock, blocked⟩
  | block_signals {rest : List (Program L)} {held : List L} {blocked : Bool} :
    Step free ⟨.block_signals :: rest, held, blocked⟩ ⟨rest, held, true⟩
  | unblock_signals {rest : List (Program L)} {held : List L} {blocked : Bool} :
    Step free ⟨.unblock_signals :: rest, held, blocked⟩ ⟨rest, held, false⟩
  | seq {first second : Program L} {rest : List (Program L)} {held : List L} {blocked : Bool} :
    Step free ⟨.seq first second :: rest, held, blocked⟩ ⟨first :: second :: rest, held, blocked⟩
  | first {first second : Program L} {rest : List (Program L)} {held : List L} {blocked : Bool} :
    Step free ⟨.choice first second :: rest, held, blocked⟩ ⟨first :: rest, held, blocked⟩
  | second {first second : Program L} {rest : List (Program L)} {held : List L} {blocked : Bool} :
    Step free ⟨.choice first second :: rest, held, blocked⟩ ⟨second :: rest, held, blocked⟩
  | again {body : Program L} {rest : List (Program L)} {held : List L} {blocked : Bool} :
    Step free ⟨.loop body :: rest, held, blocked⟩ ⟨body :: .loop body :: rest, held, blocked⟩
  | leave {body : Program L} {rest : List (Program L)} {held : List L} {blocked : Bool} :
    Step free ⟨.loop body :: rest, held, blocked⟩ ⟨rest, held, blocked⟩

/-- The lock that a thread asks for next. -/
def requests (thread : Thread L) : Option L :=
  match thread.todo with
  | .acquire lock :: _ => some lock
  | _ => none

/-- A signal handler starts. Signals are blocked until it returns. -/
def interrupt (thread : Thread L) (handler : Program L) : Thread L :=
  { thread with todo := handler :: .unblock_signals :: thread.todo, blocked := true }

end Thread

section

variable {L T : Type} [DecidableEq L] [DecidableEq T]

/-- One step of one thread, or the delivery of a signal to a thread that does not block it. -/
inductive Step (handler : Program L) : (T → Thread L) → (T → Thread L) → Prop where
  | run {threads : T → Thread L} (thread : T) {next : Thread L}
    (hstep : (threads thread).Step (fun lock => ∀ other, lock ∉ (threads other).held) next) :
    Step handler threads (Function.update threads thread next)
  | signal {threads : T → Thread L} (thread : T) (hblocked : (threads thread).blocked = false) :
    Step handler threads (Function.update threads thread ((threads thread).interrupt handler))

/-- A thread waits for another that holds the lock it asks for. -/
def WaitsFor (threads : T → Thread L) (thread other : T) : Prop :=
  ∃ lock, (threads thread).requests = some lock ∧ lock ∈ (threads other).held

end

section

variable {L : Type} [DecidableEq L] (rank : L → Nat) (async : L → Bool)

/-- The locks held, and whether signals are blocked, after a program, which asks for locks in ascending
order of their ranks, asks for the locks of the signal handler only while signals are blocked, and pauses
only while it holds no lock. There is no result for any other program. -/
def Program.check : Program L → List L × Bool → Option (List L × Bool)
  | .skip, state => some state
  | .pause, (held, blocked) => if held = [] then some (held, blocked) else none
  | .acquire lock, (held, blocked) =>
    if (∀ other ∈ held, rank other < rank lock) ∧ (async lock = true → blocked = true) then some (lock :: held, blocked)
    else none
  | .release lock, (held, blocked) => if lock ∈ held then some (held.erase lock, blocked) else none
  | .block_signals, (held, _) => some (held, true)
  | .unblock_signals, (held, _) => if ∀ lock ∈ held, async lock = false then some (held, false) else none
  | .seq first second, state => (first.check state).bind second.check
  | .choice first second, state => if first.check state = second.check state then first.check state else none
  | .loop body, state => if body.check state = some state then some state else none

/-- The state after several programs. -/
def checks : List (Program L) → List L × Bool → Option (List L × Bool)
  | [], state => some state
  | program :: rest, state => (program.check rank async state).bind (checks rest)

/-- A thread that will end without a lock, and that can be interrupted whenever it does not block signals. -/
structure Thread.Checked (thread : Thread L) : Prop where
  todo : checks rank async thread.todo (thread.held, thread.blocked) = some ([], false)
  guarded : thread.blocked = false → ∀ lock ∈ thread.held, async lock = false

/-- A signal handler that can interrupt any program. -/
def Program.Interrupts (handler : Program L) : Prop :=
  ∀ held, (∀ lock ∈ held, async lock = false) → handler.check rank async (held, true) = some (held, true)

end

namespace Thread

variable {L : Type} [DecidableEq L] {rank : L → Nat} {async : L → Bool} {thread next : Thread L} {lock : L}

theorem Checked.step {free : L → Prop} (h : thread.Checked rank async) (hstep : thread.Step free next) :
    next.Checked rank async := by
  obtain ⟨htodo, hguarded⟩ := h
  cases hstep with
  | skip => exact ⟨htodo, hguarded⟩
  | pause =>
    obtain ⟨state, hpause, hrest⟩ := Option.bind_eq_some_iff.mp htodo
    obtain ⟨_, hsame⟩ := Option.ite_none_right_eq_some.mp hpause
    obtain rfl := Option.some.inj hsame
    exact ⟨hrest, hguarded⟩
  | acquire hfree =>
    obtain ⟨state, hacquire, hrest⟩ := Option.bind_eq_some_iff.mp htodo
    obtain ⟨⟨_, hasync⟩, hsame⟩ := Option.ite_none_right_eq_some.mp hacquire
    obtain rfl := Option.some.inj hsame
    refine ⟨hrest, fun hblocked other hother => ?_⟩
    obtain rfl | hother := List.mem_cons.mp hother
    · rw [← Bool.not_eq_true]
      intro htrue
      rw [hasync htrue] at hblocked
      cases hblocked
    · exact hguarded hblocked other hother
  | release =>
    obtain ⟨state, hrelease, hrest⟩ := Option.bind_eq_some_iff.mp htodo
    obtain ⟨_, hsame⟩ := Option.ite_none_right_eq_some.mp hrelease
    obtain rfl := Option.some.inj hsame
    exact ⟨hrest, fun hblocked other hother => hguarded hblocked other (List.mem_of_mem_erase hother)⟩
  | block_signals => exact ⟨htodo, nofun⟩
  | unblock_signals =>
    obtain ⟨state, hunblock, hrest⟩ := Option.bind_eq_some_iff.mp htodo
    obtain ⟨hsync, hsame⟩ := Option.ite_none_right_eq_some.mp hunblock
    obtain rfl := Option.some.inj hsame
    exact ⟨hrest, fun _ => hsync⟩
  | seq =>
    simp only [checks, Program.check, Option.bind_assoc] at htodo
    exact ⟨htodo, hguarded⟩
  | first =>
    obtain ⟨state, hchoice, hrest⟩ := Option.bind_eq_some_iff.mp htodo
    obtain ⟨_, hfirst⟩ := Option.ite_none_right_eq_some.mp hchoice
    exact ⟨Option.bind_eq_some_iff.mpr ⟨state, hfirst, hrest⟩, hguarded⟩
  | second =>
    obtain ⟨state, hchoice, hrest⟩ := Option.bind_eq_some_iff.mp htodo
    obtain ⟨hsame, hfirst⟩ := Option.ite_none_right_eq_some.mp hchoice
    exact ⟨Option.bind_eq_some_iff.mpr ⟨state, hsame ▸ hfirst, hrest⟩, hguarded⟩
  | again =>
    obtain ⟨state, hloop, hrest⟩ := Option.bind_eq_some_iff.mp htodo
    obtain ⟨hbody, hsame⟩ := Option.ite_none_right_eq_some.mp hloop
    refine ⟨Option.bind_eq_some_iff.mpr ⟨_, hbody, htodo⟩, hguarded⟩
  | leave =>
    obtain ⟨state, hloop, hrest⟩ := Option.bind_eq_some_iff.mp htodo
    obtain ⟨_, hsame⟩ := Option.ite_none_right_eq_some.mp hloop
    obtain rfl := Option.some.inj hsame
    exact ⟨hrest, hguarded⟩

theorem Checked.interrupt (h : thread.Checked rank async) {handler : Program L}
    (hhandler : handler.Interrupts rank async) (hblocked : thread.blocked = false) :
    (thread.interrupt handler).Checked rank async := by
  have hsync := h.guarded hblocked
  have htodo := h.todo
  rw [hblocked] at htodo
  refine ⟨?_, nofun⟩
  simp only [Thread.interrupt, checks, hhandler thread.held hsync, Option.bind_some, Program.check, if_pos hsync]
  exact htodo

omit [DecidableEq L] in
theorem requests_eq_some {lock : L} : thread.requests = some lock ↔ ∃ rest, thread.todo = .acquire lock :: rest := by
  unfold Thread.requests
  split
  · next heq => simp [heq]
  · next hother =>
    refine iff_of_false nofun ?_
    rintro ⟨rest, heq⟩
    exact hother lock rest heq

/-- A thread asks for a lock whose rank is higher than those of all locks that it holds. -/
theorem Checked.rank_lt (h : thread.Checked rank async) (hrequests : thread.requests = some lock) :
    ∀ other ∈ thread.held, rank other < rank lock := by
  obtain ⟨rest, htodo⟩ := requests_eq_some.mp hrequests
  have hchecks := h.todo
  rw [htodo] at hchecks
  obtain ⟨state, hacquire, _⟩ := Option.bind_eq_some_iff.mp hchecks
  obtain ⟨⟨hrank, _⟩, _⟩ := Option.ite_none_right_eq_some.mp hacquire
  exact hrank

/-- A thread that holds a lock does not pause, and it goes on unless it asks for a lock that is taken. -/
theorem Checked.goes_on {free : L → Prop} (h : thread.Checked rank async) (hheld : lock ∈ thread.held)
    (hfree : ∀ other, thread.requests = some other → free other) :
    (∀ rest, thread.todo ≠ .pause :: rest) ∧ ∃ next, thread.Step free next := by
  obtain ⟨todo, held, blocked⟩ := thread
  have hchecks := h.todo
  simp only at hheld hchecks
  cases todo with
  | nil =>
    cases hchecks
    cases hheld
  | cons program rest =>
    obtain ⟨state, hprogram, _⟩ := Option.bind_eq_some_iff.mp hchecks
    cases program with
    | pause =>
      obtain ⟨hnothing, _⟩ := Option.ite_none_right_eq_some.mp hprogram
      rw [hnothing] at hheld
      cases hheld
    | skip => exact ⟨nofun, _, .skip⟩
    | acquire other => exact ⟨nofun, _, .acquire (hfree other rfl)⟩
    | release other => exact ⟨nofun, _, .release⟩
    | block_signals => exact ⟨nofun, _, .block_signals⟩
    | unblock_signals => exact ⟨nofun, _, .unblock_signals⟩
    | seq first second => exact ⟨nofun, _, .seq⟩
    | choice first second => exact ⟨nofun, _, .first⟩
    | loop body => exact ⟨nofun, _, .leave⟩

end Thread

section

variable {L T : Type} [DecidableEq L] [DecidableEq T] {rank : L → Nat} {async : L → Bool} {handler : Program L}
  {threads first last : T → Thread L} {thread other : T}

theorem Step.checked (hhandler : handler.Interrupts rank async) (h : ∀ thread, (first thread).Checked rank async)
    (hstep : Step handler first last) : ∀ thread, (last thread).Checked rank async := by
  intro thread
  cases hstep with
  | run moved hstep =>
    by_cases hsame : thread = moved
    · subst hsame
      rw [Function.update_self]
      exact (h thread).step hstep
    · rw [Function.update_of_ne hsame]
      exact h thread
  | signal moved hblocked =>
    by_cases hsame : thread = moved
    · subst hsame
      rw [Function.update_self]
      exact (h thread).interrupt hhandler hblocked
    · rw [Function.update_of_ne hsame]
      exact h thread

/-- The locking order holds in all states that are reached. -/
theorem checked_of_reaches (hhandler : handler.Interrupts rank async) (h : ∀ thread, (first thread).Checked rank async)
    (hrun : Relation.ReflTransGen (Step handler) first last) : ∀ thread, (last thread).Checked rank async := by
  induction hrun with
  | refl => exact h
  | tail _ hstep ih => exact hstep.checked hhandler ih

omit [DecidableEq T] in
/-- Along a chain of waiting threads the ranks of the locks ascend. -/
theorem rank_lt_of_waits (h : ∀ thread, (threads thread).Checked rank async)
    (hwaits : Relation.TransGen (WaitsFor threads) thread other) {lock : L}
    (hrequests : (threads other).requests = some lock) :
    ∃ first, (threads thread).requests = some first ∧ rank first < rank lock := by
  induction hwaits using Relation.TransGen.head_induction_on with
  | single hwait =>
    obtain ⟨first, hfirst, hheld⟩ := hwait
    exact ⟨first, hfirst, (h other).rank_lt hrequests first hheld⟩
  | head hwait _ ih =>
    obtain ⟨first, hfirst, hheld⟩ := hwait
    obtain ⟨middle, hmiddle, hlt⟩ := ih
    exact ⟨first, hfirst, Nat.lt_trans ((h _).rank_lt hmiddle first hheld) hlt⟩

omit [DecidableEq T] in
/-- No threads wait for each other in a circle. -/
theorem no_circle (h : ∀ thread, (threads thread).Checked rank async) (thread : T) :
    ¬ Relation.TransGen (WaitsFor threads) thread thread := by
  intro hwaits
  obtain ⟨lock, hlock⟩ : ∃ lock, (threads thread).requests = some lock := by
    obtain ⟨_, ⟨lock, hlock, _⟩, _⟩ := Relation.TransGen.head'_iff.mp hwaits
    exact ⟨lock, hlock⟩
  obtain ⟨first, hfirst, hlt⟩ := rank_lt_of_waits h hwaits hlock
  rw [hlock] at hfirst
  obtain rfl := Option.some.inj hfirst
  exact Nat.lt_irrefl _ hlt

omit [DecidableEq T] in
/-- Whoever waits for a lock waits, directly or through others, for a thread that goes on. -/
theorem exists_running (h : ∀ thread, (threads thread).Checked rank async) {bound : Nat}
    (hbound : ∀ lock, rank lock ≤ bound) (hwaits : WaitsFor threads thread other) :
    ∃ running, Relation.ReflTransGen (WaitsFor threads) other running ∧
      (∀ rest, (threads running).todo ≠ .pause :: rest) ∧
        ∃ next, (threads running).Step (fun lock => ∀ other, lock ∉ (threads other).held) next := by
  obtain ⟨lock, hasked, hheld⟩ := hwaits
  clear hasked
  induction hgap : bound - rank lock using Nat.strong_induction_on generalizing lock other with
  | _ gap ih =>
    by_cases hfree : ∀ wanted, (threads other).requests = some wanted → ∀ holder, wanted ∉ (threads holder).held
    · obtain ⟨hpause, hnext⟩ := (h other).goes_on hheld hfree
      exact ⟨other, .refl, hpause, hnext⟩
    · push Not at hfree
      obtain ⟨wanted, hwanted, holder, hholds⟩ := hfree
      have hlt := (h other).rank_lt hwanted lock hheld
      have hle := hbound wanted
      obtain ⟨running, hchain, hruns⟩ := ih (bound - rank wanted) (by omega) wanted hholds rfl
      exact ⟨running, .head ⟨wanted, hwanted, hholds⟩ hchain, hruns⟩

end

end locking
