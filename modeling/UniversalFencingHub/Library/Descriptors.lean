import Mathlib.Data.Fintype.Basic
import UniversalFencingHub.Library.Transition

open transition

namespace descriptors

/-- What `close()` reports. The number is free afterwards in all cases; the last one is
reported for a number that was free before. -/
inductive CloseResult where
  | success
  | interrupted
  | failed
  | bad_descriptor
  deriving DecidableEq

/-- A call of a function that closes the number it was given, and that may call `close()`
more than once. -/
structure Call where
  fd : Int
  /-- the file that the number stood for when the function was called -/
  given : Nat
  /-- the files that the function has closed so far -/
  released : List Nat := []
  deriving DecidableEq

/-- The call has closed nothing but the file it was given, and that only once. -/
def Call.Own (call : Call) : Prop := call.released = [] ∨ call.released = [call.given]

instance (call : Call) : Decidable call.Own := inferInstanceAs (Decidable (_ ∨ _))

/-- The descriptors of a process. The threads share the numbers; a free one may be used
for another file. -/
structure Table (Thread : Type) where
  names : Int → Option Nat := fun _ => none
  created : Nat := 0
  closing : Thread → Option Call := fun _ => none
  finished : List Call := []

inductive Action (Thread : Type) where
  | create (fd : Int)
  | call (thread : Thread) (fd : Int)
  | close (thread : Thread) (result : CloseResult)
  deriving DecidableEq

/-- The action is not a `close()` that a signal interrupts. -/
def Action.uninterrupted {Thread : Type} : Action Thread → Bool
  | .close _ result => result ≠ .interrupted
  | _ => true

namespace Table

variable {Thread : Type}

/-- No call of a thread is about to close the file. -/
def Released (table : Table Thread) (file : Nat) : Prop :=
  ∀ thread, ∀ call ∈ table.closing thread, call.given ≠ file

instance [Fintype Thread] (table : Table Thread) (file : Nat) : Decidable (table.Released file) :=
  inferInstanceAs (Decidable (∀ _, ∀ _ ∈ _, _))

/-- All calls have closed what they were given, and nothing else. -/
structure Own (table : Table Thread) : Prop where
  closing : ∀ thread, ∀ call ∈ table.closing thread, call.Own
  finished : ∀ call ∈ table.finished, call.Own

section

variable [DecidableEq Thread]

/-- One `close()` of a call. The result decides whether the call goes on. -/
def close (retries : CloseResult → Bool) (table : Table Thread) (thread : Thread) (call : Call)
    (result : CloseResult) : Table Thread :=
  let closed := { call with released := call.released ++ (table.names call.fd).toList }
  let table := { table with names := Function.update table.names call.fd none }
  if retries result then { table with closing := Function.update table.closing thread (some closed) }
  else { table with closing := Function.update table.closing thread none, finished := table.finished ++ [closed] }

variable [Fintype Thread]

/-- The threads create descriptors and close them, one `close()` at a time. A function that
closes is called with no descriptor, or with one that stands for a file, and by one thread
only for each file. -/
def step (retries : CloseResult → Bool) (table : Table Thread) : Action Thread → Option (Table Thread)
  | .create fd =>
    if 0 ≤ fd ∧ table.names fd = none then
      some { table with names := Function.update table.names fd (some table.created), created := table.created + 1 }
    else none
  | .call thread fd =>
    if fd < 0 then some table
    else
      match table.names fd with
      | some file =>
        if table.closing thread = none ∧ table.Released file then
          some { table with closing := Function.update table.closing thread (some { fd, given := file }) }
        else none
      | none => none
  | .close thread result =>
    match table.closing thread with
    | some call =>
      if result = .bad_descriptor ↔ table.names call.fd = none then
        some (table.close retries thread call result)
      else none
    | none => none

/-- The runs in which a call is over after its first `close()`. -/
def ClosesOnce (retries : CloseResult → Bool) (_ : Table Thread) : Action Thread → Prop
  | .close _ result => retries result = false
  | _ => True

/-- What holds while every call is over after its first `close()`: a file that is about to
be closed still has its number, and one thread only is about to close it. -/
structure Orderly (table : Table Thread) : Prop where
  waiting : ∀ thread, ∀ call ∈ table.closing thread,
    0 ≤ call.fd ∧ call.released = [] ∧ table.names call.fd = some call.given
  alone : ∀ thread other, ∀ call ∈ table.closing thread, ∀ call' ∈ table.closing other,
    call.given = call'.given → thread = other
  finished : ∀ call ∈ table.finished, call.released = [call.given]

omit [DecidableEq Thread] [Fintype Thread] in
theorem Orderly.own {table : Table Thread} (h : table.Orderly) : table.Own :=
  ⟨fun thread call hcall => Or.inl (h.waiting thread call hcall).2.1, fun call hcall => Or.inr (h.finished call hcall)⟩

omit [DecidableEq Thread] [Fintype Thread] in
theorem initial_orderly : ({} : Table Thread).Orderly := ⟨nofun, nofun, nofun⟩

variable {retries : CloseResult → Bool} {before after : Table Thread} {action : Action Thread}

theorem Orderly.step (h : before.Orderly) (honce : before.ClosesOnce retries action)
    (hstep : before.step retries action = some after) : after.Orderly := by
  cases action with
  | create fd =>
    simp only [Table.step, Option.ite_none_right_eq_some, Option.some.injEq] at hstep
    obtain ⟨⟨_, hfree⟩, rfl⟩ := hstep
    refine ⟨fun thread call hcall => ?_, h.alone, h.finished⟩
    obtain ⟨hvalid, hreleased, hnames⟩ := h.waiting thread call hcall
    have hne : call.fd ≠ fd := fun heq => by
      rw [heq, hfree] at hnames
      cases hnames
    exact ⟨hvalid, hreleased, (Function.update_of_ne hne ..).trans hnames⟩
  | call thread fd =>
    simp only [Table.step] at hstep
    split at hstep
    · rw [← Option.some.inj hstep]
      exact h
    · next hvalid =>
      split at hstep
      · next file hfile =>
        simp only [Option.ite_none_right_eq_some, Option.some.injEq] at hstep
        obtain ⟨⟨_, hfresh⟩, rfl⟩ := hstep
        have hcases : ∀ other, ∀ call ∈ Function.update before.closing thread (some { fd, given := file }) other,
            other = thread ∧ call = { fd, given := file } ∨ other ≠ thread ∧ call ∈ before.closing other := by
          intro other call hcall
          by_cases hsame : other = thread
          · rw [hsame, Function.update_self] at hcall
            exact Or.inl ⟨hsame, (Option.mem_some_iff.mp hcall).symm⟩
          · rw [Function.update_of_ne hsame] at hcall
            exact Or.inr ⟨hsame, hcall⟩
        refine ⟨fun other call hcall => ?_, fun first second call hcall call' hcall' hgiven => ?_, h.finished⟩
        · obtain ⟨_, rfl⟩ | ⟨_, hcall⟩ := hcases other call hcall
          · exact ⟨Int.not_lt.mp hvalid, rfl, hfile⟩
          · exact h.waiting other call hcall
        · obtain ⟨rfl, rfl⟩ | ⟨_, hfirst⟩ := hcases first call hcall
          · obtain ⟨rfl, rfl⟩ | ⟨_, hsecond⟩ := hcases second call' hcall'
            · rfl
            · exact absurd hgiven.symm (hfresh second call' hsecond)
          · obtain ⟨rfl, rfl⟩ | ⟨_, hsecond⟩ := hcases second call' hcall'
            · exact absurd hgiven (hfresh first call hfirst)
            · exact h.alone first second call hfirst call' hsecond hgiven
      · cases hstep
  | close thread result =>
    simp only [Table.step] at hstep
    split at hstep
    · next call hcall =>
      simp only [Option.ite_none_right_eq_some, Option.some.injEq] at hstep
      obtain ⟨_, rfl⟩ := hstep
      have hover : retries result = false := honce
      simp only [Table.close, hover, Bool.false_eq_true, if_false]
      obtain ⟨hvalid, hreleased, hnames⟩ := h.waiting thread call hcall
      have hothers : ∀ other, ∀ call' ∈ Function.update before.closing thread none other,
          other ≠ thread ∧ call' ∈ before.closing other := by
        intro other call' hcall'
        by_cases hsame : other = thread
        · rw [hsame, Function.update_self] at hcall'
          cases hcall'
        · rw [Function.update_of_ne hsame] at hcall'
          exact ⟨hsame, hcall'⟩
      refine ⟨fun other call' hcall' => ?_, fun first second call' hcall' call'' hcall'' hgiven => ?_,
          fun call' hcall' => ?_⟩
      · obtain ⟨hne, hcall'⟩ := hothers other call' hcall'
        obtain ⟨hvalid', hreleased', hnames'⟩ := h.waiting other call' hcall'
        have hfd : call'.fd ≠ call.fd := by
          intro heq
          rw [heq, hnames] at hnames'
          exact hne (h.alone other thread call' hcall' call hcall (Option.some.inj hnames').symm)
        exact ⟨hvalid', hreleased', (Function.update_of_ne hfd ..).trans hnames'⟩
      · exact h.alone first second call' (hothers first call' hcall').2 call'' (hothers second call'' hcall'').2 hgiven
      · obtain hfinished | hlast := List.mem_append.mp hcall'
        · exact h.finished call' hfinished
        · rw [List.mem_singleton.mp hlast]
          simp [hreleased, hnames]
    · cases hstep

/-- A call that goes on after it has closed its file closes another one that is created with
the same number. -/
theorem closes_stranger {table : Table Thread} {thread : Thread} {call : Call} {result : CloseResult}
    (hcall : table.closing thread = some call) (hfd : 0 ≤ call.fd) (hwaiting : call.released = [])
    (hnames : table.names call.fd = some call.given) (hresult : result ≠ .bad_descriptor)
    (hretries : retries result = true) (hdone : retries .success = false) :
    ∃ last, run (step retries) table [.close thread result, .create call.fd, .close thread .success] = some last ∧
      ¬ last.Own := by
  have hclosed : table.step retries (.close thread result) = some
      { table with
        names := Function.update table.names call.fd none
        closing := Function.update table.closing thread (some { call with released := [call.given] }) } := by
    simp [step, close, hcall, hnames, hwaiting, hresult, hretries]
  have hcreated : ∀ before : Table Thread, before.names call.fd = none → before.step retries (.create call.fd) = some
      { before with
        names := Function.update before.names call.fd (some before.created), created := before.created + 1 } := by
    intro before hfree
    simp [step, hfd, hfree]
  have hagain : ∀ before : Table Thread, ∀ file, before.names call.fd = some file →
      before.closing thread = some { call with released := [call.given] } →
      before.step retries (.close thread .success) = some
        { before with
          names := Function.update before.names call.fd none
          closing := Function.update before.closing thread none
          finished := before.finished ++ [{ call with released := [call.given, file] }] } := by
    intro before file hfile hgoing
    simp [step, close, hfile, hgoing, hdone]
  refine ⟨_, by
    rw [run, hclosed, Option.bind_some, run, hcreated _ (Function.update_self ..), Option.bind_some, run,
      hagain _ table.created (Function.update_self ..) (Function.update_self ..), Option.bind_some, run], ?_⟩
  intro hown
  obtain hnone | hone := hown.finished { call with released := [call.given, table.created] }
    (List.mem_append_right _ (List.mem_singleton_self _))
  · cases hnone
  · simp at hone

end

end Table

end descriptors
