import UniversalFencingHub.Threads.Step

namespace ufh

/-- The client that the selector holds, and what it is about to do with it. -/
def SelectorPosition.holding : SelectorPosition → Option (ClientPtr × Role)
  | .accept_lock client => some (client, .accepted)
  | .accept_add client => some (client, .accepted)
  | .enqueue_lock client _ => some (client, .completed)
  | .enqueue client _ => some (client, .completed)
  | _ => none

/-- The client that a worker holds, and what it is about to do with it. -/
def WorkerPosition.holding : WorkerPosition → Option (ClientPtr × Role)
  | .process client => some (client, .completed)
  | .hand_back_lock client => some (client, .answered)
  | .hand_back client => some (client, .answered)
  | .close client => some (client, .ended)
  | _ => none

def State.holding {Buf : Type} (state : State Buf) : Thread → Option (ClientPtr × Role)
  | .selector => state.selector.holding
  | .worker id => (state.workers id).holding

/-- The positions inside the sections that `com_queue_lock` protects. -/
def SelectorPosition.in_com_section : SelectorPosition → Bool
  | .build => true
  | .accept_add _ => true
  | .pass_first => true
  | .pass _ => true
  | .enqueue_lock _ _ => true
  | .enqueue _ _ => true
  | .cleanup_disable => true
  | .cleanup_signal => true
  | .cleanup_com => true
  | _ => false

def WorkerPosition.in_com_section : WorkerPosition → Bool
  | .hand_back _ => true
  | _ => false

def State.in_com_section {Buf : Type} (state : State Buf) : Thread → Bool
  | .selector => state.selector.in_com_section
  | .worker id => (state.workers id).in_com_section

/-- A thread inside a protected section owns the lock. -/
def Exclusive (owner : Option Thread) (inside : Thread → Bool) : Prop :=
  ∀ thread, inside thread = true → owner = some thread

theorem Exclusive.keep {owner : Option Thread} {inside inside' : Thread → Bool} (h : Exclusive owner inside)
    (hinside : ∀ thread, inside' thread = true → inside thread = true) : Exclusive owner inside' :=
  fun thread hthread => h thread (hinside thread hthread)

theorem Exclusive.acquire {inside inside' : Thread → Bool} (h : Exclusive none inside) {thread : Thread}
    (hinside : ∀ other, other ≠ thread → inside' other = true → inside other = true) :
    Exclusive (some thread) inside' := by
  intro other hother
  by_cases heq : other = thread
  · rw [heq]
  · cases h other (hinside other heq hother)

theorem Exclusive.release {owner : Option Thread} {inside inside' : Thread → Bool} (h : Exclusive owner inside)
    {thread : Thread} (hthread : inside thread = true) (hleft : inside' thread = false)
    (hinside : ∀ other, other ≠ thread → inside' other = true → inside other = true) : Exclusive none inside' := by
  intro other hother
  have hne : other ≠ thread := by
    intro heq
    rw [heq, hleft] at hother
    cases hother
  have howner := (h thread hthread).symm.trans (h other (hinside other hne hother))
  exact absurd (Option.some.inj howner).symm hne

/-- The clients held by threads are those whose place says so. -/
def Holding (holding : Thread → Option (ClientPtr × Role)) (place : ClientPtr → Place) : Prop :=
  ∀ thread client role, holding thread = some (client, role) ↔ place client = .held thread role

section

variable {holding holding' : Thread → Option (ClientPtr × Role)} {place : ClientPtr → Place} {thread : Thread}
  {client : ClientPtr} {role role' : Role} {target : Place}

/-- A step of one thread on one client. -/
theorem Holding.change (h : Holding holding place)
    (hbefore : ∀ other role, holding thread = some (other, role) → other = client)
    (hclient : ∀ other role, place client = .held other role → other = thread)
    (hafter : ∀ other role, holding' thread = some (other, role) ↔ other = client ∧ target = .held thread role)
    (htarget : ∀ other role, target = .held other role → other = thread)
    (hothers : ∀ other, other ≠ thread → holding' other = holding other) :
    Holding holding' (Function.update place client target) := by
  intro other held role
  by_cases hthread : other = thread
  · rw [hthread, hafter]
    by_cases hsame : held = client
    · rw [hsame, Function.update_self]
      simp
    · rw [Function.update_of_ne hsame, ← h]
      exact iff_of_false (fun hboth => hsame hboth.1) (fun heq => hsame (hbefore held role heq))
  · rw [hothers other hthread, h]
    by_cases hsame : held = client
    · rw [hsame, Function.update_self]
      exact iff_of_false (fun heq => hthread (hclient other role heq)) (fun heq => hthread (htarget other role heq))
    · rw [Function.update_of_ne hsame]

theorem Holding.take (h : Holding holding place) (hnone : holding thread = none)
    (hclient : ∀ other role, place client ≠ .held other role) (hafter : holding' thread = some (client, role))
    (hothers : ∀ other, other ≠ thread → holding' other = holding other) :
    Holding holding' (Function.update place client (.held thread role)) := by
  refine h.change (fun other held heq => ?_) (fun other held heq => ?_) (fun other held => ?_)
    (fun other held heq => ?_)
    hothers
  · rw [hnone] at heq
    cases heq
  · exact absurd heq (hclient other held)
  · rw [hafter]
    simp [eq_comm]
  · simp only [Place.held.injEq] at heq
    exact heq.1.symm

theorem Holding.held_by (h : Holding holding place) (hheld : holding thread = some (client, role)) (other : Thread)
    (held : Role) (heq : place client = .held other held) : other = thread := by
  rw [(h thread client role).mp hheld, Place.held.injEq] at heq
  exact heq.1.symm

theorem Holding.turn (h : Holding holding place) (hheld : holding thread = some (client, role))
    (hafter : holding' thread = some (client, role'))
    (hothers : ∀ other, other ≠ thread → holding' other = holding other) :
    Holding holding' (Function.update place client (.held thread role')) := by
  refine h.change (fun other held heq => ?_) (h.held_by hheld) (fun other held => ?_) (fun other held heq => ?_) hothers
  · rw [hheld] at heq
    simp only [Option.some.injEq, Prod.mk.injEq] at heq
    exact heq.1.symm
  · rw [hafter]
    simp [eq_comm]
  · simp only [Place.held.injEq] at heq
    exact heq.1.symm

theorem Holding.release (h : Holding holding place) (hheld : holding thread = some (client, role))
    (hafter : holding' thread = none) (htarget : ∀ other role, target ≠ .held other role)
    (hothers : ∀ other, other ≠ thread → holding' other = holding other) :
    Holding holding' (Function.update place client target) := by
  refine h.change (fun other held heq => ?_) (h.held_by hheld) (fun other held => ?_) (fun other held heq => ?_) hothers
  · rw [hheld] at heq
    simp only [Option.some.injEq, Prod.mk.injEq] at heq
    exact heq.1.symm
  · rw [hafter]
    simp [htarget]
  · exact absurd heq (htarget other held)

/-- A client that no thread holds moves to another place of that kind. -/
theorem Holding.move (h : Holding holding place) (hclient : ∀ other role, place client ≠ .held other role)
    (htarget : ∀ other role, target ≠ .held other role) : Holding holding (Function.update place client target) := by
  intro other held role
  rw [h]
  by_cases hsame : held = client
  · rw [hsame, Function.update_self]
    exact iff_of_false (hclient other role) (htarget other role)
  · rw [Function.update_of_ne hsame]

end

end ufh
