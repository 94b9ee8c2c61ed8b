import Mathlib.Data.List.Basic
import Mathlib.Data.List.Count
import Mathlib.Logic.Function.Basic

namespace lifetime

/-- What happens to a resource that several users enter and leave. -/
inductive Event (U : Type) where
  | create (success : Bool)
  | enter (user : U)
  | leave (user : U)
  | destroy
  deriving DecidableEq

/-- The resource does not exist yet, or is in use by some of the users, or exists no more. -/
inductive Status (U : Type) where
  | absent
  | live (inside : U → Bool)
  | gone

/-- The use of a resource: it is created before a user enters it and destroyed after all users have
left it. -/
inductive Next {U : Type} [DecidableEq U] : Status U → Event U → Status U → Prop where
  | created : Next .absent (.create true) (.live fun _ => false)
  | failed : Next .absent (.create false) .gone
  | enter {inside : U → Bool} (user : U) (houtside : inside user = false) :
    Next (.live inside) (.enter user) (.live (Function.update inside user true))
  | leave {inside : U → Bool} (user : U) (hinside : inside user = true) :
    Next (.live inside) (.leave user) (.live (Function.update inside user false))
  | destroyed {inside : U → Bool} (hleft : ∀ user, inside user = false) : Next (.live inside) .destroy .gone

/-- A sequence of events that leads to a status. -/
inductive Leads {U : Type} [DecidableEq U] : List (Event U) → Status U → Prop where
  | nil : Leads [] .absent
  | snoc {trace : List (Event U)} {status next : Status U} {event : Event U} (hleads : Leads trace status)
    (hnext : Next status event next) : Leads (trace ++ [event]) next

/-- What has happened to a resource with a given status. -/
def Happened {U : Type} [DecidableEq U] (trace : List (Event U)) : Status U → Prop
  | .absent => trace = []
  | .live inside => trace.count (.create true) = 1 ∧ trace.count .destroy = 0 ∧
      ∀ user, trace.count (.enter user) = trace.count (.leave user) + if inside user then 1 else 0
  | .gone => trace.count .destroy = trace.count (.create true) ∧ trace.count (.create true) ≤ 1

section

variable {U : Type} [DecidableEq U] {status : Status U} {event : Event U} {trace front back : List (Event U)}

/-- Every part of a sequence of events leads to a status, from which the next event goes on. -/
theorem Leads.split (h : Leads trace status) (hsplit : trace = front ++ event :: back) :
    ∃ before after, Leads front before ∧ Next before event after := by
  induction h generalizing back with
  | nil => cases front <;> cases hsplit
  | snoc hleads hnext ih =>
    rcases List.eq_nil_or_concat' back with rfl | ⟨rest, last, rfl⟩
    · obtain ⟨rfl, heq⟩ := List.append_inj' hsplit rfl
      cases heq
      exact ⟨_, _, hleads, hnext⟩
    · rw [← List.cons_append, ← List.append_assoc] at hsplit
      exact ih (List.append_inj' hsplit rfl).1

theorem Leads.happened (h : Leads trace status) : Happened trace status := by
  induction h with
  | nil => rfl
  | snoc hleads hnext ih =>
    cases hnext with
    | created =>
      rw [show _ = [] from ih]
      exact ⟨rfl, rfl, fun _ => rfl⟩
    | failed =>
      rw [show _ = [] from ih]
      exact ⟨rfl, Nat.zero_le _⟩
    | enter user houtside =>
      obtain ⟨hcreated, hdestroyed, hinside⟩ := ih
      refine ⟨by simpa using hcreated, by simpa using hdestroyed, fun other => ?_⟩
      have hother := hinside other
      by_cases hsame : other = user
      · subst hsame
        simp [houtside] at hother
        simp [hother]
      · have hne : ¬ user = other := fun heq => hsame heq.symm
        simpa [hsame, hne] using hother
    | leave user hin =>
      obtain ⟨hcreated, hdestroyed, hinside⟩ := ih
      refine ⟨by simpa using hcreated, by simpa using hdestroyed, fun other => ?_⟩
      have hother := hinside other
      by_cases hsame : other = user
      · subst hsame
        simp [hin] at hother
        simp [hother]
      · have hne : ¬ user = other := fun heq => hsame heq.symm
        simpa [hsame, hne] using hother
    | destroyed hleft =>
      obtain ⟨hcreated, hdestroyed, _⟩ := ih
      simp [Happened, hcreated, hdestroyed]

/-- A user enters and leaves only a resource that has been created and not been destroyed. -/
theorem Leads.used (h : Leads trace status) {user : U} (hevent : event = .enter user ∨ event = .leave user)
    (hsplit : trace = front ++ event :: back) : front.count (.create true) = 1 ∧ front.count .destroy = 0 := by
  obtain ⟨before, after, hfront, hnext⟩ := h.split hsplit
  obtain ⟨inside, rfl⟩ : ∃ inside, before = .live inside := by
    obtain rfl | rfl := hevent
    · cases hnext
      exact ⟨_, rfl⟩
    · cases hnext
      exact ⟨_, rfl⟩
  obtain ⟨hcreated, hdestroyed, _⟩ := hfront.happened
  exact ⟨hcreated, hdestroyed⟩

/-- A resource is destroyed only after it has been created, and after everyone has left it. -/
theorem Leads.destroyed (h : Leads trace status) (hsplit : trace = front ++ .destroy :: back) :
    front.count (.create true) = 1 ∧ front.count .destroy = 0 ∧
      ∀ user, front.count (.enter user) = front.count (.leave user) := by
  obtain ⟨before, after, hfront, hnext⟩ := h.split hsplit
  cases hnext with
  | destroyed hleft =>
    obtain ⟨hcreated, hdestroyed, hinside⟩ := hfront.happened
    exact ⟨hcreated, hdestroyed, fun user => by simpa [hleft user] using hinside user⟩

/-- Nobody enters or leaves a resource that has been destroyed. -/
theorem Leads.not_used_after (h : Leads trace status) {user : U} (hsplit : trace = front ++ .destroy :: back) :
    .enter user ∉ back ∧ .leave user ∉ back := by
  have hused : ∀ event : Event U, event = .enter user ∨ event = .leave user → event ∉ back := by
    intro event hevent hmem
    obtain ⟨middle, rest, rfl⟩ := List.append_of_mem hmem
    have hfront : trace = (front ++ .destroy :: middle) ++ event :: rest := by
      rw [hsplit, List.append_assoc, List.cons_append]
    obtain ⟨_, hdestroyed⟩ := h.used hevent hfront
    exact List.count_eq_zero.mp hdestroyed (by simp)
  exact ⟨hused _ (Or.inl rfl), hused _ (Or.inr rfl)⟩

theorem Leads.created_once (h : Leads trace status) : trace.count (.create true) ≤ 1 := by
  have hhappened := h.happened
  cases status with
  | absent =>
    rw [show trace = [] from hhappened]
    exact Nat.zero_le _
  | live inside => exact Nat.le_of_eq hhappened.1
  | gone => exact hhappened.2

end

end lifetime
