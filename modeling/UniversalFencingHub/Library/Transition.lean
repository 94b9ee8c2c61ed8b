import Mathlib.Logic.Relation

namespace transition

/-- One step of a partial transition function, taken under a side condition on
the state before the step and the action. -/
def StepWhere {S A : Type} (step : S → A → Option S) (guard : S → A → Prop) (before after : S) : Prop :=
  ∃ action, guard before action ∧ step before action = some after

/-- The states reached by runs all of whose steps meet the side condition. -/
def ReachesWhere {S A : Type} (step : S → A → Option S) (guard : S → A → Prop) : S → S → Prop :=
  Relation.ReflTransGen (StepWhere step guard)

/-- The states reached by arbitrary runs. -/
def Reaches {S A : Type} (step : S → A → Option S) : S → S → Prop :=
  ReachesWhere step (fun _ _ => True)

theorem ReachesWhere.refl {S A : Type} {step : S → A → Option S} {guard : S → A → Prop} (state : S) :
    ReachesWhere step guard state state :=
  Relation.ReflTransGen.refl

theorem ReachesWhere.tail {S A : Type} {step : S → A → Option S} {guard : S → A → Prop}
    {first before after : S} {action : A} (hrun : ReachesWhere step guard first before)
    (hguard : guard before action) (hstep : step before action = some after) :
    ReachesWhere step guard first after :=
  Relation.ReflTransGen.tail hrun ⟨action, hguard, hstep⟩

theorem ReachesWhere.trans {S A : Type} {step : S → A → Option S} {guard : S → A → Prop}
    {first middle last : S} (hfirst : ReachesWhere step guard first middle)
    (hsecond : ReachesWhere step guard middle last) : ReachesWhere step guard first last :=
  Relation.ReflTransGen.trans hfirst hsecond

theorem ReachesWhere.weaken {S A : Type} {step : S → A → Option S} {strong weak : S → A → Prop}
    (himp : ∀ state action, strong state action → weak state action)
    {first last : S} (hrun : ReachesWhere step strong first last) : ReachesWhere step weak first last := by
  induction hrun with
  | refl => exact .refl _
  | tail _ hstep ih =>
    obtain ⟨action, hguard, hstep⟩ := hstep
    exact ih.tail (himp _ _ hguard) hstep

theorem ReachesWhere.reaches {S A : Type} {step : S → A → Option S} {guard : S → A → Prop}
    {first last : S} (hrun : ReachesWhere step guard first last) : Reaches step first last :=
  hrun.weaken (fun _ _ _ => trivial)

/-- The invariant rule. A property of the first state that every step meeting
the side condition preserves holds in every state reached. -/
theorem ReachesWhere.invariant {S A : Type} {step : S → A → Option S} {guard : S → A → Prop}
    {P : S → Prop} {first last : S} (hrun : ReachesWhere step guard first last) (hfirst : P first)
    (hpreserved : ∀ before action after, P before → guard before action →
      step before action = some after → P after) : P last := by
  induction hrun with
  | refl => exact hfirst
  | tail _ hstep ih =>
    obtain ⟨action, hguard, hstep⟩ := hstep
    exact hpreserved _ action _ ih hguard hstep

/-- The invariant rule for arbitrary runs. -/
theorem Reaches.invariant {S A : Type} {step : S → A → Option S} {P : S → Prop} {first last : S}
    (hrun : Reaches step first last) (hfirst : P first)
    (hpreserved : ∀ before action after, P before → step before action = some after → P after) :
    P last :=
  ReachesWhere.invariant hrun hfirst (fun before action after hbefore _ hstep =>
    hpreserved before action after hbefore hstep)

/-- The invariant rule relative to a property already known of every state
that is reached. -/
theorem ReachesWhere.invariant_under {S A : Type} {step : S → A → Option S} {guard : S → A → Prop}
    {Known P : S → Prop} {first last : S} (hrun : ReachesWhere step guard first last)
    (hknown : ∀ state, ReachesWhere step guard first state → Known state) (hfirst : P first)
    (hpreserved : ∀ before action after, Known before → P before → guard before action →
      step before action = some after → P after) : P last := by
  induction hrun with
  | refl => exact hfirst
  | tail hbefore hstep ih =>
    obtain ⟨action, hguard, hstep⟩ := hstep
    exact hpreserved _ action _ (hknown _ hbefore) ih hguard hstep

/-- The invariant rule for arbitrary runs relative to a known property. -/
theorem Reaches.invariant_under {S A : Type} {step : S → A → Option S} {Known P : S → Prop} {first last : S}
    (hrun : Reaches step first last) (hknown : ∀ state, Reaches step first state → Known state)
    (hfirst : P first)
    (hpreserved : ∀ before action after, Known before → P before →
      step before action = some after → P after) : P last :=
  ReachesWhere.invariant_under hrun hknown hfirst (fun before action after hknown hbefore _ hstep =>
    hpreserved before action after hknown hbefore hstep)

/-- The executable run of a list of actions. -/
def run {S A : Type} (step : S → A → Option S) : S → List A → Option S
  | state, [] => some state
  | state, action :: rest => (step state action).bind (fun next => run step next rest)

/-- The executable run that also evaluates a decidable side condition at every
step. -/
def runWhere {S A : Type} (step : S → A → Option S) (guard : S → A → Bool) : S → List A → Option S
  | state, [] => some state
  | state, action :: rest =>
    if guard state action then (step state action).bind (fun next => runWhere step guard next rest)
    else none

theorem reachesWhere_of_runWhere {S A : Type} {step : S → A → Option S} {guard : S → A → Bool}
    {actions : List A} {first last : S} (hrun : runWhere step guard first actions = some last) :
    ReachesWhere step (fun state action => guard state action = true) first last := by
  induction actions generalizing first with
  | nil =>
    cases hrun
    exact .refl _
  | cons action rest ih =>
    simp only [runWhere] at hrun
    split at hrun
    · next hguard =>
      obtain ⟨next, hstep, hrest⟩ := Option.bind_eq_some_iff.mp hrun
      exact Relation.ReflTransGen.head ⟨action, hguard, hstep⟩ (ih hrest)
    · cases hrun

theorem reaches_of_run {S A : Type} {step : S → A → Option S} {actions : List A} {first last : S}
    (hrun : run step first actions = some last) : Reaches step first last := by
  induction actions generalizing first with
  | nil =>
    cases hrun
    exact ReachesWhere.refl _
  | cons action rest ih =>
    obtain ⟨next, hstep, hrest⟩ := Option.bind_eq_some_iff.mp hrun
    exact Relation.ReflTransGen.head ⟨action, trivial, hstep⟩ (ih hrest)

/-- A state with a decidable property, found by running a list of actions. -/
theorem exists_reaches_of_run {S A : Type} {step : S → A → Option S} {actions : List A} {first : S} {P : S → Bool}
    (hrun : (run step first actions).any P = true) : ∃ last, Reaches step first last ∧ P last = true := by
  obtain ⟨last, hlast, hp⟩ := (Option.any_eq_true _ _).mp hrun
  exact ⟨last, reaches_of_run hlast, hp⟩

theorem exists_reachesWhere_of_runWhere {S A : Type} {step : S → A → Option S} {guard : S → A → Bool}
    {actions : List A} {first : S} {P : S → Bool} (hrun : (runWhere step guard first actions).any P = true) :
    ∃ last, ReachesWhere step (fun state action => guard state action = true) first last ∧ P last = true := by
  obtain ⟨last, hlast, hp⟩ := (Option.any_eq_true _ _).mp hrun
  exact ⟨last, reachesWhere_of_runWhere hlast, hp⟩

/-- The states that a system with several initial states reaches, by runs all of whose steps meet the side
condition. -/
def ReachesFromWhere {I S A : Type} (initial : I → S) (step : S → A → Option S) (guard : S → A → Prop)
    (state : S) : Prop :=
  ∃ input, ReachesWhere step guard (initial input) state

/-- The states that it reaches by arbitrary runs. -/
def ReachesFrom {I S A : Type} (initial : I → S) (step : S → A → Option S) : S → Prop :=
  ReachesFromWhere initial step fun _ _ => True

section

variable {I S A : Type} {initial : I → S} {step : S → A → Option S} {guard : S → A → Prop} {before after last : S}
  {action : A}

theorem ReachesFromWhere.refl (input : I) : ReachesFromWhere initial step guard (initial input) := ⟨input, .refl _⟩

theorem ReachesFromWhere.tail (h : ReachesFromWhere initial step guard before) (hguard : guard before action)
    (hstep : step before action = some after) : ReachesFromWhere initial step guard after := by
  obtain ⟨input, hrun⟩ := h
  exact ⟨input, hrun.tail hguard hstep⟩

theorem ReachesFromWhere.trans (h : ReachesFromWhere initial step guard before)
    (hrun : ReachesWhere step guard before last) : ReachesFromWhere initial step guard last := by
  obtain ⟨input, hfirst⟩ := h
  exact ⟨input, hfirst.trans hrun⟩

theorem ReachesFromWhere.weaken {weak : S → A → Prop} (himp : ∀ state action, guard state action → weak state action)
    (h : ReachesFromWhere initial step guard last) : ReachesFromWhere initial step weak last := by
  obtain ⟨input, hrun⟩ := h
  exact ⟨input, hrun.weaken himp⟩

theorem ReachesFromWhere.reaches (h : ReachesFromWhere initial step guard last) : ReachesFrom initial step last :=
  h.weaken fun _ _ _ => trivial

/-- The invariant rule. -/
theorem ReachesFromWhere.invariant {P : S → Prop} (h : ReachesFromWhere initial step guard last)
    (hfirst : ∀ input, P (initial input))
    (hpreserved : ∀ before action after, P before → guard before action → step before action = some after → P after) :
    P last := by
  obtain ⟨input, hrun⟩ := h
  exact hrun.invariant (hfirst input) hpreserved

/-- The invariant rule relative to a known property. -/
theorem ReachesFromWhere.invariant_under {Known P : S → Prop} (h : ReachesFromWhere initial step guard last)
    (hknown : ∀ state, ReachesFromWhere initial step guard state → Known state) (hfirst : ∀ input, P (initial input))
    (hpreserved : ∀ before action after, Known before → P before → guard before action →
      step before action = some after → P after) : P last := by
  obtain ⟨input, hrun⟩ := h
  exact hrun.invariant_under (fun state hstate => hknown state ⟨input, hstate⟩) (hfirst input) hpreserved

theorem ReachesFrom.invariant {P : S → Prop} (h : ReachesFrom initial step last) (hfirst : ∀ input, P (initial input))
    (hpreserved : ∀ before action after, P before → step before action = some after → P after) : P last :=
  ReachesFromWhere.invariant h hfirst (fun before action after hbefore _ hstep =>
    hpreserved before action after hbefore hstep)

theorem ReachesFrom.invariant_under {Known P : S → Prop} (h : ReachesFrom initial step last)
    (hknown : ∀ state, ReachesFrom initial step state → Known state) (hfirst : ∀ input, P (initial input))
    (hpreserved : ∀ before action after, Known before → P before →
      step before action = some after → P after) : P last :=
  ReachesFromWhere.invariant_under h hknown hfirst (fun before action after hknown hbefore _ hstep =>
    hpreserved before action after hknown hbefore hstep)

end

theorem exists_reachesFrom_of_run {I S A : Type} {initial : I → S} {step : S → A → Option S} {actions : List A}
    {input : I} {P : S → Bool} (hrun : (run step (initial input) actions).any P = true) :
    ∃ last, ReachesFrom initial step last ∧ P last = true := by
  obtain ⟨last, hreaches, hp⟩ := exists_reaches_of_run hrun
  exact ⟨last, ⟨input, hreaches⟩, hp⟩

theorem exists_reachesFromWhere_of_runWhere {I S A : Type} {initial : I → S} {step : S → A → Option S}
    {guard : S → A → Bool} {actions : List A} {input : I} {P : S → Bool}
    (hrun : (runWhere step guard (initial input) actions).any P = true) :
    ∃ last, ReachesFromWhere initial step (fun state action => guard state action = true) last ∧ P last = true := by
  obtain ⟨last, hreaches, hp⟩ := exists_reachesWhere_of_runWhere hrun
  exact ⟨last, ⟨input, hreaches⟩, hp⟩

end transition
