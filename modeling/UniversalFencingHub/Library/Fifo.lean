import UniversalFencingHub.Library.Transition

namespace transition

/-- What the steps of a run put out, in order. -/
def collect {S A B : Type} (step : S → A → Option S) (output : S → A → List B) : S → List A → List B
  | _, [] => []
  | state, action :: rest =>
    output state action ++
      match step state action with
      | some next => collect step output next rest
      | none => []

/-- A queue in the state of a system: every step puts its input at the end and takes its output from the front. -/
structure Fifo {S A B : Type} (step : S → A → Option S) (Known : S → Prop) (queue : S → List B)
    (input output : S → A → List B) : Prop where
  known : ∀ before action after, Known before → step before action = some after → Known after
  conserved : ∀ before action after, Known before → step before action = some after →
    queue before ++ input before action = output before action ++ queue after

section

variable {S A B C : Type} {step : S → A → Option S} {Known : S → Prop} {queue : S → List B}
  {input output : S → A → List B} {first next last : S} {action : A} {actions rest : List A}

theorem collect_cons (hstep : step first action = some next) :
    collect step output first (action :: rest) = output first action ++ collect step output next rest := by
  rw [collect, hstep]

theorem collect_map (f : B → C) (first : S) (actions : List A) :
    collect step (fun state action => (output state action).map f) first actions =
      (collect step output first actions).map f := by
  induction actions generalizing first with
  | nil => rfl
  | cons action rest ih =>
    rw [collect, collect, List.map_append]
    cases step first action with
    | none => rfl
    | some next => exact congrArg _ (ih next)

theorem collect_filter (p : B → Bool) (first : S) (actions : List A) :
    collect step (fun state action => (output state action).filter p) first actions =
      (collect step output first actions).filter p := by
  induction actions generalizing first with
  | nil => rfl
  | cons action rest ih =>
    rw [collect, collect, List.filter_append]
    cases step first action with
    | none => rfl
    | some next => exact congrArg _ (ih next)

/-- Over a whole run, nothing is lost, nothing is taken twice, and all is taken in the order in which it came. -/
theorem Fifo.run (h : Fifo step Known queue input output) (hfirst : Known first)
    (hrun : transition.run step first actions = some last) :
    queue first ++ collect step input first actions = collect step output first actions ++ queue last := by
  induction actions generalizing first with
  | nil =>
    cases hrun
    exact List.append_nil _
  | cons action rest ih =>
    obtain ⟨next, hstep, hrest⟩ := Option.bind_eq_some_iff.mp hrun
    have hinduction := ih (h.known first action next hfirst hstep) hrest
    calc queue first ++ collect step input first (action :: rest)
        = queue first ++ input first action ++ collect step input next rest := by
          rw [collect_cons hstep, List.append_assoc]
      _ = output first action ++ (queue next ++ collect step input next rest) := by
          rw [h.conserved first action next hfirst hstep, List.append_assoc]
      _ = collect step output first (action :: rest) ++ queue last := by
          rw [hinduction, collect_cons hstep, List.append_assoc]

end

end transition
