import Mathlib.Data.Nat.Basic
import Mathlib.Logic.Relation

namespace looping

/-- A `while` loop with a bound on its rounds. The body goes on with a new state or
leaves the loop with a result; `none` means that the bound was too small. -/
def run {S R : Type} (body : S → S ⊕ R) : Nat → S → Option R
  | 0, _ => none
  | fuel + 1, state =>
    match body state with
    | .inl next => run body fuel next
    | .inr result => some result

/-- The states in which a round of the loop starts. -/
def Reaches {S R : Type} (body : S → S ⊕ R) : S → S → Prop :=
  Relation.ReflTransGen fun before after => body before = .inl after

/-- The loop ends with a result. -/
def Ends {S R : Type} (body : S → S ⊕ R) (state : S) (result : R) : Prop :=
  ∃ fuel, run body fuel state = some result

section

variable {S R : Type} {body : S → S ⊕ R} {state next : S} {result other : R} {fuel more : Nat}

theorem run_next (h : body state = .inl next) : run body (fuel + 1) state = run body fuel next := by
  simp only [run, h]

theorem run_result (h : body state = .inr result) : run body (fuel + 1) state = some result := by
  simp only [run, h]

/-- A larger bound changes nothing for a loop that ends. -/
theorem run_mono (hrun : run body fuel state = some result) (hle : fuel ≤ more) :
    run body more state = some result := by
  induction fuel generalizing state more with
  | zero => cases hrun
  | succ fuel ih =>
    obtain ⟨rest, rfl⟩ : ∃ rest, more = rest + 1 := ⟨more - 1, by omega⟩
    cases hbody : body state with
    | inl next =>
      rw [run_next hbody] at hrun ⊢
      exact ih hrun (by omega)
    | inr value =>
      rw [run_result hbody] at hrun ⊢
      exact hrun

theorem Ends.unique (hfirst : Ends body state result) (hsecond : Ends body state other) : result = other := by
  obtain ⟨fuel, hfirst⟩ := hfirst
  obtain ⟨more, hsecond⟩ := hsecond
  have hresult := run_mono hfirst (Nat.le_max_left fuel more)
  have hother := run_mono hsecond (Nat.le_max_right fuel more)
  rw [hresult] at hother
  exact Option.some.inj hother

theorem Ends.finish (h : body state = .inr result) : Ends body state result := ⟨1, run_result h⟩

theorem ends_next (h : body state = .inl next) : Ends body state result ↔ Ends body next result := by
  constructor
  · rintro ⟨fuel, hrun⟩
    cases fuel with
    | zero => cases hrun
    | succ fuel =>
      rw [run_next h] at hrun
      exact ⟨fuel, hrun⟩
  · rintro ⟨fuel, hrun⟩
    exact ⟨fuel + 1, by rw [run_next h, hrun]⟩

/-- A loop whose body keeps an invariant and never leaves does not end. -/
theorem not_ends_of_invariant {P : S → Prop} (hbody : ∀ state, P state → ∃ next, body state = .inl next ∧ P next)
    (hstate : P state) : run body fuel state = none := by
  induction fuel generalizing state with
  | zero => rfl
  | succ fuel ih =>
    obtain ⟨next, hnext, hkept⟩ := hbody state hstate
    rw [run_next hnext]
    exact ih hkept

/-- What every round keeps holds in every round. -/
theorem Reaches.invariant {P : S → Prop} (hbody : ∀ state next, P state → body state = .inl next → P next)
    (hstate : P state) (hreaches : Reaches body state next) : P next := by
  induction hreaches with
  | refl => exact hstate
  | tail _ hround ih => exact hbody _ _ ih hround

/-- What an invariant says about the state in which a loop is left. -/
theorem invariant_of_run {P : S → Prop} (hbody : ∀ state next, P state → body state = .inl next → P next)
    (hstate : P state) (hrun : run body fuel state = some result) : ∃ last, P last ∧ body last = .inr result := by
  induction fuel generalizing state with
  | zero => cases hrun
  | succ fuel ih =>
    cases hnext : body state with
    | inl next =>
      rw [run_next hnext] at hrun
      exact ih (hbody state next hstate hnext) hrun
    | inr value =>
      rw [run_result hnext] at hrun
      exact ⟨state, hstate, hnext.trans (congrArg Sum.inr (Option.some.inj hrun))⟩

/-- A loop ends with a result exactly when it reaches a round that leaves it with this result. -/
theorem ends_iff_reaches : Ends body state result ↔ ∃ last, Reaches body state last ∧ body last = .inr result := by
  constructor
  · rintro ⟨fuel, hrun⟩
    exact invariant_of_run (fun _ _ hreached hnext => hreached.tail hnext) .refl hrun
  · rintro ⟨last, hreached, hlast⟩
    induction hreached using Relation.ReflTransGen.head_induction_on with
    | refl => exact .finish hlast
    | head hnext _ ih => exact (ends_next hnext).mpr ih

/-- Two loops whose rounds keep a relation between their states end with related results. -/
theorem Ends.related {S' R' : Type} {other_body : S' → S' ⊕ R'} {Related : S → S' → Prop} {Agree : R → R' → Prop}
    {other_state : S'} {other_result : R'}
    (hround : ∀ state other, Related state other → Sum.LiftRel Related Agree (body state) (other_body other))
    (hstate : Related state other_state) (hends : Ends body state result)
    (hother : Ends other_body other_state other_result) : Agree result other_result := by
  obtain ⟨fuel, hrun⟩ := hends
  induction fuel generalizing state other_state with
  | zero => cases hrun
  | succ fuel ih =>
    have hrelated := hround state other_state hstate
    cases hbody : body state with
    | inl next =>
      rw [run_next hbody] at hrun
      cases hother_body : other_body other_state with
      | inl other_next =>
        rw [hbody, hother_body, Sum.liftRel_inl_inl] at hrelated
        exact ih hrelated ((ends_next hother_body).mp hother) hrun
      | inr other_value =>
        rw [hbody, hother_body] at hrelated
        cases hrelated
    | inr value =>
      rw [run_result hbody] at hrun
      obtain rfl := Option.some.inj hrun
      cases hother_body : other_body other_state with
      | inl other_next =>
        rw [hbody, hother_body] at hrelated
        cases hrelated
      | inr other_value =>
        rw [hbody, hother_body, Sum.liftRel_inr_inr] at hrelated
        rwa [hother.unique (.finish hother_body)]

end

end looping
