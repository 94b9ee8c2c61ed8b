import Mathlib.Algebra.Order.BigOperators.Group.Finset
import Mathlib.Data.Fintype.BigOperators
import UniversalFencingHub.Library.Transition

namespace transition

/-- A rank that every step of the system itself lowers. The steps of its surroundings
raise it by no more than an allowance. -/
structure Ranked {S A : Type} (step : S → A → Option S) (outside : A → Bool) (Known : S → Prop) (rank : S → Nat)
    (allowance : Nat) : Prop where
  known : ∀ before action after, Known before → step before action = some after → Known after
  inside : ∀ before action after, Known before → outside action = false → step before action = some after →
    rank after < rank before
  outside : ∀ before action after, Known before → outside action = true → step before action = some after →
    rank after ≤ rank before + allowance

section

variable {S A : Type} {step : S → A → Option S} {outside : A → Bool} {Known : S → Prop} {rank : S → Nat}
  {allowance : Nat}

theorem Ranked.known_run (h : Ranked step outside Known rank allowance) {actions : List A} {first last : S}
    (hfirst : Known first) (hrun : run step first actions = some last) : Known last := by
  induction actions generalizing first with
  | nil =>
    cases hrun
    exact hfirst
  | cons action rest ih =>
    obtain ⟨next, hstep, hrest⟩ := Option.bind_eq_some_iff.mp hrun
    exact ih (h.known first action next hfirst hstep) hrest

/-- The length of a run is bounded by the rank of its first state and the number of
steps of the surroundings. -/
theorem Ranked.length_le (h : Ranked step outside Known rank allowance) {actions : List A} {first last : S}
    (hfirst : Known first) (hrun : run step first actions = some last) :
    actions.length + rank last ≤ rank first + (allowance + 1) * actions.countP outside := by
  induction actions generalizing first with
  | nil =>
    cases hrun
    simp
  | cons action rest ih =>
    obtain ⟨next, hstep, hrest⟩ := Option.bind_eq_some_iff.mp hrun
    have hlength := ih (h.known first action next hfirst hstep) hrest
    rw [List.length_cons]
    cases houtside : outside action with
    | false =>
      have hlower := h.inside first action next hfirst houtside hstep
      rw [List.countP_cons_of_neg (by simp [houtside])]
      omega
    | true =>
      have hraised := h.outside first action next hfirst houtside hstep
      rw [List.countP_cons_of_pos houtside, Nat.mul_add]
      omega

/-- A system that can go on by itself from every state that is not final reaches a final state. -/
theorem Ranked.exists_run (h : Ranked step outside Known rank allowance) {Alive Final : S → Prop}
    (hproceeds : ∀ state, Known state → Alive state → ¬ Final state →
      ∃ action after, outside action = false ∧ step state action = some after ∧ Alive after)
    {first : S} (hfirst : Known first) (halive : Alive first) :
    ∃ actions last, (∀ action ∈ actions, outside action = false) ∧ run step first actions = some last ∧ Final last := by
  induction hrank : rank first using Nat.strongRecOn generalizing first with
  | ind bound ih =>
    by_cases hfinal : Final first
    · exact ⟨[], first, by simp, rfl, hfinal⟩
    · obtain ⟨action, after, hown, hstep, hafter⟩ := hproceeds first hfirst halive hfinal
      have hlower := h.inside first action after hfirst hown hstep
      obtain ⟨actions, last, hactions, hrun, hlast⟩ :=
        ih (rank after) (hrank ▸ hlower) (h.known first action after hfirst hstep) hafter rfl
      refine ⟨action :: actions, last, ?_, ?_, hlast⟩
      · exact List.forall_mem_cons.mpr ⟨hown, hactions⟩
      · rw [run, hstep]
        exact hrun

end

section

variable {I A : Type} [Fintype I] [DecidableEq I]

/-- The sum of the ranks of the parts of a system. -/
def total (weight : A → Nat) (values : I → A) : Nat := ∑ index, weight (values index)

theorem total_update (weight : A → Nat) (values : I → A) (index : I) (value : A) :
    total weight (Function.update values index value) + weight (values index) = total weight values + weight value := by
  have hsplit : ∀ values : I → A,
      total weight values = weight (values index) + ∑ other ∈ Finset.univ.erase index, weight (values other) :=
    fun values => (Finset.add_sum_erase _ _ (Finset.mem_univ index)).symm
  have hrest : ∑ other ∈ Finset.univ.erase index, weight (Function.update values index value other) =
      ∑ other ∈ Finset.univ.erase index, weight (values other) := by
    apply Finset.sum_congr rfl
    intro other hother
    rw [Function.update_of_ne (Finset.ne_of_mem_erase hother)]
  rw [hsplit, hsplit values, hrest, Function.update_self]
  omega

omit [DecidableEq I] in
theorem total_le (weight : A → Nat) {before after : I → A} {raise : Nat}
    (hraise : ∀ index, weight (after index) ≤ weight (before index) + raise) :
    total weight after ≤ total weight before + Fintype.card I * raise := by
  have hsum := Finset.sum_le_sum fun index (_ : index ∈ Finset.univ) => hraise index
  rw [Finset.sum_add_distrib, Finset.sum_const_nat (fun _ _ => rfl), Finset.card_univ] at hsum
  exact hsum

omit [DecidableEq I] in
theorem total_le_bound (weight : A → Nat) {values : I → A} {bound : Nat} (hbound : ∀ value, weight value ≤ bound) :
    total weight values ≤ Fintype.card I * bound := by
  have hsum := Finset.sum_le_sum fun index (_ : index ∈ Finset.univ) => hbound (values index)
  rw [Finset.sum_const_nat (fun _ _ => rfl), Finset.card_univ] at hsum
  exact hsum

end

end transition
