import Mathlib.Data.Fintype.Card

namespace counting

variable {I A : Type} [Fintype I] [DecidableEq I] {p : A → Prop} [DecidablePred p]

/-- The number of indices whose value has a property. -/
def count (p : A → Prop) [DecidablePred p] (values : I → A) : Nat :=
  (Finset.univ.filter fun index => p (values index)).card

omit [DecidableEq I] in
theorem exists_of_count_pos {values : I → A} (h : 0 < count p values) : ∃ index, p (values index) := by
  obtain ⟨index, hindex⟩ := Finset.card_pos.mp h
  exact ⟨index, (Finset.mem_filter.mp hindex).2⟩

theorem count_update_of_iff (values : I → A) (index : I) {value : A} (h : p value ↔ p (values index)) :
    count p (Function.update values index value) = count p values := by
  unfold count
  congr 1
  ext other
  by_cases hsame : other = index
  · subst hsame
    simp [h]
  · simp [hsame]

theorem count_update_insert (values : I → A) (index : I) {value : A} (hvalue : p value) (hindex : ¬ p (values index)) :
    count p (Function.update values index value) = count p values + 1 := by
  have hinsert : (Finset.univ.filter fun other => p (Function.update values index value other)) =
      insert index (Finset.univ.filter fun other => p (values other)) := by
    ext other
    by_cases hsame : other = index
    · subst hsame
      simp [hvalue]
    · simp [hsame]
  unfold count
  rw [hinsert, Finset.card_insert_of_notMem (by simpa using hindex)]

theorem count_update_erase (values : I → A) (index : I) {value : A} (hvalue : ¬ p value) (hindex : p (values index)) :
    count p (Function.update values index value) + 1 = count p values := by
  have herase : (Finset.univ.filter fun other => p (Function.update values index value other)) =
      (Finset.univ.filter fun other => p (values other)).erase index := by
    ext other
    by_cases hsame : other = index
    · subst hsame
      simp [hvalue]
    · simp [hsame]
  unfold count
  rw [herase, Finset.card_erase_add_one (by simpa using hindex)]

omit [DecidableEq I] in
/-- When every value without the property owns a token that is not on a list, and no
two of them the same one, the values with the property are no fewer than the list. -/
theorem length_le_count {T : Type} [Fintype T] [DecidableEq T] (values : I → A) {tokens : List T}
    (hnodup : tokens.Nodup) (hcard : Fintype.card T ≤ Fintype.card I) (token : I → T)
    (hfresh : ∀ index, ¬ p (values index) → token index ∉ tokens)
    (hdistinct : ∀ index other, ¬ p (values index) → ¬ p (values other) → token index = token other → index = other) :
    tokens.length ≤ count p values := by
  have hsplit := Finset.card_filter_add_card_filter_not (s := (Finset.univ : Finset I)) (fun index => p (values index))
  have himage : ((Finset.univ.filter fun index => ¬ p (values index)).image token).card =
      (Finset.univ.filter fun index => ¬ p (values index)).card := by
    apply Finset.card_image_of_injOn
    intro index hindex other hother heq
    simp only [Finset.mem_coe, Finset.mem_filter, Finset.mem_univ, true_and] at hindex hother
    exact hdistinct index other hindex hother heq
  have hdisjoint : Disjoint ((Finset.univ.filter fun index => ¬ p (values index)).image token) tokens.toFinset := by
    rw [Finset.disjoint_left]
    intro found himage hlist
    obtain ⟨index, hindex, rfl⟩ := Finset.mem_image.mp himage
    exact hfresh index (Finset.mem_filter.mp hindex).2 (List.mem_toFinset.mp hlist)
  have hunion := Finset.card_le_univ
    ((Finset.univ.filter fun index => ¬ p (values index)).image token ∪ tokens.toFinset)
  rw [Finset.card_union_of_disjoint hdisjoint, himage, List.toFinset_card_of_nodup hnodup] at hunion
  rw [Finset.card_univ] at hsplit
  unfold count
  omega

end counting
